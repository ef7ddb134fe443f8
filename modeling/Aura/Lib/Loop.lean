import Mathlib.Data.Nat.Notation
import Mathlib.Logic.Relation
import Mathlib.Tactic.SplitIfs

/-!
# Loops

`loop done step` is `while (!done) step`, with a bound on the rounds. `Rounds` relates the states
that rounds of it lead between; a loop that comes to its end this way returns what it ends with
(`loop_of_rounds`), and what it returns does not depend on where it is entered
(`loop_after_rounds`).
-/

namespace Aura.Lib

open Relation

variable {σ : Type*}

/-- The loop, with at most so many rounds. -/
def loop (done : σ → Bool) (step : σ → σ) : ℕ → σ → Option σ
  | 0, s => if done s then some s else none
  | fuel + 1, s => if done s then some s else loop done step fuel (step s)

/-- The loop returns `s'`, given enough rounds. -/
def LoopReturns (done : σ → Bool) (step : σ → σ) (s s' : σ) : Prop :=
  ∃ rounds, ∀ fuel, rounds ≤ fuel → loop done step fuel s = some s'

/-- Rounds of the loop. -/
abbrev Rounds (done : σ → Bool) (step : σ → σ) : σ → σ → Prop :=
  ReflTransGen fun s s' => done s = false ∧ step s = s'

variable {done : σ → Bool} {step : σ → σ} {s s' : σ}

theorem Rounds.of_step (h : done s = false) (hrest : Rounds done step (step s) s') :
    Rounds done step s s' :=
  ReflTransGen.head ⟨h, rfl⟩ hrest

theorem loop_of_done (h : done s = true) (fuel : ℕ) : loop done step fuel s = some s := by
  cases fuel <;> rw [loop, if_pos h]

/-- Rounds up to the end are what the loop computes. -/
theorem loop_of_rounds (h : Rounds done step s s') (hs' : done s' = true) :
    LoopReturns done step s s' := by
  induction h using ReflTransGen.head_induction_on with
  | refl => exact ⟨0, fun fuel _ => loop_of_done hs' fuel⟩
  | head hround _ ih =>
      obtain ⟨hdone, rfl⟩ := hround
      obtain ⟨rounds, hrounds⟩ := ih
      refine ⟨rounds + 1, fun fuel hfuel => ?_⟩
      obtain ⟨fuel, rfl⟩ := Nat.exists_eq_add_of_le' hfuel
      rw [← Nat.add_assoc, loop, if_neg (by rw [hdone]; exact Bool.false_ne_true)]
      exact hrounds _ (Nat.le_add_left rounds fuel)

/-- What every round keeps holds of what the loop returns. -/
theorem loop_invariant {I : σ → Prop} (hstep : ∀ s, done s = false → I s → I (step s)) {fuel : ℕ}
    (h : loop done step fuel s = some s') (hs : I s) : I s' := by
  induction fuel generalizing s with
  | zero =>
      rw [loop] at h
      split_ifs at h
      exact Option.some.inj h ▸ hs
  | succ fuel ih =>
      rw [loop] at h
      split_ifs at h with hdone
      · exact Option.some.inj h ▸ hs
      · exact ih h (hstep s (Bool.not_eq_true _ ▸ hdone) hs)

/-- Some rounds on, the loop returns the same. -/
theorem loop_after_rounds {s'' : σ} (h : Rounds done step s s') {fuel : ℕ}
    (hret : loop done step fuel s = some s'') : ∃ fuel', loop done step fuel' s' = some s'' := by
  induction h using ReflTransGen.head_induction_on generalizing fuel with
  | refl => exact ⟨fuel, hret⟩
  | head hround _ ih =>
      obtain ⟨hdone, rfl⟩ := hround
      cases fuel with
      | zero =>
          rw [loop, hdone] at hret
          cases hret
      | succ fuel =>
          rw [loop, hdone] at hret
          exact ih hret

end Aura.Lib
