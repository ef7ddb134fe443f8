import Mathlib.Logic.Function.Basic
import Mathlib.Order.Nat
import Mathlib.Tactic.Common

/-!
# Contests for the first place

Candidates take places of a line, one each. A candidate that has a place looks at the places before
its own, from the first one on: where another one holds a place it gives up, and once it has seen
them all it has won.

Two rules make a contest fair: nobody takes a place that a candidate behind it has looked at before
(`Contest.Move.stand`), and nobody passes a place that is held (`Contest.Move.look`).

* `Contest.Orderly.won_unique` — then at most one candidate wins;
* `Contest.Orderly.exists_won` — and once all of them are through, one has won.
-/

namespace Aura.Lib

/-- What has become of a candidate. -/
inductive Candidate
  /-- It has not tried yet. -/
  | out
  /-- It holds a place, and has seen the places before `seen`. -/
  | running (place seen : ℕ)
  /-- It has seen that all places before its own are free. -/
  | won (place : ℕ)
  /-- It gives up, but still holds its place. -/
  | leaving (place : ℕ)
  /-- It gave up. -/
  | lost
deriving DecidableEq

namespace Candidate

/-- The place it holds. -/
def place? : Candidate → Option ℕ
  | running p _ | won p | leaving p => some p
  | out | lost => none

/-- How many places it has seen, as long as it may still win. -/
def seen? : Candidate → Option ℕ
  | running _ s => some s
  | won p => some p
  | out | leaving _ | lost => none

/-- The place it holds, as long as it may still win. -/
def stands? : Candidate → Option ℕ
  | running p _ | won p => some p
  | out | leaving _ | lost => none

/-- Who holds a place may still win, or is about to give up. -/
theorem place_cases {x : Candidate} {p : ℕ} (h : x.place? = some p) :
    x.stands? = some p ∨ x = leaving p := by
  cases x with
  | running => exact .inl h
  | won => exact .inl h
  | leaving q =>
      obtain rfl := Option.some.inj h
      exact .inr rfl
  | _ => cases h

end Candidate

namespace Contest

open Candidate

variable {ι : Type*} {f : ι → Candidate} {i j : ι} {x y : Candidate} {p s : ℕ}

/-- The moves of one candidate among the others. -/
inductive Move (f : ι → Candidate) : Candidate → Candidate → Prop
  /-- It takes a free place that nobody behind it has seen. -/
  | stand {p : ℕ} (hfree : ∀ j, (f j).place? ≠ some p)
      (hseen : ∀ j s, (f j).seen? = some s → s ≤ p) : Move f out (running p 0)
  /-- It passes a free place. -/
  | look {p s : ℕ} (hlt : s < p) (hfree : ∀ j, (f j).place? ≠ some s) :
      Move f (running p s) (running p (s + 1))
  /-- It sees a place that is held. -/
  | give {p s : ℕ} (hlt : s < p) (hheld : ∃ j, (f j).place? = some s) :
      Move f (running p s) (leaving p)
  /-- It has seen all places before its own. -/
  | win {p : ℕ} : Move f (running p p) (won p)
  /-- Its place is free again. -/
  | leave {p : ℕ} : Move f (leaving p) lost
  /-- It does not even take a place, as another one has. -/
  | refuse (hheld : ∃ j s, (f j).place? = some s) : Move f out lost

/-- **The order of a contest.** Places are held by one candidate each, nobody has seen more than the
places before any that is held, and whoever gives up does so for one that stands. -/
structure Orderly (f : ι → Candidate) : Prop where
  apart : ∀ i j p, (f i).place? = some p → (f j).place? = some p → i = j
  seen : ∀ i j p s, (f i).place? = some p → (f j).seen? = some s → s ≤ p
  leaving : ∀ i p, f i = leaving p → ∃ j s, (f j).stands? = some s ∧ s < p
  lost : ∀ i, f i = lost → ∃ j s, (f j).stands? = some s

/-- Nobody has moved. -/
theorem Orderly.start (h : ∀ i, f i = out) : Orderly f := by
  refine ⟨fun i j p hi => ?_, fun i j p s hi => ?_, fun i p hi => ?_, fun i hi => ?_⟩
  all_goals rw [h i] at hi; cases hi

/-- Behind every held place one stands at the place or before. -/
theorem Orderly.stands_le (h : Orderly f) (hp : (f i).place? = some p) :
    ∃ j s, (f j).stands? = some s ∧ s ≤ p := by
  rcases place_cases hp with hstands | hleaving
  · exact ⟨i, p, hstands, le_refl p⟩
  · obtain ⟨j, s, hj, hlt⟩ := h.leaving i p hleaving
    exact ⟨j, s, hj, le_of_lt hlt⟩

/-! ## The end of a contest -/

/-- **At most one candidate wins.** -/
theorem Orderly.won_unique {q : ℕ} (h : Orderly f) (hi : f i = won p) (hj : f j = won q) :
    i = j := by
  have hip : (f i).place? = some p := by rw [hi]; rfl
  have hjq : (f j).place? = some q := by rw [hj]; rfl
  have his : (f i).seen? = some p := by rw [hi]; rfl
  have hjs : (f j).seen? = some q := by rw [hj]; rfl
  have hle := h.seen i j p q hip hjs
  have hge := h.seen j i q p hjq his
  obtain rfl : p = q := by omega
  exact h.apart i j p hip hjq

/-- **Once all are through, one has won.** -/
theorem Orderly.exists_won (h : Orderly f)
    (hover : ∀ i, f i = out ∨ (∃ p, f i = won p) ∨ f i = Candidate.lost) (hmoved : f i ≠ out) :
    ∃ j p, f j = won p := by
  rcases hover i with hout | ⟨p, hwon⟩ | hlost
  · exact absurd hout hmoved
  · exact ⟨i, p, hwon⟩
  · obtain ⟨j, s, hj⟩ := h.lost i hlost
    rcases hover j with hout | ⟨p, hwon⟩ | hlost'
    · rw [hout] at hj
      cases hj
    · exact ⟨j, p, hwon⟩
    · rw [hlost'] at hj
      cases hj

/-! ## Moves keep the order -/

variable [DecidableEq ι]

/-- What one that stands before a place leaves to the others when a candidate moves: one that stands
before the place. -/
theorem Orderly.stands_update (h : Orderly f) (hmove : Move f (f i) y)
    (hj : (f j).stands? = some s) :
    ∃ k s', (Function.update f i y k).stands? = some s' ∧ s' ≤ s := by
  by_cases hne : j = i
  · subst hne
    have hself : Function.update f j y j = y := Function.update_self _ _ _
    generalize hx : f j = x at hmove hj
    cases hmove with
    | look hlt hfree =>
        exact ⟨j, s, by rw [hself]; exact hj, le_refl s⟩
    | win => exact ⟨j, s, by rw [hself]; exact hj, le_refl s⟩
    | give hlt hheld =>
        obtain ⟨k, hk⟩ := hheld
        obtain rfl := Option.some.inj hj
        obtain ⟨m, s', hm, hle⟩ := h.stands_le hk
        have hmj : m ≠ j := by
          rintro rfl
          rw [hx] at hm
          obtain rfl := Option.some.inj hm
          omega
        exact ⟨m, s', by rw [Function.update_of_ne hmj]; exact hm, by omega⟩
    | _ => cases hj
  · exact ⟨j, s, by rw [Function.update_of_ne hne]; exact hj, le_refl s⟩

/-- **Every move keeps the order.** -/
theorem Orderly.step (h : Orderly f) (hmove : Move f (f i) y) :
    Orderly (Function.update f i y) := by
  have hself : Function.update f i y i = y := Function.update_self _ _ _
  have hother {j : ι} (hj : j ≠ i) : Function.update f i y j = f j := Function.update_of_ne hj _ _
  -- a place that is held was held before, or has just been taken
  have hplace {p : ℕ} (hp : y.place? = some p) :
      (f i).place? = some p ∨ f i = out ∧ (∀ j, (f j).place? ≠ some p) ∧
        ∀ j s, (f j).seen? = some s → s ≤ p := by
    generalize hx : f i = x at hmove
    cases hmove with
    | stand hfree hseen =>
        obtain rfl := Option.some.inj hp
        exact .inr ⟨rfl, hfree, hseen⟩
    | look | give | win => exact .inl hp
    | _ => cases hp
  have hseen {s : ℕ} (hs : y.seen? = some s) :
      (f i).seen? = some s ∨ s = 0 ∨ ∃ p r, f i = running p r ∧ s = r + 1 ∧
        ∀ j, (f j).place? ≠ some r := by
    generalize hx : f i = x at hmove
    cases hmove with
    | stand =>
        obtain rfl := Option.some.inj hs
        exact .inr (.inl rfl)
    | look hlt hfree =>
        obtain rfl := Option.some.inj hs
        exact .inr (.inr ⟨_, _, rfl, rfl, hfree⟩)
    | win => exact .inl hs
    | _ => cases hs
  have hapart {j : ι} (hj : j ≠ i) {p : ℕ} (hp : y.place? = some p) : (f j).place? ≠ some p := by
    intro hjp
    rcases hplace hp with hold | ⟨-, hfree, -⟩
    · exact hj (h.apart j i p hjp hold)
    · exact hfree j hjp
  refine ⟨fun j k p hj hk => ?_, fun j k p s hj hk => ?_, fun j p hj => ?_, fun j hj => ?_⟩
  · by_cases hji : j = i <;> by_cases hki : k = i
    · rw [hji, hki]
    · rw [hji, hself] at hj
      rw [hother hki] at hk
      exact absurd hk (hapart hki hj)
    · rw [hki, hself] at hk
      rw [hother hji] at hj
      exact absurd hj (hapart hji hk)
    · rw [hother hji] at hj
      rw [hother hki] at hk
      exact h.apart j k p hj hk
  · have hold : (f j).place? = some p ∨ ∀ k s, (f k).seen? = some s → s ≤ p := by
      by_cases hji : j = i
      · rw [hji, hself] at hj
        rw [hji]
        exact (hplace hj).imp id fun hnew => hnew.2.2
      · rw [hother hji] at hj
        exact .inl hj
    have hbound {r : ℕ} (hr : (f k).seen? = some r) : r ≤ p :=
      hold.elim (fun hjp => h.seen j k p r hjp hr) fun hall => hall k r hr
    by_cases hki : k = i
    · rw [hki, hself] at hk
      rcases hseen hk with hks | rfl | ⟨q, r, hx, rfl, hfree⟩
      · exact hbound (hki ▸ hks)
      · exact Nat.zero_le p
      · have hr : (f i).seen? = some r := by rw [hx]; rfl
        have hle := hbound (hki ▸ hr)
        have hne : r ≠ p := by
          rintro rfl
          by_cases hji : j = i
          · rw [hji, hself] at hj
            rcases hplace hj with hji' | ⟨hout, -, -⟩
            · exact hfree i hji'
            · rw [hout] at hx
              cases hx
          · rw [hother hji] at hj
            exact hfree j hj
        omega
    · rw [hother hki] at hk
      exact hbound hk
  · by_cases hji : j = i
    · rw [hji, hself] at hj
      subst hj
      have hgiven := hmove
      generalize hx : f i = x at hmove
      cases hmove with
      | give hlt hheld =>
          obtain ⟨k, hk⟩ := hheld
          obtain ⟨m, s', hm, hle⟩ := h.stands_le hk
          obtain ⟨m', s'', hm', hle'⟩ := h.stands_update hgiven hm
          exact ⟨m', s'', hm', by omega⟩
    · rw [hother hji] at hj
      obtain ⟨k, s, hk, hlt⟩ := h.leaving j p hj
      obtain ⟨m, s', hm, hle⟩ := h.stands_update hmove hk
      exact ⟨m, s', hm, by omega⟩
  · have hbefore : ∃ k s, (f k).stands? = some s := by
      by_cases hji : j = i
      · rw [hji, hself] at hj
        subst hj
        generalize hx : f i = x at hmove
        cases hmove with
        | leave =>
            obtain ⟨k, s, hk, -⟩ := h.leaving i _ hx
            exact ⟨k, s, hk⟩
        | refuse hheld =>
            obtain ⟨k, s, hk⟩ := hheld
            obtain ⟨m, s', hm, -⟩ := h.stands_le hk
            exact ⟨m, s', hm⟩
      · rw [hother hji] at hj
        exact h.lost j hj
    obtain ⟨k, s, hk⟩ := hbefore
    obtain ⟨m, s', hm, -⟩ := h.stands_update hmove hk
    exact ⟨m, s', hm⟩

end Contest

end Aura.Lib
