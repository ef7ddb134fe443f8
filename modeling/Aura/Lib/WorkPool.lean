import Mathlib.Algebra.BigOperators.Group.Finset.Basic
import Mathlib.Algebra.Order.BigOperators.Group.Finset
import Mathlib.Tactic.Ring

/-!
# Termination by counting

Participants take items from a queue, add new ones and account for those they took. A counter is
raised before items are added and lowered for every item that was accounted for; who lowers it to 0
is to say that all is done.

* `WorkPool.Sound.step` — the counter is always the number of items that are queued, taken and not
  accounted for, or counted and not added yet;
* `WorkPool.Sound.idle` — so nothing is left once somebody saw it reach 0, and nothing comes later;
* `WorkPool.Sound.notified` — and somebody did, once it is 0.
-/

namespace Aura.Lib

/-- What a participant has in hand: items taken and not accounted for, items counted and not added,
and whether it saw the counter reach 0 and has not said so. -/
structure Hand where
  held : ℕ := 0
  counted : ℕ := 0
  signals : Bool := false
deriving DecidableEq

/-- A queue with its counter, and what the participants have in hand. While the pool is open, items
are added from outside, and nobody accounts for one. -/
structure WorkPool (ι : Type*) where
  isOpen : Bool
  queued : ℕ
  pending : ℤ
  done : Bool
  hand : ι → Hand

namespace WorkPool

variable {ι : Type*} [DecidableEq ι] {ps : Finset ι} {p q : WorkPool ι} {i : ι}

/-- What a participant can do. -/
inductive Step (p : WorkPool ι) (i : ι) : WorkPool ι → Prop
  | take {k : ℕ} (hk : k ≤ p.queued) (hempty : p.hand i = {}) :
      Step p i { p with
        queued := p.queued - k
        hand := Function.update p.hand i { held := k } }
  | count {k : ℕ} (hbusy : 0 < (p.hand i).held ∨ p.isOpen = true) :
      Step p i { p with
        pending := p.pending + k
        hand := Function.update p.hand i
          { p.hand i with counted := k + (p.hand i).counted } }
  | push {k : ℕ} (hk : (p.hand i).counted = k) :
      Step p i { p with
        queued := p.queued + k
        hand := Function.update p.hand i { p.hand i with counted := 0 } }
  | undo {k : ℕ} (hk : (p.hand i).counted = k) (hopen : p.isOpen = true) :
      Step p i { p with
        pending := p.pending - k
        hand := Function.update p.hand i { p.hand i with counted := 0 } }
  | account {n : ℕ} (hheld : p.hand i = { held := n + 1 }) (hopen : p.isOpen = false) :
      Step p i { p with
        pending := p.pending - 1
        hand := Function.update p.hand i { held := n, signals := decide (p.pending = 1) } }
  | signal {n : ℕ} (hsignals : p.hand i = { held := n, signals := true }) :
      Step p i { p with
        done := true
        hand := Function.update p.hand i { held := n } }
  | close (hopen : p.isOpen = true) (hne : p.pending ≠ 0) : Step p i { p with isOpen := false }

/-- **What the counter counts.** -/
structure Sound (ps : Finset ι) (p : WorkPool ι) : Prop where
  outside : ∀ i, i ∉ ps → p.hand i = {}
  sum : p.pending = p.queued + ∑ i ∈ ps, ((p.hand i).held + (p.hand i).counted : ℕ)
  zero : p.done = true ∨ (∃ i, (p.hand i).signals = true) → p.pending = 0
  early : p.isOpen = true → p.done = false ∧ ∀ i, (p.hand i).signals = false
  notified : p.isOpen = false → p.pending = 0 → p.done = true ∨ ∃ i, (p.hand i).signals = true

omit [DecidableEq ι] in
/-- **With the counter at 0 nothing is left.** -/
theorem Sound.idle (h : Sound ps p) (hzero : p.pending = 0) :
    p.queued = 0 ∧ ∀ i, (p.hand i).held = 0 ∧ (p.hand i).counted = 0 := by
  have hsum := h.sum
  rw [hzero] at hsum
  have hnat : p.queued + ∑ i ∈ ps, ((p.hand i).held + (p.hand i).counted) = 0 := by
    exact_mod_cast hsum.symm
  obtain ⟨hqueued, hhands⟩ := Nat.add_eq_zero_iff.mp hnat
  refine ⟨hqueued, fun i => ?_⟩
  by_cases hi : i ∈ ps
  · exact Nat.add_eq_zero_iff.mp (Finset.sum_eq_zero_iff.mp hhands i hi)
  · rw [h.outside i hi]
    exact ⟨rfl, rfl⟩

omit [DecidableEq ι] in
/-- Who has something in hand keeps the counter above 0. -/
theorem Sound.pending_pos (h : Sound ps p)
    (hbusy : 0 < p.queued ∨ 0 < (p.hand i).held ∨ 0 < (p.hand i).counted) : 0 < p.pending := by
  have hne : p.pending ≠ 0 := by
    intro hzero
    obtain ⟨hqueued, hhands⟩ := h.idle hzero
    obtain ⟨hheld, hcounted⟩ := hhands i
    omega
  have hsum := h.sum
  have hle : (0 : ℤ) ≤ ((p.queued + ∑ i ∈ ps, ((p.hand i).held + (p.hand i).counted) : ℕ) : ℤ) :=
    Int.natCast_nonneg _
  push_cast at hle hsum
  omega

/-- A sum over participants of whom one changes. -/
theorem sum_update (hi : i ∈ ps) (f : ι → Hand) (x : Hand) (g : Hand → ℕ) :
    ∑ j ∈ ps, g (Function.update f i x j) + g (f i) = ∑ j ∈ ps, g (f j) + g x := by
  rw [← Finset.sum_erase_add _ _ hi, ← Finset.sum_erase_add ps (fun j => g (f j)) hi,
    Function.update_self]
  have hrest : ∑ j ∈ ps.erase i, g (Function.update f i x j) = ∑ j ∈ ps.erase i, g (f j) :=
    Finset.sum_congr rfl fun j hj => by rw [Function.update_of_ne (Finset.ne_of_mem_erase hj)]
  rw [hrest]
  ring

/-- **Every step keeps what the counter counts.** -/
theorem Sound.step (h : Sound ps p) (hi : i ∈ ps) (hstep : Step p i q) : Sound ps q := by
  have houtside (x : Hand) (j : ι) (hj : j ∉ ps) : Function.update p.hand i x j = {} := by
    have hne : j ≠ i := fun heq => hj (heq ▸ hi)
    rw [Function.update_of_ne hne]
    exact h.outside j hj
  have hsum (x : Hand) := sum_update hi p.hand x fun y => y.held + y.counted
  -- a signal after a change of one hand is its own, or was there before
  have hsignals {x : Hand} (hx : x.signals = true → (p.hand i).signals = true)
      (hex : ∃ j, (Function.update p.hand i x j).signals = true) :
      ∃ j, (p.hand j).signals = true := by
    obtain ⟨j, hj⟩ := hex
    by_cases hji : j = i
    · rw [hji, Function.update_self] at hj
      exact ⟨i, hx hj⟩
    · rw [Function.update_of_ne hji] at hj
      exact ⟨j, hj⟩
  have hkept {x : Hand} (hx : (p.hand i).signals = true → x.signals = true)
      (hex : ∃ j, (p.hand j).signals = true) :
      ∃ j, (Function.update p.hand i x j).signals = true := by
    obtain ⟨j, hj⟩ := hex
    by_cases hji : j = i
    · exact ⟨i, by rw [Function.update_self]; exact hx (hji ▸ hj)⟩
    · exact ⟨j, by rw [Function.update_of_ne hji]; exact hj⟩
  have hquiet {x : Hand} (hx : (p.hand i).signals = false → x.signals = false)
      (hall : ∀ j, (p.hand j).signals = false) (j : ι) :
      (Function.update p.hand i x j).signals = false := by
    by_cases hji : j = i
    · rw [hji, Function.update_self]
      exact hx (hall i)
    · rw [Function.update_of_ne hji]
      exact hall j
  have hold := h.sum
  cases hstep with
  | @take k hk hempty =>
      have hnew := hsum { held := k }
      rw [hempty] at hnew
      refine ⟨houtside _, ?_, fun hone => h.zero ?_, fun hopen => ?_, fun hopen hzero => ?_⟩
      · dsimp only at hnew ⊢
        omega
      · exact hone.imp id (hsignals fun hx => by cases hx)
      · obtain ⟨hdone, hall⟩ := h.early hopen
        exact ⟨hdone, hquiet (fun _ => rfl) hall⟩
      · refine (h.notified hopen hzero).imp id (hkept fun hx => ?_)
        rw [hempty] at hx
        cases hx
  | @count k hbusy =>
      have hnew := hsum { p.hand i with counted := k + (p.hand i).counted }
      refine ⟨houtside _, ?_, fun hone => ?_, fun hopen => ?_, fun hopen hzero => ?_⟩
      · dsimp only at hnew ⊢
        omega
      · have hone' := hone.imp id (hsignals (x := { p.hand i with
          counted := k + (p.hand i).counted }) id)
        rcases hbusy with hheld | hopen
        · have hpos := h.pending_pos (i := i) (.inr (.inl hheld))
          have hzero := h.zero hone'
          omega
        · obtain ⟨hdone, hall⟩ := h.early hopen
          rcases hone' with htrue | ⟨j, hj⟩
          · rw [hdone] at htrue
            cases htrue
          · rw [hall j] at hj
            cases hj
      · obtain ⟨hdone, hall⟩ := h.early hopen
        exact ⟨hdone, hquiet id hall⟩
      · rcases hbusy with hheld | hopen'
        · have hpos := h.pending_pos (i := i) (.inr (.inl hheld))
          dsimp only at hzero
          omega
        · exact absurd (hopen'.symm.trans hopen) Bool.false_ne_true.symm
  | push hk =>
      subst hk
      have hnew := hsum { p.hand i with counted := 0 }
      refine ⟨houtside _, ?_, fun hone => h.zero ?_, fun hopen => ?_, fun hopen hzero => ?_⟩
      · dsimp only at hnew ⊢
        omega
      · exact hone.imp id (hsignals (x := { p.hand i with counted := 0 }) id)
      · obtain ⟨hdone, hall⟩ := h.early hopen
        exact ⟨hdone, hquiet id hall⟩
      · exact (h.notified hopen hzero).imp id (hkept id)
  | undo hk hopen =>
      subst hk
      have hnew := hsum { p.hand i with counted := 0 }
      obtain ⟨hdone, hall⟩ := h.early hopen
      refine ⟨houtside _, ?_, fun hone => ?_, fun _ => ⟨hdone, hquiet id hall⟩, fun hno => ?_⟩
      · dsimp only at hnew ⊢
        omega
      · rcases hone with htrue | ⟨j, hj⟩
        · exact absurd (htrue.symm.trans hdone) Bool.false_ne_true.symm
        · have hfalse := hquiet (x := { p.hand i with counted := 0 }) id hall j
          exact absurd (hj.symm.trans hfalse) Bool.false_ne_true.symm
      · exact absurd (hopen.symm.trans hno) Bool.false_ne_true.symm
  | @account n hheld hopen =>
      have hnew := hsum { held := n, signals := decide (p.pending = 1) }
      rw [hheld] at hnew
      have hpos := h.pending_pos (i := i) (.inr (.inl (by rw [hheld]; exact Nat.succ_pos n)))
      have hnone : ¬ (p.done = true ∨ ∃ j, (p.hand j).signals = true) := fun hone => by
        have hzero := h.zero hone
        omega
      refine ⟨houtside _, ?_, fun hone => ?_, fun hno => ?_, fun _ hzero => ?_⟩
      · dsimp only at hnew ⊢
        omega
      · rcases hone with hdone | ⟨j, hj⟩
        · exact absurd (.inl hdone) hnone
        · by_cases hji : j = i
          · dsimp only at hj ⊢
            rw [hji, Function.update_self] at hj
            have hone := of_decide_eq_true hj
            omega
          · dsimp only at hj
            rw [Function.update_of_ne hji] at hj
            exact absurd (.inr ⟨j, hj⟩) hnone
      · exact absurd (hno.symm.trans hopen) Bool.false_ne_true.symm
      · dsimp only at hzero
        refine .inr ⟨i, ?_⟩
        dsimp only
        rw [Function.update_self]
        exact decide_eq_true (by omega)
  | @signal n hsig =>
      have hnew := hsum { held := n }
      rw [hsig] at hnew
      have hzero : p.pending = 0 := h.zero (.inr ⟨i, by rw [hsig]⟩)
      refine ⟨houtside _, ?_, fun _ => hzero, fun hopen => ?_, fun _ _ => .inl rfl⟩
      · dsimp only at hnew ⊢
        omega
      · have hfalse := (h.early hopen).2 i
        rw [hsig] at hfalse
        cases hfalse
  | close hopen hne =>
      obtain ⟨hdone, hall⟩ := h.early hopen
      exact ⟨h.outside, h.sum, h.zero, fun hno => (by cases hno), fun _ hzero => absurd hzero hne⟩

/-- **With the counter at 0 nothing comes later.** -/
theorem Sound.stays_idle (h : Sound ps p) (hclosed : p.isOpen = false) (hzero : p.pending = 0)
    (hstep : Step p i q) : q.isOpen = false ∧ q.pending = 0 ∧ q.queued = 0 := by
  obtain ⟨hqueued, hhands⟩ := h.idle hzero
  obtain ⟨hheld, hcounted⟩ := hhands i
  have hopen (ho : p.isOpen = true) : False := Bool.false_ne_true (hclosed.symm.trans ho)
  cases hstep with
  | take hk =>
      refine ⟨hclosed, hzero, ?_⟩
      dsimp only
      rw [hqueued, Nat.zero_sub]
  | count hbusy =>
      rcases hbusy with hbusy | ho
      · rw [hheld] at hbusy
        exact absurd hbusy (Nat.lt_irrefl 0)
      · exact (hopen ho).elim
  | push hk =>
      refine ⟨hclosed, hzero, ?_⟩
      dsimp only
      rw [hqueued, ← hk, hcounted]
  | undo hk ho => exact (hopen ho).elim
  | account hone =>
      rw [hone] at hheld
      cases hheld
  | signal => exact ⟨hclosed, hzero, hqueued⟩
  | close ho => exact (hopen ho).elim

/-- **Done stays done.** -/
theorem Step.done (hstep : Step p i q) (hdone : p.done = true) : q.done = true := by
  cases hstep with
  | signal => rfl
  | _ => exact hdone

end WorkPool

end Aura.Lib
