import Mathlib.Data.List.Nodup
import Mathlib.Data.Int.Cast.Lemmas
import Mathlib.Logic.Function.Basic

/-!
# Lists threaded through an array

A free list kept inside an array: every free slot holds the index of the next one, and -1 ends the
list. `Linked next head l` says that the links from `head` on spell the list `l`; such an `l` is
unique, so the property carries all there is to say about the chain.

* `Linked.pop`, `Linked.push`: taking and putting a slot at the head.
* `Linked.range`: consecutive slots linked one to the next.
* `Linked.suffix`: the links from inside a chain on.
-/

namespace Aura.Lib

variable {next next' : ℕ → ℤ} {head : ℤ} {i : ℕ} {l : List ℕ}

/-- The links `next` lead from `head` through the slots of `l` to the end mark. -/
def Linked (next : ℕ → ℤ) : ℤ → List ℕ → Prop
  | head, [] => head = -1
  | head, i :: l => head = i ∧ Linked next (next i) l

namespace Linked

/-- Only the links of the slots on the list matter. -/
theorem congr (h : Linked next head l) (heq : ∀ i ∈ l, next' i = next i) :
    Linked next' head l := by
  induction l generalizing head with
  | nil => exact h
  | cons i l ih =>
      obtain ⟨hhead, htail⟩ := h
      refine ⟨hhead, ?_⟩
      rw [heq i List.mem_cons_self]
      exact ih htail fun j hj => heq j (List.mem_cons_of_mem i hj)

/-- A change to a slot off the list. -/
theorem update (h : Linked next head l) (hi : i ∉ l) (n : ℤ) :
    Linked (Function.update next i n) head l := by
  refine h.congr fun j hj => Function.update_of_ne ?_ _ _
  rintro rfl
  exact hi hj

/-- The slot at the head is taken and its link overwritten. -/
theorem pop (h : Linked next i l) (hnodup : l.Nodup) (n : ℤ) :
    ∃ l', l = i :: l' ∧ Linked (Function.update next i n) (next i) l' := by
  cases l with
  | nil => exact absurd h (by unfold Linked; omega)
  | cons j l' =>
      obtain ⟨hhead, htail⟩ := h
      obtain rfl : i = j := by exact_mod_cast hhead
      exact ⟨l', rfl, htail.update (List.nodup_cons.mp hnodup).1 n⟩

/-- A slot off the list is put at the head. -/
theorem push (h : Linked next head l) (hi : i ∉ l) :
    Linked (Function.update next i head) i (i :: l) := by
  refine ⟨rfl, ?_⟩
  rw [Function.update_self]
  exact h.update hi head

/-- Only an empty list starts with a negative index. -/
theorem eq_nil (h : Linked next head l) (hneg : head < 0) : l = [] := by
  cases l with
  | nil => rfl
  | cons i l =>
      obtain ⟨hhead, -⟩ := h
      omega

/-- Slots linked one to the next, the last one to the end mark. -/
theorem range (first n : ℕ) (hnext : ∀ i, first ≤ i → i < first + n → next i = i + 1)
    (hlast : next (first + n) = -1) :
    Linked next first (List.range' first (n + 1)) := by
  induction n generalizing first with
  | zero => exact ⟨rfl, hlast⟩
  | succ n ih =>
      rw [List.range'_succ]
      refine ⟨rfl, ?_⟩
      rw [hnext first (le_refl _) (by omega)]
      have htail := ih (first + 1) (fun i hi hlt => hnext i (by omega) (by omega))
        (by rw [← hlast]; congr 1; omega)
      exact_mod_cast htail

/-- Where a chain passes through consecutive slots, it also leads on from the last of them. -/
theorem suffix {f n : ℕ} (h : Linked next f l)
    (hnext : ∀ i, f ≤ i → i < f + n → next i = i + 1) :
    ∃ l', Linked next (f + n : ℕ) l' := by
  induction n generalizing f l with
  | zero => exact ⟨l, h⟩
  | succ n ih =>
      cases l with
      | nil => exact absurd h (by unfold Linked; omega)
      | cons i l =>
          obtain ⟨hhead, htail⟩ := h
          obtain rfl : f = i := by exact_mod_cast hhead
          rw [hnext f (le_refl _) (by omega)] at htail
          have htail' : Linked next (f + 1 : ℕ) l := by exact_mod_cast htail
          obtain ⟨l', hl'⟩ := ih htail' fun i hi hlt => hnext i (by omega) (by omega)
          refine ⟨l', ?_⟩
          rwa [show f + (n + 1) = f + 1 + n by omega]

end Linked

end Aura.Lib
