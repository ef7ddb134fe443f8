import Mathlib.Algebra.BigOperators.Group.Finset.Basic
import Mathlib.Data.Multiset.Filter
import Mathlib.Data.Multiset.MapFold

/-!
# Heaps and holders of blocks

A `Heap` is the multiset of the blocks in use, each an address with a size; by construction no
address is null or used twice. The allocator is outside: `Heap.alloc` takes what it *offers*, and an
offer that is null or in use counts as a failure, so every behaviour of an allocator is one of
offers.

* `Heap.alloc_eq_some`, `Heap.free_blocks`, `Heap.freeAll_blocks`: what the operations do to the
  blocks.
* `sum_update_exchange`: where holders are a finite family, an exchange with one of them is an
  exchange with the family.
-/

namespace Aura.Lib

/-- The blocks in use: their addresses and sizes. -/
structure Heap (P : Type*) [Zero P] where
  blocks : Multiset (P × ℕ)
  nodup : (blocks.map Prod.fst).Nodup
  nonnull : 0 ∉ blocks.map Prod.fst

namespace Heap

variable {P : Type*} [Zero P]

/-- An address in use has one size. -/
theorem size_unique {h : Heap P} {b : P} {m n : ℕ} (hm : (b, m) ∈ h.blocks)
    (hn : (b, n) ∈ h.blocks) : m = n :=
  (Prod.mk.inj (Multiset.inj_on_of_nodup_map h.nodup _ hm _ hn rfl)).2

variable [DecidableEq P]

/-- No block is in use. -/
def empty : Heap P := ⟨0, Multiset.nodup_zero, Multiset.notMem_zero 0⟩

/-- An allocation of `size` bytes, with what the allocator offers. -/
def alloc (h : Heap P) (offer : Option P) (size : ℕ) : Option P × Heap P :=
  match offer with
  | none => (none, h)
  | some b =>
      if hb : b = 0 ∨ b ∈ h.blocks.map Prod.fst then (none, h)
      else (some b, {
        blocks := (b, size) ::ₘ h.blocks
        nodup := by
          rw [Multiset.map_cons, Multiset.nodup_cons]
          exact ⟨fun hmem => hb (.inr hmem), h.nodup⟩
        nonnull := by
          rw [Multiset.map_cons, Multiset.mem_cons]
          rintro (h₀ | hmem)
          · exact hb (.inl h₀.symm)
          · exact h.nonnull hmem })

/-- Return the block at an address. -/
def free (h : Heap P) (b : P) : Heap P where
  blocks := h.blocks.filter fun x => x.1 ≠ b
  nodup := Multiset.nodup_of_le (Multiset.map_le_map (Multiset.filter_le _ _)) h.nodup
  nonnull := fun hmem =>
    h.nonnull (Multiset.mem_of_le (Multiset.map_le_map (Multiset.filter_le _ _)) hmem)

/-- Return several blocks. -/
def freeAll (h : Heap P) (bs : List P) : Heap P := bs.foldl free h

theorem alloc_eq_some {h h' : Heap P} {offer : Option P} {size : ℕ} {b : P}
    (heq : h.alloc offer size = (some b, h')) : h'.blocks = (b, size) ::ₘ h.blocks := by
  unfold alloc at heq
  cases offer with
  | none => cases heq
  | some b' =>
      dsimp only at heq
      split at heq
      · cases heq
      · obtain ⟨hb, rfl⟩ := Prod.mk.inj heq
        cases hb
        rfl

theorem alloc_eq_none {h h' : Heap P} {offer : Option P} {size : ℕ}
    (heq : h.alloc offer size = (none, h')) : h' = h := by
  unfold alloc at heq
  cases offer with
  | none => exact (Prod.mk.inj heq).2.symm
  | some b =>
      dsimp only at heq
      split at heq
      · exact (Prod.mk.inj heq).2.symm
      · cases (Prod.mk.inj heq).1

/-- Where no address occurs twice, dropping an address drops one entry. -/
theorem filter_cons {P V : Type*} [DecidableEq P] {b : P} {v : V} {rest : Multiset (P × V)}
    (h : (((b, v) ::ₘ rest).map Prod.fst).Nodup) :
    ((b, v) ::ₘ rest).filter (fun x => x.1 ≠ b) = rest := by
  rw [Multiset.map_cons, Multiset.nodup_cons] at h
  rw [Multiset.filter_cons_of_neg _ (by simp), Multiset.filter_eq_self]
  intro x hx hb
  refine h.1 ?_
  change b ∈ _
  rw [← hb]
  exact Multiset.mem_map_of_mem Prod.fst hx

/-- Returning a block leaves the others. -/
theorem free_blocks {h : Heap P} {b : P} {size : ℕ} {rest : Multiset (P × ℕ)}
    (heq : h.blocks = (b, size) ::ₘ rest) : (h.free b).blocks = rest := by
  change h.blocks.filter _ = rest
  rw [heq]
  exact filter_cons (heq ▸ h.nodup)

/-- Returning blocks takes no new ones. -/
theorem freeAll_le (h : Heap P) (bs : List P) : (h.freeAll bs).blocks ≤ h.blocks := by
  induction bs generalizing h with
  | nil => exact le_refl _
  | cons b bs ih => exact (ih (h.free b)).trans (Multiset.filter_le _ _)

@[simp] theorem freeAll_nil (h : Heap P) : h.freeAll [] = h := rfl

@[simp] theorem freeAll_cons (h : Heap P) (b : P) (bs : List P) :
    h.freeAll (b :: bs) = (h.free b).freeAll bs := rfl

/-- Returning blocks of one size leaves the others. -/
theorem freeAll_blocks {h : Heap P} {bs : List P} {size : ℕ} {rest : Multiset (P × ℕ)}
    (heq : h.blocks = (bs : Multiset P).map (·, size) + rest) :
    (h.freeAll bs).blocks = rest := by
  induction bs generalizing h with
  | nil => simpa using heq
  | cons b bs ih =>
      rw [freeAll_cons]
      refine ih (@free_blocks _ _ _ _ b size _ ?_)
      rw [heq, ← Multiset.cons_coe, Multiset.map_cons, Multiset.cons_add]

end Heap

/-! ## Holders -/

/-- **An exchange with one holder is an exchange with the family**: what the holder gives and takes
is what all of them together give and take. -/
theorem sum_update_exchange {ι α M : Type*} [DecidableEq ι] [AddCommMonoid M] {s : Finset ι} {i : ι}
    (hi : i ∈ s) {f : ι → α} {a : α} (g : ι → α → M) {x y : M}
    (h : g i a + x = g i (f i) + y) :
    ∑ j ∈ s, g j (Function.update f i a j) + x = ∑ j ∈ s, g j (f j) + y := by
  have hrest : ∑ j ∈ s.erase i, g j (Function.update f i a j) = ∑ j ∈ s.erase i, g j (f j) := by
    refine Finset.sum_congr rfl ?_
    intro j hj
    rw [Function.update_of_ne (Finset.ne_of_mem_erase hj)]
  rw [← Finset.add_sum_erase _ _ hi, ← Finset.add_sum_erase s (fun j => g j (f j)) hi, hrest,
    Function.update_self, add_right_comm, h, add_right_comm]

end Aura.Lib
