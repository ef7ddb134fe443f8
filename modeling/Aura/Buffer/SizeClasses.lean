import Mathlib.Order.Bounds.Basic
import Aura.Buffer.PoolAccounts

/-!
# Size classes

`size_to_class` and `class_to_size` are the two halves of a Galois connection on the sizes that a
pool hands out.

* `sizeToClass_le_iff` — a size fits a class exactly when its own class is no higher.
* **`size_classes_cover`** — `size_to_class` is the smallest class that is large enough, it is
  monotone, and it takes the size of a class back to the class.
-/

namespace Aura

/-- No class below that of a size is large enough for it. -/
theorem sizeToClass_le {size : ℕ} {c : SizeClass} (h : size ≤ classToSize c) :
    sizeToClass size ≤ c := by
  unfold sizeToClass
  split_ifs with hsmall
  · exact Fin.zero_le c
  · have hpos : size - 1 ≠ 0 := by omega
    have hlt : size - 1 < 2 ^ (12 + c.val) := by
      rw [Nat.pow_add]
      change size ≤ 2 ^ 12 * 2 ^ c.val at h
      omega
    have hlog : Nat.log2 (size - 1) < 12 + c.val := (Nat.log2_lt hpos).2 hlt
    have hc := c.isLt
    dsimp only
    rw [dif_pos (by omega)]
    exact Fin.mk_le_of_le_val (by omega)

/-- The size of a class grows with the class. -/
theorem classToSize_mono {c d : ℕ} (h : c ≤ d) : classToSize c ≤ classToSize d :=
  Nat.mul_le_mul_left _ (Nat.pow_le_pow_right (by decide) h)

/-- **A size fits a class exactly when its own class is no higher.** -/
theorem sizeToClass_le_iff {size : ℕ} (h : size ≤ BUFFER_POOL_MAX_SIZE) {c : SizeClass} :
    sizeToClass size ≤ c ↔ size ≤ classToSize c := by
  constructor
  · intro hle
    exact (le_classToSize h).trans (classToSize_mono hle)
  · exact sizeToClass_le

/-- **Size classes form a tight cover.** The class of a size is the smallest one that is large
enough, a larger size has no smaller class, the size of a class is of that class, and so the class
that a free recovers from the size of the block is the class the block was allocated in. -/
theorem size_classes_cover :
    (∀ size, 1 ≤ size → size ≤ BUFFER_POOL_MAX_SIZE →
      IsLeast {c : SizeClass | size ≤ classToSize c} (sizeToClass size)) ∧
    (∀ size size', 1 ≤ size → size ≤ size' → size' ≤ BUFFER_POOL_MAX_SIZE →
      sizeToClass size ≤ sizeToClass size') ∧
    (∀ c : SizeClass, sizeToClass (classToSize c) = c) ∧
    ∀ size, 1 ≤ size → size ≤ BUFFER_POOL_MAX_SIZE →
      size ≤ classToSize (sizeToClass size) ∧
        sizeToClass (classToSize (sizeToClass size)) = sizeToClass size := by
  refine ⟨fun size _ h => ⟨le_classToSize h, fun c hc => sizeToClass_le hc⟩, ?_,
    sizeToClass_classToSize, fun size _ h => ⟨le_classToSize h, sizeToClass_classToSize _⟩⟩
  intro size size' _ hle h
  rw [sizeToClass_le_iff (hle.trans h)]
  exact hle.trans (le_classToSize h)

/-- One byte more than a power of two is of the next class. -/
theorem size_classes_cover_boundary :
    IsLeast {c : SizeClass | 8193 ≤ classToSize c} (sizeToClass 8193) ∧
      sizeToClass 8192 ≤ sizeToClass 8193 :=
  ⟨size_classes_cover.1 8193 (by decide) (by decide),
    size_classes_cover.2.1 8192 8193 (by decide) (by decide) (by decide)⟩

end Aura
