import Mathlib.Algebra.Order.Ring.Nat

/-!
# Blocks in equal parts

`total` is divided into `n` parts of one size, a multiple of the block size `k` (`partSize`): the
`i`-th part goes from `partSize total n k * i` to `partSize total n k * (i + 1)`. What is left over
is less than what another block for each part would take.

`BlockIn k first last pos` says that the block at `pos` is aligned and within `[first, last)`, and
`sweep` is the cursor that takes block after block there and starts again before the block that
would not fit.

* `partSize_mul_le`, `le_partSize` — the parts lie within the total, and none is empty;
* `BlockIn.sweep` — the cursor stays in its part;
* `BlockIn.apart` — blocks in different parts have no byte in common.
-/

namespace Aura.Lib

variable {total n k i j : ℕ}

/-- The size of one of `n` parts of `total`, in blocks of `k`. -/
def partSize (total n k : ℕ) : ℕ := total / n / k * k

theorem dvd_partSize : k ∣ partSize total n k := Dvd.intro_left _ rfl

/-- The parts do not go beyond the total. -/
theorem partSize_mul_le (total n k : ℕ) : partSize total n k * n ≤ total :=
  calc partSize total n k * n ≤ total / n * n := Nat.mul_le_mul_right n (Nat.div_mul_le_self _ k)
    _ ≤ total := Nat.div_mul_le_self total n

/-- When every part has room for a block, so has the size. -/
theorem le_partSize (hk : 0 < k) (hn : 0 < n) (h : n * k ≤ total) : k ≤ partSize total n k := by
  have hroom : k ≤ total / n := (Nat.le_div_iff_mul_le hn).2 (by rwa [Nat.mul_comm])
  have hblock : 1 ≤ total / n / k := (Nat.le_div_iff_mul_le hk).2 (by rwa [Nat.one_mul])
  calc k = 1 * k := (Nat.one_mul k).symm
    _ ≤ total / n / k * k := Nat.mul_le_mul_right k hblock

/-- A part ends within the total. -/
theorem part_end_le (hi : i < n) : partSize total n k * i + partSize total n k ≤ total := by
  rw [← Nat.mul_succ]
  exact (Nat.mul_le_mul_left _ hi).trans (partSize_mul_le total n k)

/-- An aligned block within `[first, last)`. -/
structure BlockIn (k first last pos : ℕ) : Prop where
  dvd : k ∣ pos
  le : first ≤ pos
  fits : pos + k ≤ last

/-- The block after `pos`, or the first one again when two more do not fit. -/
def sweep (k first last pos : ℕ) : ℕ := if pos + k + k > last then first else pos + k

namespace BlockIn

variable {first last pos first' last' pos' k' : ℕ}

/-- **The cursor stays where it sweeps.** -/
theorem sweep (h₀ : BlockIn k first last first) (h : BlockIn k first last pos) :
    BlockIn k first last (sweep k first last pos) := by
  rw [Lib.sweep]
  split_ifs with hend
  · exact h₀
  · exact ⟨(Nat.dvd_add_right h.dvd).2 (dvd_refl k), h.le.trans (Nat.le_add_right _ _),
      Nat.le_of_not_lt hend⟩

/-- Blocks of parts that come one after the other are apart. -/
theorem apart (h : BlockIn k first last pos) (h' : BlockIn k' first' last' pos')
    (hparts : last ≤ first') : pos + k ≤ pos' :=
  h.fits.trans (hparts.trans h'.le)

/-- The first block of a part. -/
theorem part_first (hk : 0 < k) (hn : 0 < n) (h : n * k ≤ total) (i : ℕ) :
    BlockIn k (partSize total n k * i) (partSize total n k * i + partSize total n k)
      (partSize total n k * i) :=
  ⟨Dvd.dvd.mul_right dvd_partSize i, le_refl _, Nat.add_le_add_left (le_partSize hk hn h) _⟩

end BlockIn

/-- A later part starts where an earlier one has ended. -/
theorem part_end_le_part (hij : i < j) :
    partSize total n k * i + partSize total n k ≤ partSize total n k * j := by
  rw [← Nat.mul_succ]
  exact Nat.mul_le_mul_left _ hij

end Aura.Lib
