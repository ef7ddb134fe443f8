import Mathlib.Data.Nat.Factorization.Basic
import Mathlib.Algebra.Order.Ring.Nat

/-!
# Alignment by masks

Clearing the bits of `a - 1` in a word rounds it down to a multiple of `a` when `a` is a power of
two. For other values the mask still clears the bits below the lowest one of `a`, and no more of
the number that is that bit alone.

* `maskDown_two_pow` — rounding down to a multiple of a power of two.
* `dvd_maskDown_iff` — for which `a` all numbers below a bound are rounded to multiples of it.
-/

namespace Aura.Lib

/-- The bits of `x` that are not in `a - 1`, in words of `w` bits. -/
def maskDown (w x a : ℕ) : ℕ := x &&& (2 ^ w - 1 - (a - 1))

variable {w x a m : ℕ}

theorem maskDown_le : maskDown w x a ≤ x := Nat.and_le_left

theorem testBit_maskDown (ha : 0 < a) (haw : a ≤ 2 ^ w) (hx : x < 2 ^ w) (i : ℕ) :
    (maskDown w x a).testBit i = (x.testBit i && !(a - 1).testBit i) := by
  have hlt : a - 1 < 2 ^ w := by omega
  unfold maskDown
  rw [Nat.sub_sub, Nat.add_comm 1, Nat.testBit_and, Nat.testBit_two_pow_sub_succ hlt]
  by_cases hi : i < w
  · rw [decide_eq_true hi, Bool.true_and]
  · have hxi : x < 2 ^ i := hx.trans_le (Nat.pow_le_pow_right Nat.two_pos (not_lt.mp hi))
    rw [Nat.testBit_lt_two_pow hxi, Bool.false_and, Bool.false_and]

/-- **A power of two** rounds down. -/
theorem maskDown_two_pow {k : ℕ} (hk : 2 ^ k ≤ 2 ^ w) (hx : x < 2 ^ w) :
    maskDown w x (2 ^ k) = x / 2 ^ k * 2 ^ k := by
  refine Nat.eq_of_testBit_eq fun i => ?_
  rw [testBit_maskDown (Nat.two_pow_pos k) hk hx, Nat.testBit_two_pow_sub_one,
    Nat.testBit_mul_two_pow]
  by_cases hi : i < k
  · rw [decide_eq_true hi, decide_eq_false (not_le.mpr hi), Bool.not_true, Bool.and_false,
      Bool.false_and]
  · rw [decide_eq_false hi, decide_eq_true (not_lt.mp hi), Bool.not_false, Bool.and_true,
      Bool.true_and, Nat.testBit_div_two_pow, Nat.sub_add_cancel (not_lt.mp hi)]

theorem two_pow_mul_sub_one {t q : ℕ} (hq : 0 < q) :
    2 ^ t * q - 1 = 2 ^ t * (q - 1) + (2 ^ t - 1) := by
  have hpos := Nat.two_pow_pos t
  have hle : 2 ^ t ≤ 2 ^ t * q := Nat.le_mul_of_pos_right _ hq
  rw [Nat.mul_sub, Nat.mul_one]
  omega

/-- Below a power of two that divides `a` all bits are cleared. -/
theorem maskDown_eq_zero {t : ℕ} (ha : 0 < a) (haw : a ≤ 2 ^ w) (ht : 2 ^ t ∣ a) (hx : x < 2 ^ t) :
    maskDown w x a = 0 := by
  obtain ⟨q, rfl⟩ := ht
  have htw : 2 ^ t ≤ 2 ^ w :=
    (Nat.le_mul_of_pos_right _ (Nat.pos_of_mul_pos_left ha)).trans haw
  refine Nat.eq_of_testBit_eq fun i => ?_
  rw [testBit_maskDown ha haw (hx.trans_le htw), Nat.zero_testBit]
  by_cases hi : i < t
  · have hlt : 2 ^ t - 1 < 2 ^ t := Nat.sub_one_lt (Nat.two_pow_pos t).ne'
    rw [two_pow_mul_sub_one (Nat.pos_of_mul_pos_left ha), Nat.testBit_two_pow_mul_add _ hlt,
      if_pos hi, Nat.testBit_two_pow_sub_one, decide_eq_true hi, Bool.not_true, Bool.and_false]
  · have hxi : x < 2 ^ i := hx.trans_le (Nat.pow_le_pow_right Nat.two_pos (not_lt.mp hi))
    rw [Nat.testBit_lt_two_pow hxi, Bool.false_and]

/-- The lowest bit of `a` itself is not cleared. -/
theorem maskDown_lowest {t q : ℕ} (hq : Odd q) (haw : 2 ^ t * q < 2 ^ w) :
    maskDown w (2 ^ t) (2 ^ t * q) = 2 ^ t := by
  have ha : 0 < 2 ^ t * q := Nat.mul_pos (Nat.two_pow_pos t) hq.pos
  have hx : 2 ^ t < 2 ^ w := (Nat.le_mul_of_pos_right _ hq.pos).trans_lt haw
  have hlt : 2 ^ t - 1 < 2 ^ t := Nat.sub_one_lt (Nat.two_pow_pos t).ne'
  refine Nat.eq_of_testBit_eq fun i => ?_
  rw [testBit_maskDown ha haw.le hx]
  by_cases hi : t = i
  · obtain rfl := hi
    have heven : (q - 1).testBit 0 = false := by
      obtain ⟨r, rfl⟩ := hq
      rw [Nat.testBit_zero]
      exact decide_eq_false (by omega)
    rw [two_pow_mul_sub_one hq.pos, Nat.testBit_two_pow_mul_add _ hlt, if_neg (lt_irrefl t),
      Nat.sub_self, heven, Bool.not_false, Bool.and_true]
  · rw [Nat.testBit_two_pow_of_ne hi, Bool.false_and]

/-- **When a mask aligns all numbers below a bound**: `a` is a power of two, or the bound is so
small that they all become zero. -/
theorem dvd_maskDown_iff (ha : 0 < a) (haw : a < 2 ^ w) (hm : m ≤ 2 ^ w) :
    (∀ x < m, a ∣ maskDown w x a) ↔ (∃ k, a = 2 ^ k) ∨ ∃ t, 2 ^ t ∣ a ∧ m ≤ 2 ^ t := by
  refine ⟨fun h => ?_, ?_⟩
  · obtain ⟨t, q, hq, rfl⟩ := Nat.exists_eq_two_pow_mul_odd ha.ne'
    by_cases hmt : m ≤ 2 ^ t
    · exact .inr ⟨t, Nat.dvd_mul_right _ _, hmt⟩
    · have hdvd := h (2 ^ t) (not_le.mp hmt)
      rw [maskDown_lowest hq haw] at hdvd
      have hone : q = 1 := by
        have hle := Nat.le_of_dvd (Nat.two_pow_pos t) hdvd
        have hpos := Nat.two_pow_pos t
        have hq0 : 0 < q := hq.pos
        by_contra hne
        have htwo : 2 ^ t * 2 ≤ 2 ^ t * q := Nat.mul_le_mul_left _ (by omega)
        omega
      exact .inl ⟨t, by rw [hone, Nat.mul_one]⟩
  · rintro (⟨k, rfl⟩ | ⟨t, ht, hmt⟩) x hx
    · rw [maskDown_two_pow haw.le (hx.trans_le hm)]
      exact Nat.dvd_mul_left _ _
    · rw [maskDown_eq_zero ha haw.le ht (hx.trans_le hmt)]
      exact Nat.dvd_zero _

end Aura.Lib
