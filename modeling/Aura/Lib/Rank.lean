import Mathlib.Data.Multiset.Sort
import Mathlib.Data.Multiset.Count
import Mathlib.Algebra.BigOperators.Group.Finset.Basic

/-!
# Ranks by counting

A histogram knows how many values fall into each of finitely many ordered classes. Adding up its
counts from the highest class on, or from the lowest, finds the class of the value of a given rank.

* `kthLargest`, `kthSmallest` — the value of rank `k`, counted from the largest or the smallest.
* `le_countP_iff`, `le_countP_iff_of_lower` — at least `k` values lie in an upper or a lower set
  exactly when the one of rank `k` does.
* `scanDown_eq`, `find?_range_eq` — so the first class at which the count reaches `k` is its class.
-/

namespace Aura.Lib

variable {α : Type*} [LinearOrder α] {m : Multiset α} {k : ℕ} {x : α}

/-- The `k`-th largest value of a multiset, for `k` from 1. -/
def kthLargest (m : Multiset α) (k : ℕ) : Option α := (m.sort (· ≥ ·))[k - 1]?

/-- There is one for every rank up to the number of values. -/
theorem exists_kthLargest (hk : 1 ≤ k) (hm : k ≤ m.card) : ∃ x, kthLargest m k = some x := by
  have hlt : k - 1 < (m.sort (· ≥ ·)).length := by
    rw [Multiset.length_sort]
    omega
  exact ⟨_, List.getElem?_eq_getElem hlt⟩

/-- The `k`-th smallest value of a multiset, for `k` from 1. -/
def kthSmallest (m : Multiset α) (k : ℕ) : Option α := (m.sort (· ≤ ·))[k - 1]?

theorem exists_kthSmallest (hk : 1 ≤ k) (hm : k ≤ m.card) : ∃ x, kthSmallest m k = some x := by
  have hlt : k - 1 < (m.sort (· ≤ ·)).length := by
    rw [Multiset.length_sort]
    omega
  exact ⟨_, List.getElem?_eq_getElem hlt⟩

theorem mem_of_kthLargest (hx : kthLargest m k = some x) : x ∈ m :=
  (Multiset.mem_sort (· ≥ ·)).mp (List.mem_of_getElem? hx)

omit [LinearOrder α] in
/-- In a list that is in order, the elements of a set that is closed downwards come first. -/
theorem le_countP_iff_of_sorted {r : α → α → Prop} {l : List α} (hl : l.Pairwise r) {p : α → Bool}
    (hp : ∀ x ∈ l, ∀ y ∈ l, r x y → p y = true → p x = true) {i : ℕ} (hx : l[i]? = some x) :
    i + 1 ≤ l.countP p ↔ p x = true := by
  induction l generalizing i with
  | nil => cases hx
  | cons a l ih =>
      rw [List.pairwise_cons] at hl
      cases hpa : p a with
      | true =>
          rw [List.countP_cons_of_pos hpa]
          cases i with
          | zero =>
              obtain rfl := Option.some.inj hx
              rw [hpa]
              exact ⟨fun _ => rfl, fun _ => Nat.succ_le_succ (Nat.zero_le _)⟩
          | succ i =>
              have hp' : ∀ x ∈ l, ∀ y ∈ l, r x y → p y = true → p x = true := fun x hx y hy =>
                hp x (List.mem_cons_of_mem a hx) y (List.mem_cons_of_mem a hy)
              rw [Nat.succ_le_succ_iff, ih hl.2 hp' hx]
      | false =>
          have hnone (b : α) (hb : b ∈ a :: l) : p b = false := by
            rcases List.mem_cons.mp hb with rfl | hmem
            · exact hpa
            · refine Bool.eq_false_of_not_eq_true fun hpb => ?_
              rw [hp a List.mem_cons_self b hb (hl.1 b hmem) hpb] at hpa
              cases hpa
          have hzero : (a :: l).countP p = 0 :=
            List.countP_eq_zero.mpr fun b hb => by rw [hnone b hb]; exact Bool.false_ne_true
          rw [hzero, hnone x (List.mem_of_getElem? hx)]
          exact ⟨fun h => absurd h (Nat.not_succ_le_zero i), fun h => absurd h Bool.false_ne_true⟩

/-- **At least `k` values lie in an upper set** exactly when the `k`-th largest does. -/
theorem le_countP_iff {p : α → Prop} [DecidablePred p]
    (hp : ∀ x ∈ m, ∀ y ∈ m, x ≤ y → p x → p y) (hk : 1 ≤ k) (hx : kthLargest m k = some x) :
    k ≤ m.countP p ↔ p x := by
  have hcount : m.countP p = (m.sort (· ≥ ·)).countP fun x => decide (p x) := by
    rw [← Multiset.coe_countP, Multiset.sort_eq]
  have hmem {y : α} (hy : y ∈ m.sort (· ≥ ·)) : y ∈ m := (Multiset.mem_sort (· ≥ ·)).mp hy
  have hsorted := le_countP_iff_of_sorted (p := fun x => decide (p x))
    (Multiset.pairwise_sort m (· ≥ ·)) (fun x hx y hy hxy h =>
      decide_eq_true (hp y (hmem hy) x (hmem hx) hxy (of_decide_eq_true h))) hx
  rw [hcount, show k = k - 1 + 1 by omega, hsorted, decide_eq_true_iff]

/-- **At least `k` values lie in a lower set** exactly when the `k`-th smallest does. -/
theorem le_countP_iff_of_lower {p : α → Prop} [DecidablePred p]
    (hp : ∀ x ∈ m, ∀ y ∈ m, x ≤ y → p y → p x) (hk : 1 ≤ k) (hx : kthSmallest m k = some x) :
    k ≤ m.countP p ↔ p x := by
  have hcount : m.countP p = (m.sort (· ≤ ·)).countP fun x => decide (p x) := by
    rw [← Multiset.coe_countP, Multiset.sort_eq]
  have hmem {y : α} (hy : y ∈ m.sort (· ≤ ·)) : y ∈ m := (Multiset.mem_sort (· ≤ ·)).mp hy
  have hsorted := le_countP_iff_of_sorted (p := fun x => decide (p x))
    (Multiset.pairwise_sort m (· ≤ ·)) (fun x hx y hy hxy h =>
      decide_eq_true (hp x (hmem hx) y (hmem hy) hxy (of_decide_eq_true h))) hx
  rw [hcount, show k = k - 1 + 1 by omega, hsorted, decide_eq_true_iff]

/-- A higher rank has a smaller value. -/
theorem kthLargest_antitone {l : ℕ} {y : α} (hkl : k ≤ l) (hk : 1 ≤ k)
    (hx : kthLargest m k = some x)
    (hy : kthLargest m l = some y) : y ≤ x := by
  have hup (a : α) (_ : a ∈ m) (b : α) (_ : b ∈ m) (hab : a ≤ b) (h : y ≤ a) : y ≤ b := h.trans hab
  have hl := (le_countP_iff (p := fun a => y ≤ a) hup (hk.trans hkl) hy).mpr le_rfl
  exact (le_countP_iff hup hk hx).mp (hkl.trans hl)

/-- A higher rank from below has a greater value. -/
theorem kthSmallest_monotone {l : ℕ} {y : α} (hkl : k ≤ l) (hk : 1 ≤ k)
    (hx : kthSmallest m k = some x) (hy : kthSmallest m l = some y) : x ≤ y := by
  have hdown (a : α) (_ : a ∈ m) (b : α) (_ : b ∈ m) (hab : a ≤ b) (h : b ≤ y) : a ≤ y :=
    hab.trans h
  have hl := (le_countP_iff_of_lower (p := fun a => a ≤ y) hdown (hk.trans hkl) hy).mpr le_rfl
  exact (le_countP_iff_of_lower hdown hk hx).mp (hkl.trans hl)

/-! ## Classes -/

omit [LinearOrder α] in
theorem countP_replicate (n : ℕ) (x : α) (p : α → Prop) [DecidablePred p] :
    (Multiset.replicate n x).countP p = if p x then n else 0 := by
  induction n with
  | zero =>
      rw [Multiset.replicate_zero, Multiset.countP_zero]
      split_ifs <;> rfl
  | succ n ih =>
      rw [Multiset.replicate_succ, Multiset.countP_cons, ih]
      split_ifs <;> rfl

omit [LinearOrder α] in
/-- Counting a multiset that is given by the number of values in each class. -/
theorem countP_sum_replicate (b : ℕ → ℕ) (v : ℕ → α) (p : α → Prop) [DecidablePred p] (n : ℕ) :
    (∑ i ∈ Finset.range n, Multiset.replicate (b i) (v i)).countP p =
      ∑ i ∈ Finset.range n, if p (v i) then b i else 0 := by
  induction n with
  | zero => rfl
  | succ n ih =>
      rw [Finset.sum_range_succ, Finset.sum_range_succ, Multiset.countP_add, ih, countP_replicate]

omit [LinearOrder α] in
/-- The values of one class and those below. -/
theorem countP_lt_succ (m : Multiset α) (cls : α → ℕ) (n : ℕ) :
    m.countP (fun x => cls x < n + 1) =
      m.countP (fun x => cls x < n) + m.countP fun x => cls x = n := by
  induction m using Multiset.induction with
  | empty => rfl
  | cons a m ih =>
      rw [Multiset.countP_cons, Multiset.countP_cons, Multiset.countP_cons, ih]
      split_ifs <;> omega

omit [LinearOrder α] in
/-- The values below a class, class by class. -/
theorem countP_lt_eq_sum (m : Multiset α) (cls : α → ℕ) (n : ℕ) :
    m.countP (fun x => cls x < n) = ∑ i ∈ Finset.range n, m.countP fun x => cls x = i := by
  induction n with
  | zero => exact Multiset.countP_eq_zero.mpr fun x _ => Nat.not_lt_zero _
  | succ n ih =>
      rw [Finset.sum_range_succ, ← ih, countP_lt_succ]

/-! ## Scans -/

/-- The scan over the classes `n - 1`, …, `0` with the counts `b`, and `count` values above them:
the first class at which the count reaches the target. -/
def scanDown (b : ℕ → ℕ) (target : ℕ) : ℕ → ℕ → Option ℕ
  | 0, _ => none
  | n + 1, count => if target ≤ count + b n then some n else scanDown b target n (count + b n)

omit [LinearOrder α] in
/-- The values of one class and those above. -/
theorem countP_succ (m : Multiset α) (cls : α → ℕ) (n : ℕ) :
    m.countP (fun x => n ≤ cls x) =
      m.countP (fun x => n + 1 ≤ cls x) + m.countP fun x => cls x = n := by
  induction m using Multiset.induction with
  | empty => rfl
  | cons a m ih =>
      rw [Multiset.countP_cons, Multiset.countP_cons, Multiset.countP_cons, ih]
      split_ifs <;> omega

/-- **The scan finds the class** of the value whose rank is the target. -/
theorem scanDown_eq {cls : α → ℕ} (hcls : ∀ x ∈ m, ∀ y ∈ m, x ≤ y → cls x ≤ cls y)
    {b : ℕ → ℕ} {n : ℕ}
    (hb : ∀ i < n, b i = m.countP fun x => cls x = i) (hk : 1 ≤ k) (hx : kthLargest m k = some x)
    (hn : cls x < n) : scanDown b k n (m.countP fun x => n ≤ cls x) = some (cls x) := by
  induction n with
  | zero => exact absurd hn (Nat.not_lt_zero _)
  | succ n ih =>
      have hup (x : α) (hx : x ∈ m) (y : α) (hy : y ∈ m) (hxy : x ≤ y) (h : n ≤ cls x) :
          n ≤ cls y := h.trans (hcls x hx y hy hxy)
      have hrank := le_countP_iff hup hk hx
      unfold scanDown
      rw [hb n (Nat.lt_succ_self n), ← countP_succ]
      by_cases hle : n ≤ cls x
      · rw [if_pos (hrank.mpr hle), Nat.le_antisymm (Nat.lt_succ_iff.mp hn) hle]
      · rw [if_neg fun hk' => hle (hrank.mp hk')]
        exact ih (fun i hi => hb i (Nat.lt_succ_of_lt hi)) (not_le.mp hle)

/-- **The scan from below finds the class** of the value whose rank is the target. -/
theorem find?_range_eq {cls : α → ℕ} (hcls : ∀ x ∈ m, ∀ y ∈ m, x ≤ y → cls x ≤ cls y) (n : ℕ)
    (hk : 1 ≤ k) (hx : kthSmallest m k = some x) :
    ((List.range n).find? fun i => k ≤ m.countP fun y => cls y ≤ i) =
      if cls x < n then some (cls x) else none := by
  have hrank (i : ℕ) : k ≤ m.countP (fun y => cls y ≤ i) ↔ cls x ≤ i :=
    le_countP_iff_of_lower (fun a ha b hb hab h => (hcls a ha b hb hab).trans h) hk hx
  split_ifs with hn
  · rw [List.find?_range_eq_some]
    refine ⟨decide_eq_true ((hrank _).mpr le_rfl), List.mem_range.mpr hn, fun j hj => ?_⟩
    rw [decide_eq_false fun h => absurd ((hrank j).mp h) (not_le.mpr hj)]
    rfl
  · rw [List.find?_range_eq_none]
    intro i hi
    rw [decide_eq_false fun h => hn (((hrank i).mp h).trans_lt hi)]
    rfl

end Aura.Lib
