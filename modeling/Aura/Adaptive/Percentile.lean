import Aura.Adaptive.Histogram
import Aura.Lib.Rank
import Mathlib.Algebra.Order.Floor.Semifield
import Mathlib.Data.Rat.Floor
import Mathlib.Tactic.Linarith

/-!
# The 99th percentile

`adaptive_hist_p99` scans a histogram from above, and finds the bucket of the sample of a given rank
(`Aura.Lib.Rank`).

* `Histogram.counts_ofMultiset` — the histogram of a multiset of latencies counts its classes.
* `Histogram.p99_rank` — its p99 is the midpoint of the bucket of the sample of the rank.
-/

namespace Aura

open Lib

/-! ## Buckets -/

/-- A search in a list of four whose last element fits. -/
theorem find_four {α : Type} {p : α → Bool} {a b c d : α} (hd : p d = true) :
    [a, b, c, d].find? p =
      some (if p a = true then a else if p b = true then b else if p c = true then c else d) := by
  split_ifs with ha hb hc
  · exact List.find?_cons_of_pos ha
  · rw [List.find?_cons_of_neg ha, List.find?_cons_of_pos hb]
  · rw [List.find?_cons_of_neg ha, List.find?_cons_of_neg hb, List.find?_cons_of_pos hc]
  · rw [List.find?_cons_of_neg ha, List.find?_cons_of_neg hb, List.find?_cons_of_neg hc,
      List.find?_cons_of_pos hd]

/-- The tier of a value, by the field that is compared. -/
theorem tier_of {x : ℤ} {f : LatencyTier → ℤ} (h : f ⟨0, 10, 100, 0⟩ ≤ x) :
    LATENCY_TIERS.reverse.find? (fun t => decide (f t ≤ x)) =
      some (if f ⟨20000, 1000, 80, 240⟩ ≤ x then ⟨20000, 1000, 80, 240⟩
        else if f ⟨5000, 250, 60, 180⟩ ≤ x then ⟨5000, 250, 60, 180⟩
        else if f ⟨1000, 50, 80, 100⟩ ≤ x then ⟨1000, 50, 80, 100⟩ else ⟨0, 10, 100, 0⟩) := by
  have hlist : LATENCY_TIERS.reverse = [⟨20000, 1000, 80, 240⟩, ⟨5000, 250, 60, 180⟩,
    ⟨1000, 50, 80, 100⟩, ⟨0, 10, 100, 0⟩] := rfl
  rw [hlist, find_four (p := fun t => decide (f t ≤ x)) (decide_eq_true h)]
  simp only [decide_eq_true_eq]

/-- The bucket of a latency that a 32-bit integer holds. -/
theorem latencyUsToBucket_eq {x : ℤ} (hx : x < 2 ^ 31) : latencyUsToBucket x =
    if 100000 ≤ x then -1
    else if 20000 ≤ x then 240 + (x - 20000) / 1000
    else if 5000 ≤ x then 180 + (x - 5000) / 250
    else if 1000 ≤ x then 100 + (x - 1000) / 50
    else if 0 ≤ x then x / 10
    else 0 := by
  obtain ⟨us, hus⟩ : ∃ us, us = if x < 0 then 0 else x := ⟨_, rfl⟩
  have hnonneg : 0 ≤ us := by split_ifs at hus <;> omega
  have hlt : us < 2 ^ 31 := by split_ifs at hus <;> omega
  unfold latencyUsToBucket
  dsimp only
  rw [← hus, tier_of (f := LatencyTier.startUs) hnonneg]
  dsimp only
  have hoffset {a w : ℤ} (ha : 0 ≤ a) (hle : a ≤ us) (hw : 0 < w) :
      Int.tdiv (toInt32 (us - a)) w = (us - a) / w := by
    rw [toInt32_of_lt (by omega) (by omega)]
    exact Int.tdiv_eq_ediv_of_nonneg (by omega)
  by_cases h20 : 20000 ≤ us
  · rw [if_pos h20]
    dsimp only
    rw [hoffset (by decide) h20 (by decide)]
    split_ifs at hus ⊢ <;> omega
  · by_cases h5 : 5000 ≤ us
    · rw [if_neg h20, if_pos h5]
      dsimp only
      rw [hoffset (by decide) h5 (by decide)]
      split_ifs at hus ⊢ <;> omega
    · by_cases h1 : 1000 ≤ us
      · rw [if_neg h20, if_neg h5, if_pos h1]
        dsimp only
        rw [hoffset (by decide) h1 (by decide)]
        split_ifs at hus ⊢ <;> omega
      · rw [if_neg h20, if_neg h5, if_neg h1]
        dsimp only
        rw [hoffset (le_refl 0) hnonneg (by decide), Int.sub_zero]
        split_ifs at hus ⊢ <;> omega

/-- The class of a latency: its bucket, and one more class for the overflow. -/
def latencyClass (x : ℤ) : ℕ :=
  if latencyUsToBucket x < 0 then LATENCY_BUCKET_COUNT else (latencyUsToBucket x).toNat

/-- The midpoint of a bucket. -/
theorem bucketToMidpointUs_eq {b : ℤ} (hb : 0 ≤ b) : bucketToMidpointUs b =
    if 240 ≤ b then 20000 + ((b - 240 : ℤ) + 1 / 2 : ℚ) * 1000
    else if 180 ≤ b then 5000 + ((b - 180 : ℤ) + 1 / 2 : ℚ) * 250
    else if 100 ≤ b then 1000 + ((b - 100 : ℤ) + 1 / 2 : ℚ) * 50
    else 0 + ((b - 0 : ℤ) + 1 / 2 : ℚ) * 10 := by
  unfold bucketToMidpointUs
  rw [tier_of (f := LatencyTier.baseBucket) hb]
  dsimp only
  split_ifs <;> norm_num

theorem max_tracked_eq : ((LATENCY_TIERED_MAX_US : ℤ) : ℚ) = 100000 := by
  norm_num [LATENCY_TIERED_MAX_US]

/-- Midpoints are positive and below the maximum that is tracked. -/
theorem midpoint_bounds {b : ℕ} (hb : b < LATENCY_BUCKET_COUNT) :
    0 < bucketToMidpointUs b ∧ bucketToMidpointUs b < LATENCY_TIERED_MAX_US := by
  have hmax : (b : ℚ) ≤ 319 := by exact_mod_cast Nat.le_of_lt_succ hb
  have hmin : (0 : ℚ) ≤ b := by exact_mod_cast Nat.zero_le b
  rw [bucketToMidpointUs_eq (Int.natCast_nonneg b)]
  push_cast
  split_ifs with h240 h180 h100
  · have h : (240 : ℚ) ≤ b := by exact_mod_cast h240
    constructor <;> linarith
  · have h : (180 : ℚ) ≤ b := by exact_mod_cast h180
    have h' : (b : ℚ) < 240 := by exact_mod_cast not_le.mp h240
    constructor <;> linarith
  · have h : (100 : ℚ) ≤ b := by exact_mod_cast h100
    have h' : (b : ℚ) < 180 := by exact_mod_cast not_le.mp h180
    constructor <;> linarith
  · have h' : (b : ℚ) < 100 := by exact_mod_cast not_le.mp h100
    constructor <;> linarith

/-- A higher bucket has a higher midpoint. -/
theorem midpoint_mono {b b' : ℕ} (h : b ≤ b') : bucketToMidpointUs b ≤ bucketToMidpointUs b' := by
  have hmono : Monotone fun b : ℕ => bucketToMidpointUs b := by
    refine monotone_nat_of_le_succ fun n => ?_
    have hnext : ((n + 1 : ℕ) : ℤ) = n + 1 := Nat.cast_succ n
    rw [bucketToMidpointUs_eq (Int.natCast_nonneg n),
      bucketToMidpointUs_eq (Int.natCast_nonneg (n + 1)), hnext]
    push_cast
    -- between two tiers the numbers are compared, within one the lines
    by_cases h240 : 240 ≤ (n : ℤ)
    · rw [if_pos h240, if_pos (show 240 ≤ (n : ℤ) + 1 by omega)]
      linarith
    · rw [if_neg h240]
      by_cases h180 : 180 ≤ (n : ℤ)
      · rw [if_pos h180]
        by_cases h239 : n = 239
        · subst h239
          norm_num
        · rw [if_neg (show ¬ 240 ≤ (n : ℤ) + 1 by omega), if_pos (show 180 ≤ (n : ℤ) + 1 by omega)]
          linarith
      · rw [if_neg h180, if_neg (show ¬ 240 ≤ (n : ℤ) + 1 by omega)]
        by_cases h100 : 100 ≤ (n : ℤ)
        · rw [if_pos h100]
          by_cases h179 : n = 179
          · subst h179
            norm_num
          · rw [if_neg (show ¬ 180 ≤ (n : ℤ) + 1 by omega),
              if_pos (show 100 ≤ (n : ℤ) + 1 by omega)]
            linarith
        · rw [if_neg h100, if_neg (show ¬ 180 ≤ (n : ℤ) + 1 by omega)]
          by_cases h99 : n = 99
          · subst h99
            norm_num
          · rw [if_neg (show ¬ 100 ≤ (n : ℤ) + 1 by omega)]
            linarith
  exact hmono h

/-! ## Classes -/

/-- The class of a latency, tier by tier. -/
theorem latencyClass_cases {x : ℤ} (hx : x < 2 ^ 31) :
    (100000 ≤ x ∧ latencyUsToBucket x < 0 ∧ latencyClass x = 320) ∨
    0 ≤ latencyUsToBucket x ∧
      ((20000 ≤ x ∧ x < 100000 ∧ (latencyClass x : ℤ) = 240 + (x - 20000) / 1000) ∨
      (5000 ≤ x ∧ x < 20000 ∧ (latencyClass x : ℤ) = 180 + (x - 5000) / 250) ∨
      (1000 ≤ x ∧ x < 5000 ∧ (latencyClass x : ℤ) = 100 + (x - 1000) / 50) ∨
      (0 ≤ x ∧ x < 1000 ∧ (latencyClass x : ℤ) = x / 10) ∨ (x < 0 ∧ latencyClass x = 0)) := by
  have hbucket := latencyUsToBucket_eq hx
  by_cases htop : 100000 ≤ x
  · rw [if_pos htop] at hbucket
    have hneg : latencyUsToBucket x < 0 := by omega
    exact .inl ⟨htop, hneg, if_pos hneg⟩
  · rw [if_neg htop] at hbucket
    have hpos : 0 ≤ latencyUsToBucket x := by
      split_ifs at hbucket <;> omega
    have hclass : (latencyClass x : ℤ) = latencyUsToBucket x := by
      rw [latencyClass, if_neg (not_lt.mpr hpos), Int.toNat_of_nonneg hpos]
    refine .inr ⟨hpos, ?_⟩
    split_ifs at hbucket <;> omega

theorem latencyClass_le {x : ℤ} (hx : x < 2 ^ 31) : latencyClass x ≤ LATENCY_BUCKET_COUNT := by
  change latencyClass x ≤ 320
  have hcases := latencyClass_cases hx
  omega

/-- The overflow is the last class. -/
theorem latencyClass_eq_iff {x : ℤ} (hx : x < 2 ^ 31) :
    latencyClass x = LATENCY_BUCKET_COUNT ↔ latencyUsToBucket x < 0 := by
  change latencyClass x = 320 ↔ _
  have hcases := latencyClass_cases hx
  omega

/-- **A longer latency is in no lower class.** -/
theorem latencyClass_mono {x y : ℤ} (hy : y < 2 ^ 31) (hxy : x ≤ y) :
    latencyClass x ≤ latencyClass y := by
  have hx := latencyClass_cases (hxy.trans_lt hy)
  rcases latencyClass_cases hy with h | ⟨-, h | h | h | h | h⟩ <;> omega

/-! ## The histogram of a multiset -/

theorem uint32_toNat_succ {u : UInt32} {n : ℕ} (hu : u.toNat = n) (hn : n + 1 < 2 ^ 32) :
    (u + 1).toNat = n + 1 := by
  rw [UInt32.toNat_add, hu]
  exact Nat.mod_eq_of_lt hn

namespace Histogram

variable {m : Multiset ℤ} {x : ℤ}

/-- **What a histogram counts**: the samples of each class. -/
structure Counts (m : Multiset ℤ) (h : Histogram) : Prop where
  overflow : h.overflow.toNat = m.countP fun x => latencyClass x = LATENCY_BUCKET_COUNT
  bucket : ∀ i < LATENCY_BUCKET_COUNT, (h.buckets i).toNat = m.countP fun x => latencyClass x = i
  total : h.totalCount.toNat = m.card

theorem Counts.record {h : Histogram} (hc : Counts m h) (hx : x < 2 ^ 31)
    (hcard : m.card + 1 < 2 ^ 32) : Counts (x ::ₘ m) (h.record x) := by
  have hle (p : ℤ → Prop) [DecidablePred p] : m.countP p + 1 < 2 ^ 32 :=
    (Nat.succ_le_succ (Multiset.countP_le_card p m)).trans_lt hcard
  have htotal : (h.totalCount + 1).toNat = (x ::ₘ m).card := by
    rw [UInt64.toNat_add, hc.total, Multiset.card_cons]
    exact Nat.mod_eq_of_lt (show m.card + 1 < 2 ^ 64 by omega)
  have hcons (i : ℕ) : (x ::ₘ m).countP (fun y => latencyClass y = i) =
      m.countP (fun y => latencyClass y = i) + if latencyClass x = i then 1 else 0 :=
    Multiset.countP_cons _ _ _
  have hover := latencyClass_eq_iff hx
  unfold Histogram.record
  by_cases hb : latencyUsToBucket x < 0
  · rw [if_pos hb]
    refine ⟨?_, fun i hi => ?_, htotal⟩
    · rw [hcons, if_pos (hover.mpr hb)]
      exact uint32_toNat_succ hc.overflow (hle _)
    · rw [hcons, if_neg (by rw [hover.mpr hb]; exact hi.ne'), Nat.add_zero]
      exact hc.bucket i hi
  · rw [if_neg hb]
    have hclass : latencyClass x = (latencyUsToBucket x).toNat := if_neg hb
    refine ⟨?_, fun i hi => ?_, htotal⟩
    · rw [hcons, if_neg (mt hover.mp hb), Nat.add_zero]
      exact hc.overflow
    · unfold bump
      dsimp only
      rw [← hclass]
      by_cases hi' : latencyClass x = i
      · rw [hcons, if_pos hi', hi', Function.update_self]
        exact uint32_toNat_succ (hc.bucket i hi) (hle _)
      · rw [hcons, if_neg hi', Nat.add_zero, Function.update_of_ne (Ne.symm hi')]
        exact hc.bucket i hi

/-- **The histogram of fewer than 2³² latencies** counts them. -/
theorem counts_ofMultiset (hlat : ∀ x ∈ m, x < 2 ^ 31) (hcard : m.card < 2 ^ 32) :
    Counts m (ofMultiset m) := by
  induction m using Multiset.induction with
  | empty => exact ⟨rfl, fun i _ => rfl, rfl⟩
  | cons x m ih =>
      rw [Multiset.card_cons] at hcard
      rw [ofMultiset_cons]
      exact (ih (fun y hy => hlat y (Multiset.mem_cons_of_mem hy)) (by omega)).record
        (hlat x (Multiset.mem_cons_self x m)) hcard

/-- The loop of `adaptive_hist_p99` as a scan. -/
theorem scan_eq (h : Histogram) (k n count : ℕ) : h.scan k n count =
    match scanDown (fun i => (h.buckets i).toNat) k n count with
    | some i => bucketToMidpointUs i / 1000
    | none => -1 := by
  induction n generalizing count with
  | zero => rfl
  | succ n ih =>
      unfold scan scanDown
      split_ifs
      · rfl
      · exact ih _

/-! ## The 99th percentile -/

/-- The rank of the p99 among `n` samples: one hundredth of them, or one twentieth if there are
fewer than a hundred. -/
def p99Rank (n : ℕ) : ℕ := if 100 ≤ n then ⌊(n : ℚ) / 100⌋₊ else ⌈(n : ℚ) / 20⌉₊

theorem target_eq {n : ℕ} (hpos : 0 < n) (hn : n < 2 ^ 32) : target n = p99Rank n := by
  unfold target p99Rank
  dsimp only
  by_cases hlarge : 100 ≤ n
  · have hfloor : ⌊(n : ℚ) / 100⌋₊ = n / 100 := by
      rw [Nat.floor_div_ofNat, Nat.floor_natCast]
    have hmod : n / 100 % 2 ^ 32 = n / 100 := Nat.mod_eq_of_lt (by omega)
    rw [if_pos hlarge, if_pos hlarge, hmod, hfloor, if_neg (by omega)]
  · have hceil : ⌈(n : ℚ) / 20⌉₊ = (n + 19) / 20 := by
      rw [Nat.ceil_eq_iff (by omega)]
      constructor
      · rw [lt_div_iff₀ (by norm_num)]
        have h : ((n + 19) / 20 - 1) * 20 < n := by omega
        exact_mod_cast h
      · rw [div_le_iff₀ (by norm_num)]
        have h : n ≤ (n + 19) / 20 * 20 := by omega
        exact_mod_cast h
    rw [if_neg hlarge, if_neg hlarge, hceil, if_neg (by omega)]

/-- The rank lies between 1 and the number of samples. -/
theorem target_bounds {n : ℕ} (hpos : 0 < n) (hn : n < 2 ^ 32) : 1 ≤ target n ∧ target n ≤ n := by
  have hmod (h : 100 ≤ n) : n / 100 % 2 ^ 32 = n / 100 := Nat.mod_eq_of_lt (by omega)
  unfold target
  dsimp only
  split_ifs with hlarge hzero hzero'
  · omega
  · rw [hmod hlarge] at hzero ⊢
    omega
  · omega
  · omega

/-- The value for a bucket: twice the maximum for the overflow, and otherwise the midpoint. -/
def bucketMs (bucket : ℤ) : ℚ :=
  if bucket < 0 then LATENCY_TIERED_MAX_US * 2 / 1000 else bucketToMidpointUs bucket / 1000

/-- **The p99 of a histogram** is the value of the bucket of the sample of its rank. -/
theorem Counts.p99 {h : Histogram} (hc : Counts m h) (hlat : ∀ x ∈ m, x < 2 ^ 31)
    (hcard : m.card < 2 ^ 32) (hpos : 0 < m.card) (hx : kthLargest m (p99Rank m.card) = some x) :
    h.p99 = bucketMs (latencyUsToBucket x) := by
  rw [← target_eq hpos hcard] at hx
  have hrank := (target_bounds hpos hcard).1
  have hx' := hlat x (mem_of_kthLargest hx)
  have hcls (y : ℤ) (hy : y ∈ m) (z : ℤ) (hz : z ∈ m) (hyz : y ≤ z) :
      latencyClass y ≤ latencyClass z := latencyClass_mono (hlat z hz) hyz
  have hover : h.overflow.toNat = m.countP fun y => LATENCY_BUCKET_COUNT ≤ latencyClass y := by
    rw [hc.overflow]
    refine Multiset.countP_congr rfl fun y hy => ?_
    exact propext ⟨fun heq => heq.ge, fun hge => (latencyClass_le (hlat y hy)).antisymm hge⟩
  have htop := le_countP_iff (p := fun y => LATENCY_BUCKET_COUNT ≤ latencyClass y)
    (fun y hy z hz hyz hle => hle.trans (hcls y hy z hz hyz)) hrank hx
  have hlast : LATENCY_BUCKET_COUNT ≤ latencyClass x ↔ latencyUsToBucket x < 0 := by
    rw [← latencyClass_eq_iff hx']
    exact ⟨fun hge => (latencyClass_le hx').antisymm hge, fun heq => heq.ge⟩
  unfold Histogram.p99 bucketMs
  rw [hc.total, if_neg (by omega), hover, scan_eq]
  by_cases hb : latencyUsToBucket x < 0
  · rw [if_pos (htop.mpr (hlast.mpr hb)), if_pos hb]
  · have hlt : latencyClass x < LATENCY_BUCKET_COUNT := not_le.mp fun hge => hb (hlast.mp hge)
    have hclass : latencyClass x = (latencyUsToBucket x).toNat := if_neg hb
    rw [if_neg fun hle => hb (hlast.mp (htop.mp hle)), if_neg hb,
      scanDown_eq hcls hc.bucket hrank hx hlt]
    dsimp only
    rw [hclass, Int.toNat_of_nonneg (not_lt.mp hb)]

/-- What is tracked is positive, and below twice the maximum. -/
theorem bucketMs_bounds (hx : x < 2 ^ 31) (hb : ¬ latencyUsToBucket x < 0) :
    0 < bucketMs (latencyUsToBucket x) ∧
      bucketMs (latencyUsToBucket x) < LATENCY_TIERED_MAX_US * 2 / 1000 := by
  have hclass : latencyClass x = (latencyUsToBucket x).toNat := if_neg hb
  have hlt : latencyClass x < LATENCY_BUCKET_COUNT :=
    lt_of_le_of_ne (latencyClass_le hx) (mt (latencyClass_eq_iff hx).mp hb)
  obtain ⟨hpos, hmax⟩ := midpoint_bounds hlt
  rw [hclass, Int.toNat_of_nonneg (not_lt.mp hb)] at hpos hmax
  unfold bucketMs
  rw [if_neg hb]
  rw [max_tracked_eq] at hmax ⊢
  constructor <;> linarith

/-- **The p99 is a rank statistic.** For fewer than 2³² latencies below 2³¹ microseconds, the p99 is
`-1` exactly when there are none; otherwise it is the midpoint of the bucket of the sample whose
rank from the largest is one hundredth of their number, or one twentieth, rounded up, below a
hundred, and it is twice the maximum exactly when that sample is in the overflow. -/
theorem p99_rank (hlat : ∀ x ∈ m, x < 2 ^ 31) (hcard : m.card < 2 ^ 32) :
    ((ofMultiset m).p99 = -1 ↔ m = 0) ∧
    (m ≠ 0 → ∃ x, kthLargest m (p99Rank m.card) = some x ∧
      (¬ latencyUsToBucket x < 0 →
        (ofMultiset m).p99 = bucketToMidpointUs (latencyUsToBucket x) / 1000) ∧
      ((ofMultiset m).p99 = LATENCY_TIERED_MAX_US * 2 / 1000 ↔ latencyUsToBucket x < 0)) := by
  have hcounts := counts_ofMultiset hlat hcard
  by_cases hm : m = 0
  · rw [hm]
    exact ⟨⟨fun _ => rfl, fun _ => rfl⟩, fun hne => absurd rfl hne⟩
  · have hpos : 0 < m.card := Multiset.card_pos.mpr hm
    have hbounds := target_bounds hpos hcard
    rw [target_eq hpos hcard] at hbounds
    obtain ⟨x, hx⟩ := exists_kthLargest hbounds.1 hbounds.2
    have hp99 := hcounts.p99 hlat hcard hpos hx
    have hx' := hlat x (mem_of_kthLargest hx)
    by_cases hb : latencyUsToBucket x < 0
    · have hmax : bucketMs (latencyUsToBucket x) = LATENCY_TIERED_MAX_US * 2 / 1000 := if_pos hb
      rw [hp99, hmax]
      refine ⟨⟨fun heq => ?_, fun heq => absurd heq hm⟩, fun _ => ⟨x, hx, fun hno => absurd hb hno,
        fun _ => hb, fun _ => rfl⟩⟩
      norm_num [LATENCY_TIERED_MAX_US] at heq
    · obtain ⟨hgt, hlt⟩ := bucketMs_bounds hx' hb
      rw [hp99]
      refine ⟨⟨fun heq => ?_, fun heq => absurd heq hm⟩, fun _ => ⟨x, hx, fun _ => if_neg hb,
        fun heq => absurd heq hlt.ne, fun hneg => absurd hneg hb⟩⟩
      rw [heq] at hgt
      linarith

/-- Of 3 and 200000 microseconds the larger one decides. -/
theorem p99_rank_two : (ofMultiset {3, 200000}).p99 = 200 ∧ (ofMultiset {3, 200000}).p99 ≠ -1 := by
  have hlat : ∀ x ∈ ({3, 200000} : Multiset ℤ), x < 2 ^ 31 := by decide
  have h := p99_rank hlat (by decide)
  refine ⟨by decide +kernel, fun heq => ?_⟩
  exact absurd (h.1.mp heq) (by decide)

end Histogram

end Aura
