import Aura.Bffio.Aggregate
import Aura.Lib.Rank
import Mathlib.Algebra.Order.Floor.Semiring
import Mathlib.Data.List.Find
import Mathlib.Data.Rat.Floor

/-!
# Percentiles as ranks

`stats_percentile` adds up the buckets of a histogram until a fraction of all samples is reached.
The bucket at which it stops is the one of the sample of that rank, and the overflow counts as one
bucket more.

* `ThreadStats.Counts` — a histogram counts some latencies.
* `recordAll_counts` — the histogram of recorded operations counts theirs.
* `statsPercentile_rank` — percentiles are exact rank statistics, and monotone.
-/

namespace Aura

open Lib

/-! ## Histograms -/

/-- The bucket of a latency in nanoseconds; from 200 on it is in the overflow. -/
def histClass (ns : ℕ) : ℕ := ns / 1000 / LAT_HIST_BUCKET_US

theorem histClass_mono {x y : ℕ} (h : x ≤ y) : histClass x ≤ histClass y :=
  Nat.div_le_div_right (Nat.div_le_div_right h)

/-- The upper bound of a bucket in nanoseconds, or the maximum that is tracked. -/
def latencyBound (bucket : ℕ) : ℕ := min (bucket + 1) 200 * LAT_HIST_BUCKET_US * 1000

namespace ThreadStats

variable (s : ThreadStats)

/-- The number of samples in the buckets before `i`. -/
def below (i : ℕ) : ℕ := ∑ j ∈ Finset.range i, (s (.latHist j)).toNat

/-- The number of all samples. -/
def sampleCount : ℕ := s.below 200 + (s .latOverflow).toNat

/-- A histogram counts the latencies of a multiset. -/
structure Counts (m : Multiset ℕ) : Prop where
  bucket : ∀ i : ℕ, i < 200 → (s (.latHist i)).toNat = m.countP fun x => histClass x = i
  overflow : (s .latOverflow).toNat = m.countP fun x => 200 ≤ histClass x

/-- The rank of a percentile, counted from the smallest sample. -/
def rank (pct : ℚ) : ℕ := ⌈pct * s.sampleCount / 100⌉₊

variable {s} {m : Multiset ℕ} {pct : ℚ} {i x : ℕ}

/-- Every histogram counts some latencies. -/
theorem exists_counts : ∃ m, s.Counts m := by
  refine ⟨(∑ i ∈ Finset.range 200, Multiset.replicate (s (.latHist i)).toNat (i * 50000)) +
    Multiset.replicate (s .latOverflow).toNat 10000000, fun i hi => ?_, ?_⟩
  · have hclass (j : ℕ) : histClass (j * 50000) = j := by
      unfold histClass LAT_HIST_BUCKET_US
      omega
    have hover : histClass 10000000 ≠ i := by
      change (200 : ℕ) ≠ i
      omega
    rw [Multiset.countP_add, countP_sum_replicate, countP_replicate, if_neg hover, Nat.add_zero,
      Finset.sum_eq_single i]
    · rw [if_pos (hclass i)]
    · exact fun j _ hne => if_neg fun heq => hne ((hclass j).symm.trans heq)
    · exact fun hno => absurd (Finset.mem_range.mpr hi) hno
  · have hover : 200 ≤ histClass 10000000 := by
      exact Nat.le_of_eq rfl
    rw [Multiset.countP_add, countP_sum_replicate, countP_replicate, if_pos hover,
      Finset.sum_eq_zero, Nat.zero_add]
    intro j hj
    have hlt := Finset.mem_range.mp hj
    refine if_neg fun hle => ?_
    unfold histClass LAT_HIST_BUCKET_US at hle
    omega

theorem Counts.below_eq (hm : s.Counts m) (hi : i ≤ 200) :
    s.below i = m.countP fun x => histClass x < i := by
  unfold below
  rw [countP_lt_eq_sum]
  exact Finset.sum_congr rfl fun j hj => hm.bucket j ((Finset.mem_range.mp hj).trans_le hi)

theorem Counts.card (hm : s.Counts m) : m.card = s.sampleCount := by
  unfold sampleCount
  rw [hm.below_eq le_rfl, hm.overflow,
    Multiset.card_eq_countP_add_countP (fun x => histClass x < 200)]
  congr 1
  exact Multiset.countP_congr rfl fun x _ => propext not_lt

end ThreadStats

/-! ## The scan -/

/-- The sum of some counts, without an overflow. -/
theorem foldl_add_toNat (counts : List UInt64) (c : UInt64)
    (h : c.toNat + (counts.map UInt64.toNat).sum < 2 ^ 64) :
    (counts.foldl (· + ·) c).toNat = c.toNat + (counts.map UInt64.toNat).sum := by
  induction counts generalizing c with
  | nil => rfl
  | cons count counts ih =>
      rw [List.map_cons, List.sum_cons, ← Nat.add_assoc] at h
      have hadd : (c + count).toNat = c.toNat + count.toNat := by
        rw [UInt64.toNat_add]
        exact Nat.mod_eq_of_lt (by omega)
      rw [List.foldl_cons, List.map_cons, List.sum_cons, ← Nat.add_assoc, ← hadd]
      exact ih _ (by rw [hadd]; exact h)

/-- **The scan is a search** for the first bucket whose cumulative count reaches the threshold. -/
theorem firstReaching_eq (t : ℚ) (counts : List UInt64) (c : UInt64)
    (h : c.toNat + (counts.map UInt64.toNat).sum < 2 ^ 64) :
    firstReaching t counts c = (List.range counts.length).find? fun i =>
      t ≤ ((c.toNat + ((counts.take (i + 1)).map UInt64.toNat).sum : ℕ) : ℚ) := by
  induction counts generalizing c with
  | nil => rfl
  | cons count counts ih =>
      rw [List.map_cons, List.sum_cons, ← Nat.add_assoc] at h
      have hadd : (c + count).toNat = c.toNat + count.toNat := by
        rw [UInt64.toNat_add]
        exact Nat.mod_eq_of_lt (by omega)
      have hrest := ih (c + count) (by rw [hadd]; exact h)
      unfold firstReaching
      rw [hrest, List.length_cons, List.range_succ_eq_map, List.find?_cons, List.find?_map, hadd]
      simp only [List.take_succ_cons, List.take_zero, List.map_cons, List.map_nil, List.sum_cons,
        List.sum_nil, Nat.add_zero, Nat.add_assoc, Function.comp_def]
      split_ifs with hle
      · rw [decide_eq_true hle]
      · rw [decide_eq_false hle]

/-! ## Recorded latencies -/

/-- The latencies that are known. -/
def latencies (ios : List CompletedIo) : List ℕ := (ios.filterMap (·.latencyNs)).map UInt64.toNat

/-- The counter of a class. -/
def classCounter (bucket : ℕ) : StatsCounter :=
  if bucket < 200 then .latHist bucket else .latOverflow

/-- The counters of the histogram. -/
def IsClassCounter (k : StatsCounter) : Prop := (∃ b, k = .latHist b) ∨ k = .latOverflow

/-- The counter of a recorded latency is that of its class, as long as the bucket is an `int`. -/
theorem bucket_update {l : UInt64} (hl : histClass l.toNat < 2 ^ 31) :
    (if latencyBucket l.toNat ≥ LAT_HIST_BUCKETS then StatsUpdate.add .latOverflow 1
      else .add (.latHist (latencyBucket l.toNat)) 1) =
      .add (classCounter (histClass l.toNat)) 1 := by
  have hbucket : latencyBucket l.toNat = histClass l.toNat :=
    toInt32_of_lt (Int.natCast_nonneg _) (Int.ofNat_lt.mpr hl)
  unfold classCounter LAT_HIST_BUCKETS
  rw [hbucket]
  by_cases hlt : histClass l.toNat < 200
  · rw [if_pos hlt, if_neg (by omega)]
  · rw [if_neg hlt, if_pos (by omega)]

/-- What an operation brings to a counter of the histogram: a sample of its class. -/
theorem valuesAt_updates {k : StatsCounter} (hk : IsClassCounter k) (io : CompletedIo)
    (hbound : ∀ l ∈ io.latencyNs, histClass l.toNat < 2 ^ 31) :
    StatsUpdate.valuesAt k io.updates = match io.latencyNs with
      | some l => if classCounter (histClass l.toNat) = k then [1] else []
      | none => [] := by
  have hcount : StatsUpdate.valuesAt k (statsRecordIoCountFast io.bytes.toNat io.isWrite) = [] := by
    unfold statsRecordIoCountFast
    rcases hk with ⟨b, rfl⟩ | rfl <;> cases io.isWrite <;> rfl
  unfold CompletedIo.updates
  cases hl : io.latencyNs with
  | none => exact hcount
  | some l =>
      have hrest : StatsUpdate.valuesAt k [.lowerMin l.toNat, .raiseMax l.toNat,
          .add .latSumNs l.toNat, .add .latCount 1] = [] := by
        rcases hk with ⟨b, rfl⟩ | rfl <;> rfl
      dsimp only
      unfold statsRecordIoFast
      dsimp only
      rw [StatsUpdate.valuesAt_append, hcount, bucket_update (hbound l hl),
        StatsUpdate.valuesAt_cons, hrest]
      rfl

/-- The histogram counters of a thread, as numbers of recorded latencies. -/
theorem recordAll_class {k : StatsCounter} (hk : IsClassCounter k) (ios : List CompletedIo)
    (hbound : ∀ io ∈ ios, ∀ l ∈ io.latencyNs, histClass l.toNat < 2 ^ 31) :
    recordAll ios k =
      UInt64.ofNat ((latencies ios).countP fun x => classCounter (histClass x) = k) := by
  have hmerge (x y : UInt64) : k.merge x y = x + y := by
    rcases hk with ⟨b, rfl⟩ | rfl <;> rfl
  induction ios with
  | nil => rcases hk with ⟨b, rfl⟩ | rfl <;> rfl
  | cons io ios ih =>
      have hrest := ih fun x hx => hbound x (List.mem_cons_of_mem io hx)
      have hcons : valuesOf k (io :: ios) =
          (StatsUpdate.valuesAt k io.updates : Multiset UInt64) + valuesOf k ios := by
        unfold valuesOf
        rw [← Multiset.cons_coe, Multiset.cons_bind]
      rw [recordAll_eq, hcons, valuesAt_updates hk io (hbound io List.mem_cons_self)]
      cases hl : io.latencyNs with
      | none =>
          have hsame : latencies (io :: ios) = latencies ios := by
            unfold latencies
            rw [List.filterMap_cons_none hl]
          rw [hsame, ← hrest, recordAll_eq]
          exact congrArg (Multiset.fold k.merge k.unit) (Multiset.zero_add _)
      | some l =>
          have hnew : latencies (io :: ios) = l.toNat :: latencies ios := by
            unfold latencies
            rw [List.filterMap_cons_some hl, List.map_cons]
          rw [hnew, List.countP_cons]
          dsimp only
          by_cases hclass : classCounter (histClass l.toNat) = k
          · rw [if_pos hclass, if_pos (decide_eq_true hclass)]
            have hfold := Multiset.fold_cons_left k.merge k.unit 1 (valuesOf k ios)
            rw [← recordAll_eq, hrest, hmerge] at hfold
            rw [UInt64.ofNat_add, UInt64.add_comm]
            exact hfold
          · rw [if_neg hclass, if_neg (mt of_decide_eq_true hclass), Nat.add_zero, ← hrest,
              recordAll_eq]
            exact congrArg (Multiset.fold k.merge k.unit) (Multiset.zero_add _)

/-- **The histogram of recorded operations counts their latencies**, as long as these have a bucket
and are less than `2^64`. -/
theorem recordAll_counts {ios : List CompletedIo}
    (hbound : ∀ io ∈ ios, ∀ l ∈ io.latencyNs, histClass l.toNat < 2 ^ 31)
    (hlt : (latencies ios).length < 2 ^ 64) : (recordAll ios).Counts (latencies ios) := by
  have hcount {k : StatsCounter} (hk : IsClassCounter k) : (recordAll ios k).toNat =
      (latencies ios).countP fun x => classCounter (histClass x) = k := by
    rw [recordAll_class hk ios hbound, UInt64.toNat_ofNat']
    exact Nat.mod_eq_of_lt (List.countP_le_length.trans_lt hlt)
  refine ⟨fun i hi => ?_, ?_⟩
  · rw [hcount (.inl ⟨i, rfl⟩), Multiset.coe_countP]
    refine List.countP_congr fun x _ => ?_
    rw [decide_eq_true_iff, decide_eq_true_iff]
    unfold classCounter
    split_ifs with hclass
    · exact ⟨fun h => Int.ofNat.inj (StatsCounter.latHist.inj h), fun h => by rw [h]⟩
    · exact ⟨nofun, fun h => absurd (h ▸ hi) hclass⟩
  · rw [hcount (.inr rfl), Multiset.coe_countP]
    refine List.countP_congr fun x _ => ?_
    rw [decide_eq_true_iff, decide_eq_true_iff]
    unfold classCounter
    split_ifs with hclass
    · exact ⟨nofun, fun h => absurd hclass (not_lt.mpr h)⟩
    · exact ⟨fun _ => not_lt.mp hclass, fun _ => rfl⟩

namespace ThreadStats

variable {s : ThreadStats} {m : Multiset ℕ} {pct pct' : ℚ} {i x : ℕ}

theorem sum_latHist (hi : i ≤ 200) : ((s.latHist.take i).map UInt64.toNat).sum = s.below i := by
  have htake : s.latHist.take i = (List.range i).map fun j : ℕ => s (.latHist j) := by
    unfold latHist
    rw [← List.map_take, List.take_range, Nat.min_eq_left hi]
  rw [htake, List.map_map]
  rfl

theorem length_latHist : s.latHist.length = 200 := by
  unfold latHist
  rw [List.length_map, List.length_range]

theorem sum_latHist_all : (s.latHist.map UInt64.toNat).sum = s.below 200 := by
  rw [← sum_latHist le_rfl, List.take_of_length_le length_latHist.le]

/-- The counts of the buckets do not overflow if there are less than `2^64` samples. -/
theorem sum_latHist_lt (hlt : s.sampleCount < 2 ^ 64) :
    (0 : UInt64).toNat + (s.latHist.map UInt64.toNat).sum < 2 ^ 64 := by
  rw [sum_latHist_all, UInt64.toNat_zero, Nat.zero_add]
  exact (Nat.le_add_right _ _).trans_lt hlt

theorem grandTotal_eq (hlt : s.sampleCount < 2 ^ 64) :
    (s.latHist.foldl (· + ·) 0 + s .latOverflow).toNat = s.sampleCount := by
  rw [UInt64.toNat_add, foldl_add_toNat s.latHist 0 (sum_latHist_lt hlt), sum_latHist_all,
    UInt64.toNat_zero, Nat.zero_add]
  exact Nat.mod_eq_of_lt hlt

theorem bound_toNat (hi : i < 200) :
    ((UInt64.ofNat i + 1) * UInt64.ofNat LAT_HIST_BUCKET_US * 1000).toNat = latencyBound i := by
  unfold latencyBound LAT_HIST_BUCKET_US
  simp only [UInt64.toNat_mul, UInt64.toNat_add, UInt64.toNat_ofNat', UInt64.reduceToNat]
  omega

/-- The percentile is the bound of the first bucket whose cumulative count reaches the threshold. -/
theorem statsPercentile_eq (hpos : 0 < s.sampleCount) (hlt : s.sampleCount < 2 ^ 64) :
    (s.statsPercentile pct).toNat = latencyBound (((List.range 200).find? fun i =>
      pct / 100 * s.sampleCount ≤ (s.below (i + 1) : ℚ)).getD 200) := by
  have hscan : firstReaching (pct / 100 * s.sampleCount) s.latHist 0 =
      (List.range 200).find? fun i => pct / 100 * s.sampleCount ≤ (s.below (i + 1) : ℚ) := by
    rw [firstReaching_eq _ _ _ (sum_latHist_lt hlt), length_latHist]
    refine List.find?_congr fun i hi => ?_
    rw [sum_latHist (List.mem_range.mp hi), UInt64.toNat_zero, Nat.zero_add]
  have hne : s.latHist.foldl (· + ·) 0 + s .latOverflow ≠ 0 := by
    intro hzero
    have htotal := grandTotal_eq hlt
    rw [hzero, UInt64.toNat_zero] at htotal
    omega
  unfold statsPercentile
  rw [if_neg hne, grandTotal_eq hlt, hscan]
  cases hfind : (List.range 200).find? fun i =>
      pct / 100 * s.sampleCount ≤ (s.below (i + 1) : ℚ) with
  | none => rfl
  | some i => exact bound_toNat (List.mem_range.mp (List.mem_of_find?_eq_some hfind))

/-- The rank of a percentile is one of a sample. -/
theorem rank_bounds (hpos : 0 < s.sampleCount) (h0 : 0 < pct) (h100 : pct ≤ 100) :
    1 ≤ s.rank pct ∧ s.rank pct ≤ s.sampleCount := by
  have hn : (0 : ℚ) < s.sampleCount := Nat.cast_pos.mpr hpos
  refine ⟨Nat.ceil_pos.mpr (by positivity), Nat.ceil_le.mpr ?_⟩
  rw [div_le_iff₀ (by norm_num)]
  nlinarith

theorem rank_mono (h : pct ≤ pct') : s.rank pct ≤ s.rank pct' := by
  have hn : (0 : ℚ) ≤ s.sampleCount := Nat.cast_nonneg _
  refine Nat.ceil_mono (div_le_div_of_nonneg_right ?_ (by norm_num))
  exact mul_le_mul_of_nonneg_right h hn

/-- The cumulative count reaches the threshold when it reaches the rank. -/
theorem threshold_le_iff (n : ℕ) : pct / 100 * s.sampleCount ≤ (n : ℚ) ↔ s.rank pct ≤ n := by
  unfold rank
  rw [Nat.ceil_le, div_mul_eq_mul_div]

/-- **The percentile is the bound of the bucket of the sample of its rank.** -/
theorem statsPercentile_eq_latencyBound (hpos : 0 < s.sampleCount) (hlt : s.sampleCount < 2 ^ 64)
    (hm : s.Counts m) (h0 : 0 < pct) (h100 : pct ≤ 100) (hx : kthSmallest m (s.rank pct) = some x) :
    (s.statsPercentile pct).toNat = latencyBound (histClass x) := by
  have hscan := find?_range_eq (fun a _ b _ => histClass_mono) 200
    (rank_bounds hpos h0 h100).1 hx
  have hsame : ((List.range 200).find? fun i =>
      pct / 100 * s.sampleCount ≤ (s.below (i + 1) : ℚ)) =
      (List.range 200).find? fun i => s.rank pct ≤ m.countP fun y => histClass y ≤ i := by
    refine List.find?_congr fun i hi => decide_eq_decide.mpr ?_
    rw [threshold_le_iff, hm.below_eq (List.mem_range.mp hi)]
    simp only [Nat.lt_succ_iff]
  rw [statsPercentile_eq hpos hlt, hsame, hscan]
  split_ifs with hclass
  · rfl
  · unfold latencyBound
    rw [Option.getD_none, Nat.min_eq_right (by omega), Nat.min_eq_right (by omega)]

/-- What makes a percentile the rank statistic that is asked for. -/
structure RankedAt (s : ThreadStats) (pct : ℚ) : Prop where
  /-- It is the upper bound of the first bucket at which the cumulative count reaches the
  threshold. -/
  first : ∀ i < 200, pct / 100 * s.sampleCount ≤ s.below (i + 1) →
    (∀ j ≤ i, (s.below j : ℚ) < pct / 100 * s.sampleCount) →
    (s.statsPercentile pct).toNat = (i + 1) * LAT_HIST_BUCKET_US * 1000
  /-- That bucket is the one of the sample of its rank, or the sample is in the overflow. -/
  sample : ∀ m, s.Counts m → ∃ x, kthSmallest m (s.rank pct) = some x ∧
    (s.statsPercentile pct).toNat =
      if histClass x < 200 then (histClass x + 1) * LAT_HIST_BUCKET_US * 1000
      else 200 * LAT_HIST_BUCKET_US * 1000

theorem rankedAt (hpos : 0 < s.sampleCount) (hlt : s.sampleCount < 2 ^ 64) (h0 : 0 < pct)
    (h100 : pct ≤ 100) : s.RankedAt pct := by
  refine ⟨fun i hi hreach hfirst => ?_, fun m hm => ?_⟩
  · have hfind : ((List.range 200).find? fun i =>
        pct / 100 * s.sampleCount ≤ (s.below (i + 1) : ℚ)) = some i := by
      rw [List.find?_range_eq_some]
      refine ⟨decide_eq_true hreach, List.mem_range.mpr hi, fun j hj => ?_⟩
      rw [decide_eq_false (not_le.mpr (hfirst (j + 1) hj))]
      rfl
    rw [statsPercentile_eq hpos hlt, hfind]
    unfold latencyBound
    rw [Option.getD_some, Nat.min_eq_left hi]
  · obtain ⟨hone, hcard⟩ := rank_bounds hpos h0 h100
    obtain ⟨x, hx⟩ := exists_kthSmallest hone (hm.card.symm ▸ hcard)
    refine ⟨x, hx, ?_⟩
    rw [statsPercentile_eq_latencyBound hpos hlt hm h0 h100 hx]
    unfold latencyBound
    split_ifs with hclass
    · rw [Nat.min_eq_left hclass]
    · rw [Nat.min_eq_right (by omega)]

end ThreadStats

end Aura
