import Aura.Adaptive.Percentile
import Mathlib.Algebra.BigOperators.Group.Finset.Basic

/-!
# The public percentile

The snapshot of a histogram that `aura_get_histogram` hands out, and `aura_histogram_percentile`
over it. Percentiles are rationals.

* `HistogramSnapshot.samples` — the samples of a snapshot, by bucket.
* `HistogramSnapshot.RankedAt` — what a percentile is to be.
* `percentile_rank` — the percentile is the value of the bucket of the sample of its rank, except
  for the 100th one without an overflow; and it is monotone. -/

namespace Aura

open Lib

/-- `AURA_HISTOGRAM_BUCKETS`. -/
abbrev AURA_HISTOGRAM_BUCKETS : ℕ := 320

/-- `aura_histogram_t`. -/
structure HistogramSnapshot where
  buckets : ℕ → UInt32
  overflow : UInt32
  totalCount : UInt32
  maxTrackedUs : ℤ
  tierCount : ℕ
  tierStartUs : ℕ → ℤ
  tierWidthUs : ℕ → ℤ
  tierBaseBucket : ℕ → ℤ

/-- A tier of `LATENCY_TIERS`. -/
def tierAt (t : ℕ) : LatencyTier := LATENCY_TIERS[t]?.getD ⟨0, 0, 0, 0⟩

/-- What `aura_get_histogram` copies from the active histogram of a ring. -/
def Histogram.snapshot (h : Histogram) : HistogramSnapshot where
  buckets := h.buckets
  overflow := h.overflow
  totalCount :=
    if h.totalCount.toNat > 2 ^ 32 - 1 then UInt32.ofNat (2 ^ 32 - 1) else h.totalCount.toUInt32
  maxTrackedUs := LATENCY_TIERED_MAX_US
  tierCount := 4
  tierStartUs t := (tierAt t).startUs
  tierWidthUs t := (tierAt t).widthUs
  tierBaseBucket t := (tierAt t).baseBucket

namespace HistogramSnapshot

variable (h : HistogramSnapshot)

/-- The midpoint of a bucket, from the tiers of the snapshot. -/
def midpointUs (i : ℕ) : ℚ :=
  match (List.range h.tierCount).reverse.find? fun t => decide (h.tierBaseBucket t ≤ i) with
  | some t => h.tierStartUs t + ((i - h.tierBaseBucket t : ℤ) + 1 / 2) * h.tierWidthUs t
  | none => 0

/-- `aura_histogram_percentile`, in milliseconds; `-1` without data and for a percentile out of
range. -/
def percentile (p : ℚ) : ℚ :=
  if p < 0 ∨ p > 100 then -1
  else if h.totalCount = 0 then -1
  else
    let target := ⌊(100 - p) / 100 * h.totalCount.toNat⌋₊
    let target := if target = 0 ∧ p < 100 then 1 else target
    if target ≤ h.overflow.toNat then h.maxTrackedUs / 1000
    else
      match scanDown (fun i => (h.buckets i).toNat) target AURA_HISTOGRAM_BUCKETS
        h.overflow.toNat with
      | some i => h.midpointUs i / 1000
      | none => -1

/-! ## Samples -/

/-- The samples of a snapshot, by bucket; those of the overflow are in one more bucket. -/
@[irreducible] def samples : Multiset ℕ :=
  ∑ i ∈ Finset.range AURA_HISTOGRAM_BUCKETS, Multiset.replicate (h.buckets i).toNat i +
    Multiset.replicate h.overflow.toNat AURA_HISTOGRAM_BUCKETS

/-- The tiers and the maximum are the standard ones. -/
structure Standard (h : HistogramSnapshot) : Prop where
  max : h.maxTrackedUs = LATENCY_TIERED_MAX_US
  count : h.tierCount = 4
  tier : ∀ t < 4, h.tierStartUs t = (tierAt t).startUs ∧ h.tierWidthUs t = (tierAt t).widthUs ∧
    h.tierBaseBucket t = (tierAt t).baseBucket

/-- **A consistent snapshot**: the total is the sum of the buckets and the overflow. -/
structure Consistent (h : HistogramSnapshot) : Prop extends Standard h where
  total : h.totalCount.toNat =
    ∑ i ∈ Finset.range AURA_HISTOGRAM_BUCKETS, (h.buckets i).toNat + h.overflow.toNat

/-- What `aura_get_histogram` hands out has the standard tiers. -/
theorem standard_snapshot (h : Histogram) : h.snapshot.Standard :=
  ⟨rfl, rfl, fun _ _ => ⟨rfl, rfl, rfl⟩⟩

variable {h} {p q : ℚ} {i : ℕ}

/-- With the standard tiers the midpoints are those of the controller. -/
theorem Standard.midpointUs_eq (hs : h.Standard) (i : ℕ) :
    h.midpointUs i = bucketToMidpointUs i := by
  have hlist : (List.range h.tierCount).reverse = [3, 2, 1, 0] := by
    rw [hs.count]
    rfl
  have h₀ : h.tierStartUs 0 = 0 ∧ h.tierWidthUs 0 = 10 ∧ h.tierBaseBucket 0 = 0 :=
    hs.tier 0 (by decide)
  have h₁ : h.tierStartUs 1 = 1000 ∧ h.tierWidthUs 1 = 50 ∧ h.tierBaseBucket 1 = 100 :=
    hs.tier 1 (by decide)
  have h₂ : h.tierStartUs 2 = 5000 ∧ h.tierWidthUs 2 = 250 ∧ h.tierBaseBucket 2 = 180 :=
    hs.tier 2 (by decide)
  have h₃ : h.tierStartUs 3 = 20000 ∧ h.tierWidthUs 3 = 1000 ∧ h.tierBaseBucket 3 = 240 :=
    hs.tier 3 (by decide)
  have hzero : h.tierBaseBucket 0 ≤ i := by
    rw [h₀.2.2]
    exact Int.natCast_nonneg i
  unfold midpointUs
  rw [hlist, find_four (p := fun t => decide (h.tierBaseBucket t ≤ i)) (decide_eq_true hzero),
    bucketToMidpointUs_eq (Int.natCast_nonneg i)]
  simp only [decide_eq_true_eq, h₃.2.2, h₂.2.2, h₁.2.2]
  by_cases h240 : 240 ≤ (i : ℤ)
  · rw [if_pos h240, if_pos h240]
    rw [h₃.1, h₃.2.1, h₃.2.2]
    norm_num
  · rw [if_neg h240, if_neg h240]
    by_cases h180 : 180 ≤ (i : ℤ)
    · rw [if_pos h180, if_pos h180]
      rw [h₂.1, h₂.2.1, h₂.2.2]
      norm_num
    · rw [if_neg h180, if_neg h180]
      by_cases h100 : 100 ≤ (i : ℤ)
      · rw [if_pos h100, if_pos h100]
        rw [h₁.1, h₁.2.1, h₁.2.2]
        norm_num
      · rw [if_neg h100, if_neg h100]
        rw [h₀.1, h₀.2.1, h₀.2.2]
        norm_num

/-! ## Counting the samples -/

theorem countP_samples (f : ℕ → Prop) [DecidablePred f] : h.samples.countP f =
    (∑ i ∈ Finset.range AURA_HISTOGRAM_BUCKETS, if f i then (h.buckets i).toNat else 0) +
      if f AURA_HISTOGRAM_BUCKETS then h.overflow.toNat else 0 := by
  unfold samples
  rw [Multiset.countP_add, countP_sum_replicate, countP_replicate]

/-- The samples of one bucket. -/
theorem count_bucket (hi : i < AURA_HISTOGRAM_BUCKETS) :
    h.samples.countP (fun x => id x = i) = (h.buckets i).toNat := by
  rw [countP_samples, if_neg (show id AURA_HISTOGRAM_BUCKETS ≠ i from hi.ne'), Nat.add_zero,
    Finset.sum_eq_single i]
  · exact if_pos rfl
  · exact fun j _ hne => if_neg hne
  · exact fun hno => absurd (Finset.mem_range.mpr hi) hno

/-- The samples of the overflow. -/
theorem count_overflow :
    h.samples.countP (fun x => AURA_HISTOGRAM_BUCKETS ≤ id x) = h.overflow.toNat := by
  rw [countP_samples, if_pos (show AURA_HISTOGRAM_BUCKETS ≤ id AURA_HISTOGRAM_BUCKETS from le_rfl),
    Finset.sum_eq_zero, Nat.zero_add]
  exact fun j hj => if_neg (not_le.mpr (Finset.mem_range.mp hj))

theorem Consistent.card (hc : h.Consistent) : h.samples.card = h.totalCount.toNat := by
  have hall : h.samples.countP (fun _ => True) = ∑ i ∈ Finset.range AURA_HISTOGRAM_BUCKETS,
      (h.buckets i).toNat + h.overflow.toNat := countP_samples fun _ => True
  rw [hc.total, ← hall, Multiset.countP_True]

theorem mem_samples (hi : i ∈ h.samples) : i ≤ AURA_HISTOGRAM_BUCKETS := by
  have hpos : 0 < h.samples.countP fun x => x = i := Multiset.countP_pos.mpr ⟨i, hi, rfl⟩
  by_contra hgt
  rw [countP_samples, if_neg (by omega), Nat.add_zero, Finset.sum_eq_zero] at hpos
  · exact absurd hpos (lt_irrefl 0)
  · exact fun j hj => if_neg (by have := Finset.mem_range.mp hj; omega)

/-! ## The percentile -/

variable (h) in
/-- The rank of a percentile, counted from the largest sample. -/
def rank (p : ℚ) : ℕ := max 1 ⌊h.totalCount.toNat * (100 - p) / 100⌋₊

variable (h) in
/-- The value of a sample: the midpoint of its bucket, or the maximum for the overflow. -/
def sampleMs (i : ℕ) : ℚ :=
  if i < AURA_HISTOGRAM_BUCKETS then h.midpointUs i / 1000 else h.maxTrackedUs / 1000

theorem Standard.sampleMs_le (hs : h.Standard) (i : ℕ) : h.sampleMs i ≤ h.maxTrackedUs / 1000 := by
  unfold sampleMs
  split_ifs with hi
  · rw [hs.midpointUs_eq, hs.max]
    have hlt := (midpoint_bounds hi).2
    rw [max_tracked_eq] at hlt ⊢
    linarith
  · exact le_rfl

/-- A bucket below the overflow has a value below the maximum. -/
theorem Standard.sampleMs_lt (hs : h.Standard) (hi : i < AURA_HISTOGRAM_BUCKETS) :
    h.sampleMs i < h.maxTrackedUs / 1000 := by
  unfold sampleMs
  rw [if_pos hi, hs.midpointUs_eq, hs.max]
  have hlt := (midpoint_bounds hi).2
  rw [max_tracked_eq] at hlt ⊢
  linarith

theorem Standard.sampleMs_mono (hs : h.Standard) {j : ℕ} (hij : i ≤ j) :
    h.sampleMs i ≤ h.sampleMs j := by
  by_cases hj : j < AURA_HISTOGRAM_BUCKETS
  · unfold sampleMs
    rw [if_pos hj, if_pos (hij.trans_lt hj), hs.midpointUs_eq, hs.midpointUs_eq]
    have hle := midpoint_mono hij
    linarith
  · have hmax : h.sampleMs j = h.maxTrackedUs / 1000 := if_neg hj
    rw [hmax]
    exact hs.sampleMs_le i

/-- The sample of the rank of a percentile. -/
theorem Consistent.exists_sample (hc : h.Consistent) (hpos : h.totalCount ≠ 0) (hp : 0 ≤ p) :
    ∃ i, kthLargest h.samples (h.rank p) = some i := by
  have htotal : 0 < h.totalCount.toNat := by
    refine Nat.pos_of_ne_zero fun hzero => hpos ?_
    exact UInt32.toNat_inj.mp hzero
  refine exists_kthLargest (le_max_left 1 _) ?_
  rw [hc.card]
  refine max_le htotal (Nat.floor_le_of_le ?_)
  have hn : (0 : ℚ) ≤ h.totalCount.toNat := Nat.cast_nonneg _
  rw [div_le_iff₀ (by norm_num)]
  nlinarith

/-- **Below 100 the percentile is the value of the sample of its rank.** -/
theorem percentile_eq (hpos : h.totalCount ≠ 0) (hp : 0 ≤ p) (hlt : p < 100)
    (hi : kthLargest h.samples (h.rank p) = some i) :
    h.percentile p = h.sampleMs i := by
  have htarget : (if ⌊(100 - p) / 100 * h.totalCount.toNat⌋₊ = 0 ∧ p < 100 then 1
      else ⌊(100 - p) / 100 * h.totalCount.toNat⌋₊) = h.rank p := by
    have hcomm : (100 - p) / 100 * h.totalCount.toNat = h.totalCount.toNat * (100 - p) / 100 := by
      ring
    unfold rank
    rw [hcomm]
    split_ifs with hzero
    · rw [hzero.1]
      rfl
    · have hne : ⌊(h.totalCount.toNat : ℚ) * (100 - p) / 100⌋₊ ≠ 0 := fun heq => hzero ⟨heq, hlt⟩
      omega
  have hcls (x : ℕ) (_ : x ∈ h.samples) (y : ℕ) (_ : y ∈ h.samples) (hxy : x ≤ y) :
      id x ≤ id y := hxy
  have hrank : 1 ≤ h.rank p := le_max_left 1 _
  have htop := le_countP_iff (p := fun x => AURA_HISTOGRAM_BUCKETS ≤ id x)
    (fun x hx y hy hxy hle => hle.trans (hcls x hx y hy hxy)) hrank hi
  rw [count_overflow] at htop
  unfold percentile
  dsimp only
  rw [if_neg (by rintro (h | h) <;> linarith), if_neg hpos, htarget]
  by_cases hover : AURA_HISTOGRAM_BUCKETS ≤ i
  · rw [if_pos (htop.mpr hover)]
    exact (if_neg (not_lt.mpr hover)).symm
  · have hscan := scanDown_eq hcls (fun j hj => (count_bucket (h := h) hj).symm) hrank hi
      (not_le.mp hover)
    rw [count_overflow] at hscan
    rw [if_neg (mt htop.mp hover), hscan]
    exact (if_pos (not_le.mp hover)).symm

/-- The 100th percentile is the maximum that is tracked. -/
theorem percentile_hundred (hpos : h.totalCount ≠ 0) :
    h.percentile 100 = h.maxTrackedUs / 1000 := by
  unfold percentile
  dsimp only
  rw [if_neg (by norm_num), if_neg hpos]
  norm_num

/-- **What a percentile is**: the value of the bucket of the sample of its rank, and the maximum
that is tracked only if that sample is in the overflow. -/
def RankedAt (h : HistogramSnapshot) (p : ℚ) : Prop :=
  ∃ i, kthLargest h.samples (h.rank p) = some i ∧
    (i < AURA_HISTOGRAM_BUCKETS → h.percentile p = h.midpointUs i / 1000) ∧
    (h.percentile p = h.maxTrackedUs / 1000 ↔ i = AURA_HISTOGRAM_BUCKETS)

/-- The value of a sample is the percentile that is asked for. -/
theorem Standard.rankedAt (hs : h.Standard) (hi : kthLargest h.samples (h.rank p) = some i)
    (heq : h.percentile p = h.sampleMs i) : h.RankedAt p := by
  refine ⟨i, hi, fun hlt => heq.trans (if_pos hlt), fun hmax => ?_, fun hover => ?_⟩
  · by_contra hne
    have hlt := hs.sampleMs_lt (lt_of_le_of_ne (mem_samples (mem_of_kthLargest hi)) hne)
    exact absurd (heq.symm.trans hmax) hlt.ne
  · rw [heq, hover]
    exact if_neg (lt_irrefl _)

/-- The 100th percentile has the rank 1. -/
theorem rank_hundred : h.rank 100 = 1 := by
  unfold rank
  norm_num

/-- The largest sample is in the overflow exactly when there is an overflow. -/
theorem largest_iff (hi : kthLargest h.samples (h.rank 100) = some i) :
    i = AURA_HISTOGRAM_BUCKETS ↔ h.overflow ≠ 0 := by
  have hle : i ≤ AURA_HISTOGRAM_BUCKETS := mem_samples (mem_of_kthLargest hi)
  rw [rank_hundred] at hi
  have htop := le_countP_iff (p := fun x => AURA_HISTOGRAM_BUCKETS ≤ id x)
    (fun _ _ _ _ hxy hge => hge.trans hxy) le_rfl hi
  rw [count_overflow] at htop
  have hzero : h.overflow = 0 ↔ h.overflow.toNat = 0 := UInt32.toNat_inj.symm
  rw [Ne, hzero, ← Ne, ← Nat.one_le_iff_ne_zero, htop]
  exact ⟨fun heq => heq.ge, fun hge => hle.antisymm hge⟩

/-- The 100th percentile is right exactly with an overflow. -/
theorem Consistent.rankedAt_hundred (hc : h.Consistent) (hpos : h.totalCount ≠ 0) :
    h.RankedAt 100 ↔ h.overflow ≠ 0 := by
  constructor
  · rintro ⟨i, hi, -, hmax⟩
    exact (largest_iff hi).mp (hmax.mp (percentile_hundred hpos))
  · intro hover
    obtain ⟨i, hi⟩ := hc.exists_sample (p := 100) hpos (by norm_num)
    refine hc.rankedAt hi ?_
    rw [percentile_hundred hpos, (largest_iff hi).mpr hover]
    exact (if_neg (lt_irrefl _)).symm

/-- A higher percentile has a lower rank. -/
theorem rank_antitone (hpq : p ≤ q) : h.rank q ≤ h.rank p := by
  refine max_le_max_left 1 (Nat.floor_le_floor ?_)
  have hn : (0 : ℚ) ≤ h.totalCount.toNat := Nat.cast_nonneg _
  have hsub : (h.totalCount.toNat : ℚ) * (100 - q) ≤ h.totalCount.toNat * (100 - p) :=
    mul_le_mul_of_nonneg_left (by linarith) hn
  linarith

/-- **Percentiles are monotone**, those of the 100th included. -/
theorem Consistent.percentile_mono (hc : h.Consistent) (hpos : h.totalCount ≠ 0) (hp : 0 ≤ p)
    (hpq : p ≤ q) (hq : q ≤ 100) : h.percentile p ≤ h.percentile q := by
  obtain ⟨i, hi⟩ := hc.exists_sample hpos hp
  rcases hq.lt_or_eq with hlt | rfl
  · obtain ⟨j, hj⟩ := hc.exists_sample hpos (hp.trans hpq)
    rw [percentile_eq hpos hp (hpq.trans_lt hlt) hi, percentile_eq hpos (hp.trans hpq) hlt hj]
    exact hc.sampleMs_mono (kthLargest_antitone (rank_antitone hpq) (le_max_left 1 _) hj hi)
  · rw [percentile_hundred hpos]
    rcases hpq.lt_or_eq with hlt | rfl
    · rw [percentile_eq hpos hp hlt hi]
      exact hc.sampleMs_le i
    · exact (percentile_hundred hpos).le

/-- The snapshot after one latency of 5 microseconds. -/
def ofFive : HistogramSnapshot := (Histogram.empty.record 5).snapshot

theorem consistent_ofFive : ofFive.Consistent :=
  ⟨standard_snapshot _, by decide +kernel⟩

end HistogramSnapshot

end Aura
