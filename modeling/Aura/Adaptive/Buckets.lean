import Aura.Adaptive.Percentile

/-!
# Latency buckets over the whole 64-bit range

`latency_us_to_bucket` narrows the distance from the start of a tier to an `int` before it divides.
Only the last tier holds distances that do not fit, and there a latency of more than half an hour
can come out in a bucket, or below all of them.

* `bucketLowerBoundUs`, `bucketUpperBoundUs` — the interval of a bucket.
* `FiledExactly` — a latency is in the bucket whose interval contains it or overflows, and no
  smaller latency is ranked above it.
* **`latency_filed_exactly_iff`** — the intervals are contiguous, and a latency is filed exactly
  when it is below the maximum that is tracked or the narrowed distance is still past the last
  bucket.
-/

namespace Aura

/-- `bucket_upper_bound_us`. -/
def bucketUpperBoundUs (bucket : ℤ) : ℤ :=
  match LATENCY_TIERS.reverse.find? (·.baseBucket ≤ bucket) with
  | some tier => tier.startUs + (bucket - tier.baseBucket + 1) * tier.widthUs
  | none => 0

/-- The lower bound of a bucket, by the same table. -/
def bucketLowerBoundUs (bucket : ℤ) : ℤ :=
  match LATENCY_TIERS.reverse.find? (·.baseBucket ≤ bucket) with
  | some tier => tier.startUs + (bucket - tier.baseBucket) * tier.widthUs
  | none => 0

/-- What is said of the bucket of a latency: it is the overflow exactly from the maximum on, else a
bucket whose interval contains the latency, and a smaller latency has no higher class. -/
structure FiledExactly (latencyUs : Int64) : Prop where
  overflow : latencyUsToBucket latencyUs.toInt = -1 ↔ LATENCY_TIERED_MAX_US ≤ latencyUs.toInt
  bucket : latencyUs.toInt < LATENCY_TIERED_MAX_US →
    0 ≤ latencyUsToBucket latencyUs.toInt ∧
    latencyUsToBucket latencyUs.toInt < LATENCY_BUCKET_COUNT ∧
    bucketLowerBoundUs (latencyUsToBucket latencyUs.toInt) ≤ max 0 latencyUs.toInt ∧
    max 0 latencyUs.toInt < bucketUpperBoundUs (latencyUsToBucket latencyUs.toInt)
  monotone : ∀ smaller : Int64, smaller ≤ latencyUs →
    latencyClass smaller.toInt ≤ latencyClass latencyUs.toInt

/-! ## The intervals -/

theorem bucketUpperBoundUs_eq {b : ℤ} (hb : 0 ≤ b) : bucketUpperBoundUs b =
    if 240 ≤ b then 20000 + (b - 240 + 1) * 1000
    else if 180 ≤ b then 5000 + (b - 180 + 1) * 250
    else if 100 ≤ b then 1000 + (b - 100 + 1) * 50
    else 0 + (b - 0 + 1) * 10 := by
  unfold bucketUpperBoundUs
  rw [tier_of (f := LatencyTier.baseBucket) hb]
  dsimp only
  split_ifs <;> rfl

theorem bucketLowerBoundUs_eq {b : ℤ} (hb : 0 ≤ b) : bucketLowerBoundUs b =
    if 240 ≤ b then 20000 + (b - 240) * 1000
    else if 180 ≤ b then 5000 + (b - 180) * 250
    else if 100 ≤ b then 1000 + (b - 100) * 50
    else 0 + (b - 0) * 10 := by
  unfold bucketLowerBoundUs
  rw [tier_of (f := LatencyTier.baseBucket) hb]
  dsimp only
  split_ifs <;> rfl

/-- Each bucket ends where the next one begins, also between two tiers. -/
theorem bucket_contiguous {b : ℤ} (hb : 0 ≤ b) :
    bucketUpperBoundUs b = bucketLowerBoundUs (b + 1) := by
  rw [bucketUpperBoundUs_eq hb, bucketLowerBoundUs_eq (by omega)]
  split_ifs <;> omega

/-! ## The bucket of a latency -/

/-- A latency from the last tier on, however long. -/
theorem latencyUsToBucket_last {x : ℤ} (hx : 20000 ≤ x) : latencyUsToBucket x =
    if 80 ≤ Int.tdiv (toInt32 (x - 20000)) 1000 then -1
    else 240 + Int.tdiv (toInt32 (x - 20000)) 1000 := by
  unfold latencyUsToBucket
  dsimp only
  rw [if_neg (show ¬ x < 0 by omega),
    tier_of (f := LatencyTier.startUs) (show (0 : ℤ) ≤ x by omega)]
  dsimp only
  rw [if_pos hx]

/-- Division by a thousand towards zero, as far as it matters. -/
theorem tdiv_thousand (a : ℤ) : (80 ≤ Int.tdiv a 1000 ↔ 80000 ≤ a) ∧
    (Int.tdiv a 1000 = -241 ↔ -242000 < a ∧ a ≤ -241000) := by
  rcases le_total 0 a with h | h
  · rw [Int.tdiv_eq_ediv_of_nonneg h]
    omega
  · have hneg : Int.tdiv a 1000 = -(-a / 1000) := by
      rw [← neg_neg a, Int.neg_tdiv, Int.tdiv_eq_ediv_of_nonneg (by omega), neg_neg]
    omega

/-- Every class is one of the buckets or the overflow. -/
theorem latencyClass_le_count (x : ℤ) : latencyClass x ≤ LATENCY_BUCKET_COUNT := by
  rcases lt_or_ge x 20000 with hx | hx
  · exact latencyClass_le (by omega)
  · have hcount : LATENCY_BUCKET_COUNT = 320 := rfl
    unfold latencyClass
    rw [latencyUsToBucket_last hx]
    split_ifs <;> omega

/-- Below the maximum a latency is in the bucket whose interval contains it. -/
theorem bucket_contains {x : ℤ} (hx : x < 100000) :
    0 ≤ latencyUsToBucket x ∧ latencyUsToBucket x < 320 ∧
      bucketLowerBoundUs (latencyUsToBucket x) ≤ max 0 x ∧
      max 0 x < bucketUpperBoundUs (latencyUsToBucket x) := by
  have hbucket := latencyUsToBucket_eq (show x < 2 ^ 31 by omega)
  rw [if_neg (by omega)] at hbucket
  have hnonneg : 0 ≤ latencyUsToBucket x := by split_ifs at hbucket <;> omega
  rw [bucketLowerBoundUs_eq hnonneg, bucketUpperBoundUs_eq hnonneg]
  refine ⟨hnonneg, ?_, ?_, ?_⟩ <;> split_ifs at hbucket ⊢ <;> omega

/-- Is a latency past the maximum still past it after the narrowing? Either the narrowed distance is
past the last bucket, or it is negative and happens to be counted down to the overflow. -/
def NarrowedOverflows (x : ℤ) : Prop :=
  80000 ≤ toInt32 (x - 20000) ∨ -242000 < toInt32 (x - 20000) ∧ toInt32 (x - 20000) ≤ -241000

instance (x : ℤ) : Decidable (NarrowedOverflows x) := inferInstanceAs (Decidable (_ ∨ _ ∧ _))

/-- Past the maximum a latency overflows when the narrowed distance says so. -/
theorem overflow_iff {x : ℤ} (hx : 100000 ≤ x) :
    latencyUsToBucket x = -1 ↔ NarrowedOverflows x := by
  obtain ⟨hlast, hdown⟩ := tdiv_thousand (toInt32 (x - 20000))
  rw [latencyUsToBucket_last (by omega), NarrowedOverflows, ← hlast, ← hdown]
  split_ifs with h
  · exact iff_of_true rfl (.inl h)
  · constructor
    · intro heq
      exact .inr (by omega)
    · rintro (h' | h')
      · exact absurd h' h
      · omega

/-- **A latency is filed exactly** when it is below the maximum that is tracked, or its narrowed
distance from the last tier overflows. The intervals of the buckets are contiguous, from zero to the
maximum. -/
theorem latency_filed_exactly_iff (x : Int64) :
    (bucketLowerBoundUs 0 = 0 ∧
      bucketUpperBoundUs (LATENCY_BUCKET_COUNT - 1) = LATENCY_TIERED_MAX_US ∧
      ∀ b : ℤ, 0 ≤ b → bucketUpperBoundUs b = bucketLowerBoundUs (b + 1)) ∧
    (FiledExactly x ↔ x.toInt < LATENCY_TIERED_MAX_US ∨ NarrowedOverflows x.toInt) := by
  refine ⟨⟨by decide, by decide, fun b hb => bucket_contiguous hb⟩, ?_⟩
  change _ ↔ x.toInt < 100000 ∨ _
  constructor
  · intro h
    rcases lt_or_ge x.toInt 100000 with hx | hx
    · exact .inl hx
    · exact .inr ((overflow_iff hx).mp (h.overflow.mpr hx))
  · intro h
    rcases lt_or_ge x.toInt 100000 with hx | hx
    · refine ⟨?_, fun _ => bucket_contains hx, fun y hy => ?_⟩
      · refine iff_of_false (fun heq => ?_) (not_le.mpr hx)
        have := (bucket_contains hx).1
        omega
      · exact latencyClass_mono (by omega) (Int64.le_iff_toInt_le.mp hy)
    · have hover := (overflow_iff hx).mpr (h.resolve_left (not_lt.mpr hx))
      refine ⟨iff_of_true hover hx, fun hlt => absurd hx (not_le.mpr hlt), fun y _ => ?_⟩
      have htop : latencyClass x.toInt = LATENCY_BUCKET_COUNT := by
        rw [latencyClass, if_pos (by omega)]
      rw [htop]
      exact latencyClass_le_count y.toInt

/-- A stall of more than an hour is filed as one of twenty milliseconds. -/
theorem hour_filed_low : ¬ FiledExactly 4294987296 ∧
    latencyUsToBucket (4294987296 : Int64).toInt = 240 := by
  have hbucket : latencyUsToBucket (4294987296 : Int64).toInt = 240 := by decide
  refine ⟨fun h => ?_, hbucket⟩
  have hover := h.overflow.mpr (by decide)
  omega

end Aura
