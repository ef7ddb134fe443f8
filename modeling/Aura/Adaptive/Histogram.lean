import Mathlib.Data.Multiset.MapFold
import Mathlib.Data.Rat.Defs
import Mathlib.Algebra.Order.Ring.Rat

/-!
# Latency histograms

The histogram of `adaptive_engine.c` with its four tiers, and the double-buffered pair of two of
them that the completion path records into and the tick swaps.

* `Histogram.p99` — the percentile estimate, over the rationals, in milliseconds.
* `HistPair` — the pair; `pendingReset` names the histogram that the next tick clears.
* `Histogram.ofMultiset` — the abstract view: the histogram of a multiset of latencies.
-/

namespace Aura

/-! ## Tiers -/

/-- `LATENCY_BUCKET_COUNT`. -/
abbrev LATENCY_BUCKET_COUNT : ℕ := 320
/-- `LATENCY_TIERED_MAX_US`. -/
abbrev LATENCY_TIERED_MAX_US : ℤ := 100000

/-- `latency_tier_t`. -/
structure LatencyTier where
  startUs : ℤ
  widthUs : ℤ
  bucketCount : ℤ
  baseBucket : ℤ
deriving DecidableEq, Repr

/-- `LATENCY_TIERS`. -/
def LATENCY_TIERS : List LatencyTier :=
  [⟨0, 10, 100, 0⟩, ⟨1000, 50, 80, 100⟩, ⟨5000, 250, 60, 180⟩, ⟨20000, 1000, 80, 240⟩]

/-- A conversion to `int`. -/
def toInt32 (x : ℤ) : ℤ := (BitVec.ofInt 32 x).toInt

theorem toInt32_of_lt {x : ℤ} (h₀ : 0 ≤ x) (hx : x < 2 ^ 31) : toInt32 x = x := by
  unfold toInt32
  rw [BitVec.toInt_ofInt]
  exact Int.bmod_eq_of_le (by omega) (by omega)

/-- `latency_us_to_bucket`: the tiers are scanned from the last one; `-1` is the overflow. -/
def latencyUsToBucket (latencyUs : ℤ) : ℤ :=
  let us := if latencyUs < 0 then 0 else latencyUs
  match LATENCY_TIERS.reverse.find? (·.startUs ≤ us) with
  | some tier =>
      let offset := Int.tdiv (toInt32 (us - tier.startUs)) tier.widthUs
      if tier.bucketCount ≤ offset then -1 else tier.baseBucket + offset
  | none => 0

/-- `bucket_to_midpoint_us`. -/
def bucketToMidpointUs (bucket : ℤ) : ℚ :=
  match LATENCY_TIERS.reverse.find? (·.baseBucket ≤ bucket) with
  | some tier => tier.startUs + ((bucket - tier.baseBucket : ℤ) + 1 / 2) * tier.widthUs
  | none => 0

/-! ## The histogram -/

/-- `adaptive_histogram_t`. -/
@[ext] structure Histogram where
  buckets : ℕ → UInt32
  overflow : UInt32
  totalCount : UInt64

namespace Histogram

/-- What `adaptive_hist_reset` leaves, and `adaptive_hist_pair_init` starts with. -/
def empty : Histogram where
  buckets _ := 0
  overflow := 0
  totalCount := 0

/-- One more sample in bucket `i`. -/
def bump (buckets : ℕ → UInt32) (i : ℕ) : ℕ → UInt32 := Function.update buckets i (buckets i + 1)

/-- `adaptive_hist_record`. -/
def record (h : Histogram) (latencyUs : ℤ) : Histogram :=
  if latencyUsToBucket latencyUs < 0 then
    { h with overflow := h.overflow + 1, totalCount := h.totalCount + 1 }
  else
    { h with
      buckets := bump h.buckets (latencyUsToBucket latencyUs).toNat
      totalCount := h.totalCount + 1 }

/-- The rank that `adaptive_hist_p99` looks for, counted from the highest sample. -/
def target (total : ℕ) : ℕ :=
  let t := if 100 ≤ total then total / 100 % 2 ^ 32 else (total + 19) / 20
  if t = 0 then 1 else t

/-- The loop of `adaptive_hist_p99` over the buckets `n - 1`, …, `0`, with `count` samples above. -/
def scan (h : Histogram) (target : ℕ) : ℕ → ℕ → ℚ
  | 0, _ => -1
  | n + 1, count =>
      if target ≤ count + (h.buckets n).toNat then bucketToMidpointUs n / 1000
      else h.scan target n (count + (h.buckets n).toNat)

/-- `adaptive_hist_p99`, in milliseconds; `-1` without data. -/
def p99 (h : Histogram) : ℚ :=
  if h.totalCount.toNat = 0 then -1
  else if target h.totalCount.toNat ≤ h.overflow.toNat then LATENCY_TIERED_MAX_US * 2 / 1000
  else h.scan (target h.totalCount.toNat) LATENCY_BUCKET_COUNT h.overflow.toNat

theorem bump_comm (buckets : ℕ → UInt32) (i j : ℕ) :
    bump (bump buckets i) j = bump (bump buckets j) i := by
  by_cases hij : i = j
  · rw [hij]
  · unfold bump
    rw [Function.update_of_ne (Ne.symm hij), Function.update_of_ne hij,
      Function.update_comm (Ne.symm hij)]

/-- The order in which two latencies are recorded does not matter. -/
theorem record_comm (h : Histogram) (a b : ℤ) : (h.record a).record b = (h.record b).record a := by
  unfold record
  by_cases ha : latencyUsToBucket a < 0 <;> by_cases hb : latencyUsToBucket b < 0
  · simp only [ha, hb, if_true]
  · simp only [ha, hb, if_true, if_false]
  · simp only [ha, hb, if_true, if_false]
  · simp only [ha, hb, if_false, bump_comm]

instance : RightCommutative record := ⟨record_comm⟩

/-- The histogram of a multiset of latencies. -/
def ofMultiset (m : Multiset ℤ) : Histogram := m.foldl record empty

@[simp] theorem ofMultiset_zero : ofMultiset 0 = empty := rfl

@[simp] theorem ofMultiset_cons (latencyUs : ℤ) (m : Multiset ℤ) :
    ofMultiset (latencyUs ::ₘ m) = (ofMultiset m).record latencyUs := by
  induction m using Quot.inductionOn with
  | _ l =>
      change List.foldl record empty (latencyUs :: l) = (List.foldl record empty l).record latencyUs
      have hswap : ∀ (h : Histogram), List.foldl record (h.record latencyUs) l =
          (List.foldl record h l).record latencyUs := by
        induction l with
        | nil => exact fun _ => rfl
        | cons a l ih => exact fun h => by rw [List.foldl_cons, record_comm, ih]; rfl
      exact hswap empty

/-- The count of a histogram is the number of its samples, as far as 64 bits go. -/
theorem ofMultiset_totalCount (m : Multiset ℤ) :
    (ofMultiset m).totalCount = UInt64.ofNat m.card := by
  induction m using Multiset.induction with
  | empty => rfl
  | cons a m ih =>
      rw [ofMultiset_cons, Multiset.card_cons, UInt64.ofNat_add, ← ih]
      by_cases ha : latencyUsToBucket a < 0 <;> simp only [record, ha, if_true, if_false] <;> rfl

end Histogram

/-! ## The pair -/

/-- `adaptive_histogram_pair_t`. -/
structure HistPair where
  activeIndex : Fin 2 := 0
  histograms : Fin 2 → Histogram := fun _ => .empty
  pendingReset : Option (Fin 2) := none

namespace HistPair

/-- The pair that `adaptive_hist_pair_init` sets up. -/
def cleared : HistPair := {}

variable (p : HistPair)

/-- `adaptive_hist_active`. -/
def active : Histogram := p.histograms p.activeIndex

/-- Record a latency in the active histogram. -/
def record (latencyUs : ℤ) : HistPair :=
  { p with
    histograms := Function.update p.histograms p.activeIndex (p.active.record latencyUs) }

/-- Clear the histogram that awaits it. -/
def resetPending : HistPair :=
  match p.pendingReset with
  | some i => { p with histograms := Function.update p.histograms i .empty, pendingReset := none }
  | none => p

/-- `adaptive_hist_swap`. The histogram that was active before it is the one it returns. -/
def swap : HistPair :=
  { p with activeIndex := p.activeIndex + 1 }

/-- What `tick_swap_and_compute_stats` and `adaptive_reset_to_baseline` do to the pair: clear the
histogram that awaits it, swap, and let the old one await its reset. -/
def rotate : HistPair :=
  { p.resetPending.swap with pendingReset := some p.activeIndex }

end HistPair

end Aura
