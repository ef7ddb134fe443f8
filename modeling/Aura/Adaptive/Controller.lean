import Aura.Adaptive.Histogram
import Mathlib.Algebra.Order.Floor.Ring

/-!
# The adaptive controller

The data of `adaptive_engine.h`: the phases, the sliding windows and the controller, with its
initialisation by `ring_init` and the engine options, and what the completion path and the public
setters do to it. Doubles are rationals; the one that may be `NaN`, the efficiency ratio, is an
option. A ceiling of `NaN` or infinity behaves as none and as one above every p99. Time is in
nanoseconds. -/

namespace Aura

/-! ## Constants -/

/-- `ADAPTIVE_WARMUP_SAMPLES`. -/
abbrev ADAPTIVE_WARMUP_SAMPLES : ℕ := 10
/-- `ADAPTIVE_P99_WINDOW`. -/
abbrev ADAPTIVE_P99_WINDOW : ℕ := 15
/-- `ADAPTIVE_THROUGHPUT_WINDOW`. -/
abbrev ADAPTIVE_THROUGHPUT_WINDOW : ℕ := 25
/-- `ADAPTIVE_BASELINE_WINDOW`. -/
abbrev ADAPTIVE_BASELINE_WINDOW : ℕ := 50
/-- `ADAPTIVE_AIMD_INCREASE`. -/
abbrev ADAPTIVE_AIMD_INCREASE : ℤ := 1
/-- `ADAPTIVE_AIMD_DECREASE`. -/
abbrev ADAPTIVE_AIMD_DECREASE : ℚ := 80 / 100
/-- `ADAPTIVE_ER_EPSILON_RATIO`. -/
abbrev ADAPTIVE_ER_EPSILON_RATIO : ℚ := 1 / 100
/-- `ADAPTIVE_LATENCY_GUARD_MULT`. -/
abbrev ADAPTIVE_LATENCY_GUARD_MULT : ℚ := 10
/-- `ADAPTIVE_LOW_IOPS_MIN_SAMPLES`. -/
abbrev ADAPTIVE_LOW_IOPS_MIN_SAMPLES : ℤ := 20
/-- `ADAPTIVE_MIN_SAMPLE_WINDOW_MS`. -/
abbrev ADAPTIVE_MIN_SAMPLE_WINDOW_MS : ℤ := 100
/-- `ADAPTIVE_MIN_BATCH`. -/
abbrev ADAPTIVE_MIN_BATCH : ℤ := 2
/-- `ADAPTIVE_TARGET_SQE_RATIO`. -/
abbrev ADAPTIVE_TARGET_SQE_RATIO : ℚ := 8
/-- `ADAPTIVE_MAX_BATCH_THRESHOLD`. -/
abbrev ADAPTIVE_MAX_BATCH_THRESHOLD : ℤ := 64
/-- `ADAPTIVE_DEFAULT_LATENCY_GUARD`. -/
abbrev ADAPTIVE_DEFAULT_LATENCY_GUARD : ℚ := 50
/-- `ADAPTIVE_SETTLING_TICKS`. -/
abbrev ADAPTIVE_SETTLING_TICKS : ℕ := 10
/-- `ADAPTIVE_STEADY_THRESHOLD`. -/
abbrev ADAPTIVE_STEADY_THRESHOLD : ℕ := 500
/-- `ADAPTIVE_REPROBE_INTERVAL`. -/
abbrev ADAPTIVE_REPROBE_INTERVAL : ℕ := 100
/-- `AIMD_ENGAGE_TICKS`. -/
abbrev AIMD_ENGAGE_TICKS : ℕ := 8
/-- `AIMD_ENGAGE_PENDING_DELTA`. -/
abbrev AIMD_ENGAGE_PENDING_DELTA : ℤ := 16
/-- `PASSTHROUGH_REENTER_TICKS`. -/
abbrev PASSTHROUGH_REENTER_TICKS : ℕ := 10
/-- `PASSTHROUGH_REENTER_DELTA_MAX`. -/
abbrev PASSTHROUGH_REENTER_DELTA_MAX : ℤ := 2
/-- `INT_MAX`, the batch threshold that turns batching flushes off. -/
abbrev BATCH_OFF : ℤ := 2 ^ 31 - 1
/-- `DEFAULT_QUEUE_DEPTH`. -/
abbrev DEFAULT_QUEUE_DEPTH : ℤ := 1024

/-! ## Sliding windows -/

/-- A sliding window with its head and its count. -/
structure Window where
  slots : List ℚ
  head : ℕ := 0
  count : ℕ := 0
deriving DecidableEq

namespace Window

/-- A zeroed window. -/
def zeroed (size : ℕ) : Window where
  slots := List.replicate size 0

/-- `window_add`. -/
def add (w : Window) (maxSize : ℕ) (value : ℚ) : Window where
  slots := w.slots.set w.head value
  head := (w.head + 1) % maxSize
  count := if w.count < maxSize then w.count + 1 else w.count

/-- `window_min`. -/
def minimum (w : Window) : ℚ :=
  match w.slots.take w.count with
  | [] => 0
  | v :: vs => vs.foldl (fun m v => if v < m then v else m) v

/-- The head and the count set back to zero; the slots keep their values. -/
def clear (w : Window) : Window := { w with head := 0, count := 0 }

end Window

/-! ## The controller -/

/-- `adaptive_phase_t`. -/
inductive Phase
  | baseline | probing | steady | backoff | settling | converged | passthrough
deriving DecidableEq, Repr

/-- `adaptive_controller_t`, without the guard against concurrent ticks. -/
structure Controller where
  currentInFlightLimit : ℤ
  currentBatchThreshold : ℤ := ADAPTIVE_MIN_BATCH
  submitCalls : UInt32 := 0
  sqesSubmitted : UInt32 := 0
  sampleStartNs : ℤ
  sampleBytes : UInt64 := 0
  currentP99Ms : ℚ := 0
  currentThroughputBps : ℚ := 0
  phase : Phase := .passthrough
  passthroughMode : Bool := true
  maxQueueDepth : ℤ
  minInFlight : ℤ
  aimdInitialInFlight : ℤ
  prevInFlightLimit : ℤ := 0
  baselineP99Ms : ℚ := 0
  latencyRiseThreshold : ℚ := 0
  maxP99Ms : ℚ := 0
  prevThroughputBps : ℚ := 0
  warmupCount : ℕ := 0
  plateauCount : ℕ := 0
  steadyCount : ℕ := 0
  spikeCount : ℕ := 0
  settlingTimer : ℕ := 0
  enteredViaBackoff : Bool := false
  passthroughQualifyCount : ℕ := 0
  pressureQualifyCount : ℕ := 0
  prevPendingSnapshot : ℤ := 0
  batchThresholdFixed : Bool := false
  p99Window : Window := .zeroed ADAPTIVE_P99_WINDOW
  throughputWindow : Window := .zeroed ADAPTIVE_THROUGHPUT_WINDOW
  baselineWindow : Window := .zeroed ADAPTIVE_BASELINE_WINDOW
  histPair : HistPair := .cleared

/-- `adaptive_init`: a controller starts in passthrough, with the limit at its maximum. -/
def adaptiveInit (maxQueueDepth initialInflight minInflight now : ℤ) : Option Controller :=
  if maxQueueDepth < 1 ∨ initialInflight < 1 then none
  else some
    { currentInFlightLimit := maxQueueDepth
      sampleStartNs := now
      maxQueueDepth
      minInFlight := if minInflight < 1 then 4 else minInflight
      aimdInitialInFlight := initialInflight }

/-- The controller that `ring_init` sets up. -/
def ringInitAdaptive (queueDepth now : ℤ) : Option Controller :=
  let initial := Int.tdiv queueDepth 4
  let initial := if initial < 4 then 4 else initial
  let initial := if initial > queueDepth then queueDepth else initial
  adaptiveInit queueDepth initial 4 now

/-! ## Options -/

/-- The options of `aura_options_t` that tune the controller. -/
structure TuningOptions where
  queueDepth : ℤ := DEFAULT_QUEUE_DEPTH
  initialInFlight : ℤ := 0
  minInFlight : ℤ := 4
  maxP99LatencyMs : ℚ := 0
  batchThreshold : ℤ := -1

namespace TuningOptions

variable (o : TuningOptions)

/-- The engine's queue depth. -/
def depth : ℤ := if o.queueDepth > 0 then o.queueDepth else DEFAULT_QUEUE_DEPTH

/-- The checks of `aura_create_with_options` on these options. -/
def valid : Bool :=
  !(o.queueDepth < 0 || o.queueDepth > 32768 || (o.queueDepth > 0 && o.queueDepth < 4)) &&
  !(o.minInFlight ≠ 0 && (o.minInFlight < 1 || o.minInFlight > o.depth)) &&
  !(o.initialInFlight ≠ 0 &&
    (o.initialInFlight < (if o.minInFlight > 0 then o.minInFlight else 4) ||
      o.initialInFlight > o.depth))

/-- What `init_engine_rings` sets in the controller of a ring. -/
def apply (c : Controller) : Controller :=
  { c with
    aimdInitialInFlight :=
      if o.initialInFlight > 0 then o.initialInFlight else c.aimdInitialInFlight
    minInFlight := if o.minInFlight > 0 then o.minInFlight else c.minInFlight
    maxP99Ms := if o.maxP99LatencyMs > 0 then o.maxP99LatencyMs else c.maxP99Ms
    currentBatchThreshold :=
      if o.batchThreshold = 0 then BATCH_OFF
      else if o.batchThreshold > 0 then o.batchThreshold
      else c.currentBatchThreshold
    batchThresholdFixed := if o.batchThreshold ≥ 0 then true else c.batchThresholdFixed }

/-- The controller of a new engine's ring; `none` when the options are rejected. -/
def controller (now : ℤ) : Option Controller :=
  if o.valid then (ringInitAdaptive o.depth now).map o.apply else none

end TuningOptions

/-! ## Recording -/

namespace Controller

/-- `adaptive_record_completion`. -/
def recordCompletion (c : Controller) (latencyNs : ℤ) (bytes : UInt64) : Controller :=
  { c with
    histPair := c.histPair.record (Int.tdiv latencyNs 1000)
    sampleBytes := c.sampleBytes + bytes }

/-- `adaptive_record_submit`. -/
def recordSubmit (c : Controller) (sqeCount : ℤ) : Controller :=
  if sqeCount ≤ 0 then c
  else
    { c with
      submitCalls := c.submitCalls + 1
      sqesSubmitted := c.sqesSubmitted + UInt32.ofInt sqeCount }

/-! ## The public setters -/

/-- `aura_set_max_p99_latency`, for one ring. -/
def setMaxP99Latency (c : Controller) (latencyMs : ℚ) : Controller :=
  if latencyMs < 0 then c else { c with maxP99Ms := latencyMs }

/-- `aura_set_min_in_flight`, for one ring; the engine's queue depth is the ring's. -/
def setMinInFlight (c : Controller) (minInFlight : ℤ) : Controller :=
  if minInFlight < 1 ∨ minInFlight > c.maxQueueDepth then c else { c with minInFlight }

/-- `aura_set_batch_threshold`, for one ring. -/
def setBatchThreshold (c : Controller) (threshold : ℤ) : Controller :=
  if threshold < -1 then c
  else if threshold = -1 then { c with batchThresholdFixed := false }
  else if threshold = 0 then
    { c with currentBatchThreshold := BATCH_OFF, batchThresholdFixed := true }
  else { c with currentBatchThreshold := threshold, batchThresholdFixed := true }

end Controller

end Aura
