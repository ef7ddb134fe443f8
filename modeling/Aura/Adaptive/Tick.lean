import Aura.Adaptive.Controller
import Mathlib.Data.Rat.Floor

/-!
# The tick

`adaptive_tick` with the statistics it computes from a histogram swap, the batch optimizer and the
handlers of the six AIMD phases. In passthrough a tick only watches for pressure
(`Controller.passthroughTick`); otherwise it runs the state machine (`Controller.aimdTick`).

A handler returns the new controller and whether parameters changed, as in the source.
-/

namespace Aura

/-- `tick_stats_t`. The efficiency ratio is `none` for `NaN`. -/
structure TickStats where
  sampleCount : ℕ
  p99Ms : ℚ
  throughputBps : ℚ
  sqeRatio : ℚ
  latencyGuardMs : ℚ
  elapsedNs : ℤ
  haveValidP99 : Bool
  latencyRising : Bool
  efficiencyRatio : Option ℚ
  deltaInflight : ℤ
deriving DecidableEq

/-- The readings of the clock in one tick: at its start and, as far as they are made, later ones. -/
structure TickClock where
  now : ℤ
  later : ℤ
  latest : ℤ
deriving DecidableEq

/-- What a tick returns: the controller and whether parameters changed. `stats` holds the statistics
it computed, if it swapped the histograms for them, and `processed` is false for a skipped tick. -/
structure TickResult where
  ctrl : Controller
  changed : Bool
  stats : Option TickStats := none
  processed : Bool := true

namespace Controller

variable (c : Controller)

/-! ## Statistics -/

/-- What a swap reads, before the windows see it. -/
structure Sample where
  count : ℕ
  p99Ms : ℚ
  throughputBps : ℚ
  sqeRatio : ℚ

/-- The sample of the period that a swap ends, from the histogram that is active once the one that
awaits it has been reset. -/
def sample (elapsedNs : ℤ) : Sample where
  count := c.histPair.resetPending.active.totalCount.toNat % 2 ^ 32
  p99Ms := c.histPair.resetPending.active.p99
  throughputBps := c.sampleBytes.toNat / (elapsedNs / 10 ^ 9 : ℚ)
  sqeRatio := if c.submitCalls > 0 then c.sqesSubmitted.toNat / (c.submitCalls.toNat : ℚ) else 0

/-- Swap the histograms and start a new period. -/
def takeSample (s : Sample) : Controller :=
  { c with
    histPair := c.histPair.rotate
    sampleBytes := 0
    submitCalls := 0
    sqesSubmitted := 0
    currentThroughputBps := s.throughputBps
    currentP99Ms := if 0 ≤ s.p99Ms then s.p99Ms else -1 }

/-- Does a p99 enter the baseline window? -/
def baselineOpen : Bool :=
  c.phase ≠ .backoff && !(c.phase = .settling && c.enteredViaBackoff)

/-- Update the sliding windows. -/
def addToWindows (s : Sample) : Controller :=
  { c with
    p99Window := if 0 ≤ s.p99Ms then c.p99Window.add ADAPTIVE_P99_WINDOW s.p99Ms else c.p99Window
    baselineWindow :=
      if 0 ≤ s.p99Ms ∧ c.baselineOpen then c.baselineWindow.add ADAPTIVE_BASELINE_WINDOW s.p99Ms
      else c.baselineWindow
    throughputWindow := c.throughputWindow.add ADAPTIVE_THROUGHPUT_WINDOW s.throughputBps }

/-- Update the baseline, the minimum of its window. -/
def updateBaseline : Controller :=
  { c with
    baselineP99Ms :=
      if c.baselineWindow.count > 0 then c.baselineWindow.minimum else c.baselineP99Ms }

/-- The latency guard. -/
def latencyGuardMs : ℚ :=
  if c.maxP99Ms > 0 then c.maxP99Ms
  else if c.baselineP99Ms > 0 then c.baselineP99Ms * ADAPTIVE_LATENCY_GUARD_MULT
  else ADAPTIVE_DEFAULT_LATENCY_GUARD

/-- The limit has changed since the previous tick saved it. -/
def limitMoved : Bool :=
  c.prevInFlightLimit > 0 && c.currentInFlightLimit ≠ c.prevInFlightLimit

/-- The change of the limit since the previous tick. -/
def deltaInflight : ℤ :=
  if c.limitMoved then c.currentInFlightLimit - c.prevInFlightLimit else 0

/-- The efficiency ratio: only a limit that rose has one. -/
def efficiencyRatio (throughputBps : ℚ) : Option ℚ :=
  if 0 < c.deltaInflight then some ((throughputBps - c.prevThroughputBps) / c.deltaInflight)
  else none

/-- The controller after a swap and its bookkeeping. -/
def afterSwap (elapsedNs : ℤ) : Controller :=
  let s := c.sample elapsedNs
  let c := ((c.takeSample s).addToWindows s).updateBaseline
  { c with latencyRiseThreshold := c.latencyGuardMs }

/-- The statistics of a swap. -/
def statsOf (elapsedNs : ℤ) : TickStats :=
  let s := c.sample elapsedNs
  let guard := (c.afterSwap elapsedNs).latencyGuardMs
  let valid := decide (ADAPTIVE_LOW_IOPS_MIN_SAMPLES ≤ s.count) && decide (0 ≤ s.p99Ms)
  { sampleCount := s.count
    p99Ms := s.p99Ms
    throughputBps := s.throughputBps
    sqeRatio := s.sqeRatio
    latencyGuardMs := guard
    elapsedNs
    haveValidP99 := valid
    latencyRising := valid && decide (guard ≤ s.p99Ms)
    efficiencyRatio := c.efficiencyRatio s.throughputBps
    deltaInflight := c.deltaInflight }

/-- `tick_swap_and_compute_stats`. -/
def tickSwapAndComputeStats (elapsedNs : ℤ) : TickStats × Controller :=
  let elapsed := if elapsedNs ≤ 0 then 1 else elapsedNs
  (c.statsOf elapsed, c.afterSwap elapsed)

/-! ## The state machine -/

/-- `check_spike_backoff`. -/
def checkSpikeBackoff (s : TickStats) : Bool × Controller :=
  if s.latencyRising then
    if c.spikeCount + 1 ≥ 2 then (true, { c with phase := .backoff, spikeCount := 0 })
    else (false, { c with spikeCount := c.spikeCount + 1 })
  else (false, { c with spikeCount := 0 })

/-- `aimd_increase`. -/
def aimdIncrease : Bool × Controller :=
  if c.currentInFlightLimit < c.maxQueueDepth then
    let limit := c.currentInFlightLimit + ADAPTIVE_AIMD_INCREASE
    (true, { c with
      currentInFlightLimit := if limit > c.maxQueueDepth then c.maxQueueDepth else limit })
  else (false, c)

/-- `handle_baseline_phase`. -/
def handleBaselinePhase (s : TickStats) : Bool × Controller :=
  let c := { c with warmupCount := c.warmupCount + 1 }
  if c.warmupCount ≥ ADAPTIVE_WARMUP_SAMPLES then
    (false, { c with
      phase := .probing
      prevThroughputBps := s.throughputBps
      prevInFlightLimit := c.currentInFlightLimit })
  else (false, c)

/-- The least gain per unit of limit that counts as an improvement. -/
def erThreshold (s : TickStats) : ℚ :=
  if s.throughputBps > 0 ∧ s.deltaInflight ≠ 0 then
    s.throughputBps * ADAPTIVE_ER_EPSILON_RATIO / |(s.deltaInflight : ℚ)|
  else 0

/-- Increase the limit and forget the plateau. -/
def keepProbing : Bool × Controller :=
  ((c.aimdIncrease).1, { (c.aimdIncrease).2 with plateauCount := 0 })

/-- One more plateau tick; the third leaves the phase. -/
def countPlateau : Controller :=
  let c := { c with plateauCount := c.plateauCount + 1 }
  if c.plateauCount ≥ 3 then
    { c with enteredViaBackoff := false, spikeCount := 0, phase := .settling, settlingTimer := 0 }
  else c

/-- `handle_probing_phase` after the checks for spikes and for an empty sample. Without an
efficiency ratio a limit that cannot rise is counted as a plateau, but the count is not looked at.
-/
def probe (s : TickStats) : Bool × Controller :=
  match s.efficiencyRatio with
  | none =>
      if (c.aimdIncrease).1 then (true, { (c.aimdIncrease).2 with plateauCount := 0 })
      else (false, { c with plateauCount := c.plateauCount + 1 })
  | some ratio =>
      if ratio > erThreshold s then c.keepProbing
      else if c.maxP99Ms > 0 ∧ s.haveValidP99 ∧ s.p99Ms < c.maxP99Ms then c.keepProbing
      else (false, c.countPlateau)

/-- `handle_probing_phase`. -/
def handleProbingPhase (s : TickStats) : Bool × Controller :=
  let (backedOff, c) := c.checkSpikeBackoff s
  if backedOff then (false, c)
  else if s.sampleCount = 0 then (false, c)
  else c.probe s

/-- `handle_settling_phase`. -/
def handleSettlingPhase (s : TickStats) : Bool × Controller :=
  if s.latencyRising then
    (false, { c with
      enteredViaBackoff := true, phase := .backoff, settlingTimer := 0, spikeCount := 0 })
  else
    let c := { c with settlingTimer := c.settlingTimer + 1 }
    if c.settlingTimer ≥ ADAPTIVE_SETTLING_TICKS then
      (false, { c with phase := .steady, steadyCount := 0 })
    else (false, c)

/-- `handle_steady_phase` after the check for spikes. -/
def holdSteady : Controller :=
  if c.enteredViaBackoff ∧ c.steadyCount ≥ ADAPTIVE_REPROBE_INTERVAL then
    { c with phase := .probing, enteredViaBackoff := false, plateauCount := 0 }
  else if ¬ c.enteredViaBackoff ∧ c.steadyCount ≥ ADAPTIVE_STEADY_THRESHOLD then
    { c with phase := .converged }
  else c

/-- `handle_steady_phase`. -/
def handleSteadyPhase (s : TickStats) : Bool × Controller :=
  let c := { c with steadyCount := c.steadyCount + 1 }
  let (backedOff, c) := c.checkSpikeBackoff s
  if backedOff then (false, { c with steadyCount := 0 }) else (false, c.holdSteady)

/-- `handle_backoff_phase`. -/
def handleBackoffPhase : Bool × Controller :=
  let reduced := ⌊(c.currentInFlightLimit : ℚ) * ADAPTIVE_AIMD_DECREASE⌋
  (true, { c with
    currentInFlightLimit := if reduced > c.minInFlight then reduced else c.minInFlight
    plateauCount := 0
    enteredViaBackoff := true
    phase := .settling
    settlingTimer := 0 })

/-- `handle_converged_phase`. -/
def handleConvergedPhase (s : TickStats) : Bool × Controller :=
  let (backedOff, c) := c.checkSpikeBackoff s
  (false, if backedOff then { c with steadyCount := 0 } else c)

/-- The switch of `adaptive_tick` over the phases. -/
def runPhase (s : TickStats) : Bool × Controller :=
  match c.phase with
  | .baseline => c.handleBaselinePhase s
  | .probing => c.handleProbingPhase s
  | .settling => c.handleSettlingPhase s
  | .steady => c.handleSteadyPhase s
  | .backoff => c.handleBackoffPhase
  | .converged => c.handleConvergedPhase s
  | .passthrough => (false, c)

/-! ## Leaving and entering passthrough -/

/-- The limit that AIMD starts from. -/
def initialLimit : ℤ :=
  let initial :=
    if c.aimdInitialInFlight > 0 then c.aimdInitialInFlight else Int.tdiv c.maxQueueDepth 2
  if initial < c.minInFlight then c.minInFlight else initial

/-- `adaptive_reset_to_baseline`. -/
def resetToBaseline (now : ℤ) : Controller :=
  { c with
    phase := .baseline
    currentInFlightLimit := c.initialLimit
    warmupCount := 0
    plateauCount := 0
    steadyCount := 0
    spikeCount := 0
    settlingTimer := 0
    enteredViaBackoff := false
    passthroughQualifyCount := 0
    p99Window := c.p99Window.clear
    throughputWindow := c.throughputWindow.clear
    baselineWindow := c.baselineWindow.clear
    baselineP99Ms := 0
    prevThroughputBps := 0
    prevInFlightLimit := 0
    histPair := c.histPair.rotate
    sampleStartNs := now
    sampleBytes := 0
    submitCalls := 0
    sqesSubmitted := 0 }

/-- The pressure count of a passthrough tick; when it is high enough, AIMD engages. -/
def countPressure (pressure : Bool) (now : ℤ) : Bool × Controller :=
  if pressure then
    let c := { c with pressureQualifyCount := c.pressureQualifyCount + 1 }
    if c.pressureQualifyCount ≥ AIMD_ENGAGE_TICKS then
      let c := { c with passthroughMode := false }.resetToBaseline now
      (true, { c with pressureQualifyCount := 0 })
    else (false, c)
  else (false, { c with pressureQualifyCount := 0 })

/-- A processed tick in passthrough. -/
def passthroughTick (pendingDelta elapsedNs : ℤ) (t : TickClock) : TickResult :=
  if pendingDelta > AIMD_ENGAGE_PENDING_DELTA then
    let (changed, c) := c.countPressure true t.later
    { ctrl := c, changed }
  else if c.maxP99Ms > 0 then
    let (stats, c) := c.tickSwapAndComputeStats elapsedNs
    let pressure := stats.haveValidP99 && stats.p99Ms > c.maxP99Ms
    let c := { c with sampleStartNs := t.later }
    let (changed, c) := c.countPressure pressure t.latest
    { ctrl := c, changed, stats := some stats }
  else
    let (changed, c) := c.countPressure false t.later
    { ctrl := c, changed }

/-- The check for re-entry at the end of a tick. -/
def checkReentry (pendingDelta : ℤ) : Bool × Controller :=
  if c.phase = .converged then
    if |pendingDelta| ≤ PASSTHROUGH_REENTER_DELTA_MAX then
      let c := { c with passthroughQualifyCount := c.passthroughQualifyCount + 1 }
      if c.passthroughQualifyCount ≥ PASSTHROUGH_REENTER_TICKS then
        (true, { c with
          passthroughMode := true
          phase := .passthrough
          currentInFlightLimit := c.maxQueueDepth
          passthroughQualifyCount := 0 })
      else (false, c)
    else (false, { c with passthroughQualifyCount := 0 })
  else (false, c)

/-! ## The batch optimizer -/

/-- The inner loop of `adaptive_tick`. -/
def optimizeBatch (s : TickStats) : Bool × Controller :=
  if !c.batchThresholdFixed && s.sqeRatio > 0 then
    if s.sqeRatio < ADAPTIVE_TARGET_SQE_RATIO ∧
        c.currentBatchThreshold < ADAPTIVE_MAX_BATCH_THRESHOLD then
      (true, { c with currentBatchThreshold := c.currentBatchThreshold + 1 })
    else if s.sqeRatio > ADAPTIVE_TARGET_SQE_RATIO * (3 / 2) ∧
        c.currentBatchThreshold > ADAPTIVE_MIN_BATCH then
      (true, { c with currentBatchThreshold := c.currentBatchThreshold - 1 })
    else (false, c)
  else (false, c)

/-! ## The whole tick -/

/-- What the next tick measures the effect of this one against. -/
def savePrevious (s : TickStats) : Controller :=
  { c with prevThroughputBps := s.throughputBps, prevInFlightLimit := c.currentInFlightLimit }

/-- A processed tick outside passthrough. -/
def aimdTick (pendingDelta elapsedNs : ℤ) (t : TickClock) : TickResult :=
  let (stats, c) := c.tickSwapAndComputeStats elapsedNs
  let (batchChanged, c) := c.optimizeBatch stats
  let (stateChanged, c) := (c.savePrevious stats).runPhase stats
  let (reentered, c) := c.checkReentry pendingDelta
  { ctrl := { c with sampleStartNs := t.later }
    changed := batchChanged || stateChanged || reentered
    stats := some stats }

/-- The elapsed time of a tick. -/
def elapsedNs (t : TickClock) : ℤ :=
  if t.now - c.sampleStartNs < 0 then 0 else t.now - c.sampleStartNs

/-- The start of a tick: after a step back of the clock the counters of the period are reset. -/
def checkClock (t : TickClock) : Controller :=
  if t.now - c.sampleStartNs < 0 then
    { c with sampleStartNs := t.now, sampleBytes := 0, submitCalls := 0, sqesSubmitted := 0 }
  else c

/-- A tick is skipped when there are neither enough samples nor enough time. -/
def skips (t : TickClock) : Bool :=
  !(toInt32 c.histPair.active.totalCount.toNat ≥ ADAPTIVE_LOW_IOPS_MIN_SAMPLES) &&
    !(Int.tdiv (c.elapsedNs t) 1000000 ≥ ADAPTIVE_MIN_SAMPLE_WINDOW_MS)

/-- `adaptive_tick`. -/
def adaptiveTick (pendingCount : ℤ) (t : TickClock) : TickResult :=
  if c.skips t then { ctrl := c.checkClock t, changed := false, processed := false }
  else
    let pendingDelta := pendingCount - c.prevPendingSnapshot
    let c' := { c.checkClock t with prevPendingSnapshot := pendingCount }
    if c'.passthroughMode then c'.passthroughTick pendingDelta (c.elapsedNs t) t
    else c'.aimdTick pendingDelta (c.elapsedNs t) t

end Controller

end Aura
