import Aura.Adaptive.Tick

/-!
# What a tick can do

The inversion lemmas of `adaptive_tick`, from which every invariant of the controller follows.

* `PhaseStep` — one constructor for every way through the phase handlers; `runPhase_step` says that
  there is no other.
* `SameCore` — the changes of a tick around the state machine (the swap, the batch optimizer, …)
  leave the variables of the state machine alone.
-/

namespace Aura

namespace Controller

/-! ## The state machine -/

/-- The spike count `k` after a tick that did not back off. -/
def SpikeCounted (c : Controller) (s : TickStats) (k : ℕ) : Prop :=
  (s.latencyRising = true ∧ c.spikeCount = 0 ∧ k = 1) ∨ (s.latencyRising = false ∧ k = 0)

/-- A way through the handlers of the phases. -/
inductive PhaseStep (c : Controller) (s : TickStats) : Controller → Prop
  | warmUp (h : c.phase = .baseline) : PhaseStep c s { c with warmupCount := c.warmupCount + 1 }
  | startProbing (h : c.phase = .baseline) : PhaseStep c s
      { c with
        warmupCount := c.warmupCount + 1, phase := .probing
        prevThroughputBps := s.throughputBps, prevInFlightLimit := c.currentInFlightLimit }
  | backOff (n : ℕ) (h : c.phase = .probing ∨ c.phase = .steady ∨ c.phase = .converged)
      (hrising : s.latencyRising = true) (hspike : 1 ≤ c.spikeCount) :
      PhaseStep c s { c with phase := .backoff, spikeCount := 0, steadyCount := n }
  | noSamples {k : ℕ} (h : c.phase = .probing) (hk : c.SpikeCounted s k) (hs : s.sampleCount = 0) :
      PhaseStep c s { c with spikeCount := k }
  | increase {k : ℕ} (h : c.phase = .probing) (hk : c.SpikeCounted s k) (hs : s.sampleCount ≠ 0)
      (hlimit : c.currentInFlightLimit < c.maxQueueDepth) : PhaseStep c s
      { c with
        spikeCount := k, currentInFlightLimit := c.currentInFlightLimit + 1, plateauCount := 0 }
  | improveAtMax {k : ℕ} (h : c.phase = .probing) (hk : c.SpikeCounted s k)
      (hs : s.sampleCount ≠ 0) (hratio : s.efficiencyRatio.isSome)
      (hlimit : c.maxQueueDepth ≤ c.currentInFlightLimit) :
      PhaseStep c s { c with spikeCount := k, plateauCount := 0 }
  | stuckAtMax {k : ℕ} (h : c.phase = .probing) (hk : c.SpikeCounted s k) (hs : s.sampleCount ≠ 0)
      (hratio : s.efficiencyRatio = none) (hlimit : c.maxQueueDepth ≤ c.currentInFlightLimit) :
      PhaseStep c s { c with spikeCount := k, plateauCount := c.plateauCount + 1 }
  | plateau {k : ℕ} (h : c.phase = .probing) (hk : c.SpikeCounted s k) (hs : s.sampleCount ≠ 0)
      (hratio : s.efficiencyRatio.isSome) (hcount : c.plateauCount + 1 < 3) :
      PhaseStep c s { c with spikeCount := k, plateauCount := c.plateauCount + 1 }
  | settle (h : c.phase = .probing) (hs : s.sampleCount ≠ 0) (hratio : s.efficiencyRatio.isSome)
      (hcount : 3 ≤ c.plateauCount + 1) : PhaseStep c s
      { c with
        plateauCount := c.plateauCount + 1, enteredViaBackoff := false, spikeCount := 0
        phase := .settling, settlingTimer := 0 }
  | settlingSpike (h : c.phase = .settling) (hrising : s.latencyRising = true) : PhaseStep c s
      { c with enteredViaBackoff := true, phase := .backoff, settlingTimer := 0, spikeCount := 0 }
  | settlingWait (h : c.phase = .settling) (hrising : s.latencyRising = false) :
      PhaseStep c s { c with settlingTimer := c.settlingTimer + 1 }
  | settled (h : c.phase = .settling) (hrising : s.latencyRising = false)
      (htimer : 10 ≤ c.settlingTimer + 1) : PhaseStep c s
      { c with settlingTimer := c.settlingTimer + 1, phase := .steady, steadyCount := 0 }
  | reprobe {k : ℕ} (h : c.phase = .steady) (hk : c.SpikeCounted s k)
      (hvia : c.enteredViaBackoff = true) : PhaseStep c s
      { c with
        steadyCount := c.steadyCount + 1, spikeCount := k, phase := .probing
        enteredViaBackoff := false, plateauCount := 0 }
  | converge {k : ℕ} (h : c.phase = .steady) (hk : c.SpikeCounted s k)
      (hvia : c.enteredViaBackoff = false) : PhaseStep c s
      { c with steadyCount := c.steadyCount + 1, spikeCount := k, phase := .converged }
  | steadyWait {k : ℕ} (h : c.phase = .steady) (hk : c.SpikeCounted s k) :
      PhaseStep c s { c with steadyCount := c.steadyCount + 1, spikeCount := k }
  | decrease (h : c.phase = .backoff) : PhaseStep c s (c.handleBackoffPhase).2
  | convergedWait {k : ℕ} (h : c.phase = .converged) (hk : c.SpikeCounted s k) :
      PhaseStep c s { c with spikeCount := k }

variable {c : Controller} {s : TickStats}

/-- `check_spike_backoff` backs off on the second spike in a row, and counts otherwise. -/
theorem checkSpikeBackoff_cases (c : Controller) (s : TickStats) :
    (s.latencyRising = true ∧ 1 ≤ c.spikeCount ∧
      c.checkSpikeBackoff s = (true, { c with phase := .backoff, spikeCount := 0 })) ∨
    ∃ k, c.SpikeCounted s k ∧ c.checkSpikeBackoff s = (false, { c with spikeCount := k }) := by
  unfold checkSpikeBackoff
  split_ifs with hrising hspike
  · exact .inl ⟨hrising, by omega, rfl⟩
  · refine .inr ⟨1, .inl ⟨hrising, by omega, rfl⟩, ?_⟩
    rw [show c.spikeCount + 1 = 1 by omega]
  · exact .inr ⟨0, .inr ⟨by simpa using hrising, rfl⟩, rfl⟩

/-- `aimd_increase` adds one below the maximum. -/
theorem aimdIncrease_cases (c : Controller) :
    (c.currentInFlightLimit < c.maxQueueDepth ∧ c.aimdIncrease =
      (true, { c with currentInFlightLimit := c.currentInFlightLimit + 1 })) ∨
    (c.maxQueueDepth ≤ c.currentInFlightLimit ∧ c.aimdIncrease = (false, c)) := by
  unfold aimdIncrease
  split_ifs with h
  · refine .inl ⟨h, ?_⟩
    simp only [ADAPTIVE_AIMD_INCREASE]
    rw [if_neg (by omega)]
  · exact .inr ⟨by omega, rfl⟩

/-- The third plateau tick leaves the phase. -/
theorem countPlateau_cases (c : Controller) :
    (c.plateauCount + 1 < 3 ∧ c.countPlateau = { c with plateauCount := c.plateauCount + 1 }) ∨
    (3 ≤ c.plateauCount + 1 ∧ c.countPlateau =
      { c with
        plateauCount := c.plateauCount + 1, enteredViaBackoff := false, spikeCount := 0
        phase := .settling, settlingTimer := 0 }) := by
  by_cases h : 3 ≤ c.plateauCount + 1
  · exact .inr ⟨h, if_pos h⟩
  · exact .inl ⟨by omega, if_neg h⟩

/-- The steps of `handle_probing_phase` once the spike count is `k`. -/
theorem probe_step {k : ℕ} (h : c.phase = .probing) (hk : c.SpikeCounted s k)
    (hs : s.sampleCount ≠ 0) :
    PhaseStep c s (({ c with spikeCount := k } : Controller).probe s).2 := by
  have hkeep (hratio : s.efficiencyRatio.isSome) :
      PhaseStep c s (({ c with spikeCount := k } : Controller).keepProbing).2 := by
    unfold keepProbing
    rcases aimdIncrease_cases { c with spikeCount := k } with ⟨hlt, heq⟩ | ⟨hle, heq⟩
    · rw [heq]
      exact .increase h hk hs hlt
    · rw [heq]
      exact .improveAtMax h hk hs hratio hle
  unfold probe
  cases hratio : s.efficiencyRatio with
  | none =>
      rcases aimdIncrease_cases { c with spikeCount := k } with ⟨hlt, heq⟩ | ⟨hle, heq⟩
      · simp only [heq, if_true]
        exact .increase h hk hs hlt
      · simp only [heq, Bool.false_eq_true, if_false]
        exact .stuckAtMax h hk hs hratio hle
  | some ratio =>
      have hsome : s.efficiencyRatio.isSome := by rw [hratio]; rfl
      simp only
      split_ifs
      · exact hkeep hsome
      · exact hkeep hsome
      · rcases countPlateau_cases { c with spikeCount := k } with ⟨hcount, heq⟩ | ⟨hcount, heq⟩
        · rw [heq]
          exact .plateau h hk hs hsome hcount
        · rw [heq]
          exact .settle h hs hsome hcount

theorem holdSteady_step {k : ℕ} (h : c.phase = .steady) (hk : c.SpikeCounted s k) :
    PhaseStep c s
      ({ c with steadyCount := c.steadyCount + 1, spikeCount := k } : Controller).holdSteady := by
  unfold holdSteady
  split_ifs with hvia hvia'
  · exact .reprobe h hk hvia.1
  · exact .converge h hk (by simpa using hvia'.1)
  · exact .steadyWait h hk

/-- **The handlers take the steps of `PhaseStep`.** -/
theorem runPhase_step (c : Controller) (s : TickStats) (h : c.phase ≠ .passthrough) :
    PhaseStep c s (c.runPhase s).2 := by
  unfold runPhase
  cases hphase : c.phase with
  | passthrough => exact absurd hphase h
  | baseline =>
      simp only [handleBaselinePhase]
      split_ifs
      · exact .startProbing hphase
      · exact .warmUp hphase
  | probing =>
      simp only [handleProbingPhase]
      rcases checkSpikeBackoff_cases c s with ⟨hrising, hspike, heq⟩ | ⟨k, hk, heq⟩
      · rw [heq]
        exact .backOff c.steadyCount (.inl hphase) hrising hspike
      · simp only [heq, Bool.false_eq_true, if_false]
        split_ifs with hs
        · exact .noSamples hphase hk hs
        · exact probe_step hphase hk hs
  | settling =>
      simp only [handleSettlingPhase]
      split_ifs with hrising htimer
      · exact .settlingSpike hphase hrising
      · exact .settled hphase (by simpa using hrising) htimer
      · exact .settlingWait hphase (by simpa using hrising)
  | steady =>
      simp only [handleSteadyPhase]
      rcases checkSpikeBackoff_cases { c with steadyCount := c.steadyCount + 1 } s with
        ⟨hrising, hspike, heq⟩ | ⟨k, hk, heq⟩
      · rw [heq]
        exact .backOff 0 (.inr (.inl hphase)) hrising hspike
      · simp only [heq, Bool.false_eq_true, if_false]
        exact holdSteady_step hphase hk
  | backoff => exact .decrease hphase
  | converged =>
      simp only [handleConvergedPhase]
      rcases checkSpikeBackoff_cases c s with ⟨hrising, hspike, heq⟩ | ⟨k, hk, heq⟩
      · rw [heq]
        exact .backOff 0 (.inr (.inr hphase)) hrising hspike
      · simp only [heq, Bool.false_eq_true, if_false]
        exact .convergedWait hphase hk

/-- What no handler changes: the configuration, the mode, the counters outside the state machine,
the windows and the histograms. -/
structure PhaseFrame (c c' : Controller) : Prop where
  phase : c'.phase ≠ .passthrough
  passthroughMode : c'.passthroughMode = c.passthroughMode
  max : c'.maxQueueDepth = c.maxQueueDepth
  min : c'.minInFlight = c.minInFlight
  initial : c'.aimdInitialInFlight = c.aimdInitialInFlight
  passthroughQualifyCount : c'.passthroughQualifyCount = c.passthroughQualifyCount
  pressureQualifyCount : c'.pressureQualifyCount = c.pressureQualifyCount
  prevPendingSnapshot : c'.prevPendingSnapshot = c.prevPendingSnapshot
  p99Window : c'.p99Window = c.p99Window
  throughputWindow : c'.throughputWindow = c.throughputWindow
  baselineWindow : c'.baselineWindow = c.baselineWindow
  histPair : c'.histPair = c.histPair

theorem PhaseStep.frame {c' : Controller} (h : PhaseStep c s c') : c.PhaseFrame c' := by
  cases h <;>
    refine ⟨?_, rfl, rfl, rfl, rfl, rfl, rfl, rfl, rfl, rfl, rfl, rfl⟩ <;>
    simp_all [handleBackoffPhase]

/-! ## Around the state machine -/

/-- The variables of the state machine are the same. -/
structure SameCore (c c' : Controller) : Prop where
  phase : c'.phase = c.phase
  passthroughMode : c'.passthroughMode = c.passthroughMode
  limit : c'.currentInFlightLimit = c.currentInFlightLimit
  max : c'.maxQueueDepth = c.maxQueueDepth
  min : c'.minInFlight = c.minInFlight
  initial : c'.aimdInitialInFlight = c.aimdInitialInFlight
  maxP99Ms : c'.maxP99Ms = c.maxP99Ms
  plateauCount : c'.plateauCount = c.plateauCount
  spikeCount : c'.spikeCount = c.spikeCount
  enteredViaBackoff : c'.enteredViaBackoff = c.enteredViaBackoff
  passthroughQualifyCount : c'.passthroughQualifyCount = c.passthroughQualifyCount
  pressureQualifyCount : c'.pressureQualifyCount = c.pressureQualifyCount

theorem SameCore.trans {c c' c'' : Controller} (h : c.SameCore c') (h' : c'.SameCore c'') :
    c.SameCore c'' where
  phase := h'.phase.trans h.phase
  passthroughMode := h'.passthroughMode.trans h.passthroughMode
  limit := h'.limit.trans h.limit
  max := h'.max.trans h.max
  min := h'.min.trans h.min
  initial := h'.initial.trans h.initial
  maxP99Ms := h'.maxP99Ms.trans h.maxP99Ms
  plateauCount := h'.plateauCount.trans h.plateauCount
  spikeCount := h'.spikeCount.trans h.spikeCount
  enteredViaBackoff := h'.enteredViaBackoff.trans h.enteredViaBackoff
  passthroughQualifyCount := h'.passthroughQualifyCount.trans h.passthroughQualifyCount
  pressureQualifyCount := h'.pressureQualifyCount.trans h.pressureQualifyCount

variable (c)

theorem checkClock_core (t : TickClock) : c.SameCore (c.checkClock t) := by
  unfold checkClock
  split_ifs <;> exact ⟨rfl, rfl, rfl, rfl, rfl, rfl, rfl, rfl, rfl, rfl, rfl, rfl⟩

theorem afterSwap_core (elapsedNs : ℤ) : c.SameCore (c.afterSwap elapsedNs) :=
  ⟨rfl, rfl, rfl, rfl, rfl, rfl, rfl, rfl, rfl, rfl, rfl, rfl⟩

theorem optimizeBatch_core (s : TickStats) : c.SameCore (c.optimizeBatch s).2 := by
  unfold optimizeBatch
  split_ifs <;> exact ⟨rfl, rfl, rfl, rfl, rfl, rfl, rfl, rfl, rfl, rfl, rfl, rfl⟩

/-- A processed tick up to the test for passthrough. -/
def startTick (pendingCount : ℤ) (t : TickClock) : Controller :=
  { c.checkClock t with prevPendingSnapshot := pendingCount }

theorem startTick_core (pendingCount : ℤ) (t : TickClock) :
    c.SameCore (c.startTick pendingCount t) := by
  obtain ⟨h₁, h₂, h₃, h₄, h₅, h₆, h₇, h₈, h₉, h₁₀, h₁₁, h₁₂⟩ := c.checkClock_core t
  exact ⟨h₁, h₂, h₃, h₄, h₅, h₆, h₇, h₈, h₉, h₁₀, h₁₁, h₁₂⟩

/-- What `checkClock` leaves alone besides the variables of the state machine. -/
theorem checkClock_eq (t : TickClock) :
    (c.checkClock t).histPair = c.histPair ∧
      (c.checkClock t).prevInFlightLimit = c.prevInFlightLimit ∧
      (c.checkClock t).prevPendingSnapshot = c.prevPendingSnapshot ∧
      (c.checkClock t).p99Window = c.p99Window ∧
      (c.checkClock t).throughputWindow = c.throughputWindow ∧
      (c.checkClock t).baselineWindow = c.baselineWindow := by
  unfold checkClock
  split_ifs <;> exact ⟨rfl, rfl, rfl, rfl, rfl, rfl⟩

/-- The statistics that a tick computes, if it does. -/
def tickStats (pendingCount : ℤ) (t : TickClock) : TickStats :=
  ((c.startTick pendingCount t).tickSwapAndComputeStats (c.elapsedNs t)).1

/-- The controller after the swap of a tick. -/
def swapped (pendingCount : ℤ) (t : TickClock) : Controller :=
  ((c.startTick pendingCount t).tickSwapAndComputeStats (c.elapsedNs t)).2

/-- The controller that the state machine of a tick sees. -/
def prepared (pendingCount : ℤ) (t : TickClock) : Controller :=
  ((c.swapped pendingCount t).optimizeBatch (c.tickStats pendingCount t)).2.savePrevious
    (c.tickStats pendingCount t)

theorem swapped_core (pendingCount : ℤ) (t : TickClock) : c.SameCore (c.swapped pendingCount t) :=
  (c.startTick_core pendingCount t).trans (afterSwap_core _ _)

theorem prepared_core (pendingCount : ℤ) (t : TickClock) :
    c.SameCore (c.prepared pendingCount t) := by
  refine (c.swapped_core pendingCount t).trans
    ((optimizeBatch_core _ (c.tickStats pendingCount t)).trans ?_)
  exact ⟨rfl, rfl, rfl, rfl, rfl, rfl, rfl, rfl, rfl, rfl, rfl, rfl⟩

/-- The state machine finds the limit of the tick before it saved. -/
theorem prepared_prevInFlightLimit (pendingCount : ℤ) (t : TickClock) :
    (c.prepared pendingCount t).prevInFlightLimit = c.currentInFlightLimit :=
  (optimizeBatch_core _ _).limit.trans (c.swapped_core pendingCount t).limit

/-- There is an efficiency ratio exactly after the limit rose. -/
theorem tickStats_ratio_isSome (pendingCount : ℤ) (t : TickClock) :
    (c.tickStats pendingCount t).efficiencyRatio.isSome ↔
      0 < c.prevInFlightLimit ∧ c.prevInFlightLimit < c.currentInFlightLimit := by
  have hcore := c.startTick_core pendingCount t
  have hprev : (c.startTick pendingCount t).prevInFlightLimit = c.prevInFlightLimit :=
    (c.checkClock_eq t).2.1
  change ((c.startTick pendingCount t).efficiencyRatio _).isSome ↔ _
  simp only [efficiencyRatio, deltaInflight, limitMoved, hprev, hcore.limit]
  split_ifs with h₁ h₂ h₂ <;> simp at * <;> omega

/-! ## The three kinds of ticks -/

variable {c} (pendingCount : ℤ) {t : TickClock}

theorem adaptiveTick_skipped (h : c.skips t = true) : c.adaptiveTick pendingCount t =
    { ctrl := c.checkClock t, changed := false, processed := false } := by
  rw [adaptiveTick, if_pos h]

theorem adaptiveTick_passthrough (h : c.skips t = false) (hmode : c.passthroughMode = true) :
    c.adaptiveTick pendingCount t = (c.startTick pendingCount t).passthroughTick
      (pendingCount - c.prevPendingSnapshot) (c.elapsedNs t) t := by
  rw [adaptiveTick, if_neg (by rw [h]; exact Bool.false_ne_true)]
  exact if_pos ((c.startTick_core pendingCount t).passthroughMode.trans hmode)

/-- A processed tick outside passthrough is a step of the state machine and the check for re-entry.
-/
theorem adaptiveTick_aimd (h : c.skips t = false) (hmode : c.passthroughMode = false) :
    (c.adaptiveTick pendingCount t).ctrl =
        { (((c.prepared pendingCount t).runPhase (c.tickStats pendingCount t)).2.checkReentry
            (pendingCount - c.prevPendingSnapshot)).2 with sampleStartNs := t.later } ∧
      (c.adaptiveTick pendingCount t).stats = some (c.tickStats pendingCount t) ∧
      (c.adaptiveTick pendingCount t).processed = true := by
  rw [adaptiveTick, if_neg (by rw [h]; exact Bool.false_ne_true)]
  have hcase : ¬ (c.startTick pendingCount t).passthroughMode = true := by
    rw [(c.startTick_core pendingCount t).passthroughMode, hmode]
    exact Bool.false_ne_true
  refine ⟨?_, ?_, ?_⟩
  all_goals
    refine (congrArg _ (if_neg hcase)).trans ?_
    rfl

/-- A tick in passthrough sees pressure: the pending count grew by more than the threshold, or a
valid p99 of the samples since the last swap exceeds the configured ceiling. -/
def underPressure (c : Controller) (pendingCount : ℤ) (t : TickClock) : Bool :=
  decide (pendingCount - c.prevPendingSnapshot > AIMD_ENGAGE_PENDING_DELTA) ||
    (decide (c.maxP99Ms > 0) && (c.tickStats pendingCount t).haveValidP99 &&
      decide ((c.tickStats pendingCount t).p99Ms > c.maxP99Ms))

/-- A processed tick in passthrough counts pressure, after a swap if it had to look at the p99. -/
theorem adaptiveTick_passthrough_cases (h : c.skips t = false) (hmode : c.passthroughMode = true) :
    ∃ (c₁ : Controller) (now : ℤ),
      (c.adaptiveTick pendingCount t).ctrl =
        (c₁.countPressure (c.underPressure pendingCount t) now).2 ∧
      (((c.adaptiveTick pendingCount t).stats = none ∧ c₁ = c.startTick pendingCount t) ∨
        ((c.adaptiveTick pendingCount t).stats = some (c.tickStats pendingCount t) ∧
          c₁ = { c.swapped pendingCount t with sampleStartNs := t.later })) := by
  rw [adaptiveTick_passthrough pendingCount h hmode]
  have hmax := (c.startTick_core pendingCount t).maxP99Ms
  have hmax' := (c.swapped_core pendingCount t).maxP99Ms
  unfold passthroughTick underPressure
  split_ifs with hdelta hceiling
  · exact ⟨_, t.later, by simp [hdelta], .inl ⟨rfl, rfl⟩⟩
  · rw [hmax] at hceiling
    refine ⟨_, t.latest, ?_, .inr ⟨rfl, rfl⟩⟩
    simp only [hdelta, hceiling, decide_false, decide_true, Bool.false_or, Bool.true_and]
    rw [← hmax']
    rfl
  · rw [hmax] at hceiling
    exact ⟨_, t.later, by simp [hdelta, hceiling], .inl ⟨rfl, rfl⟩⟩

/-- A tick is processed exactly when it is not skipped. -/
theorem adaptiveTick_processed : (c.adaptiveTick pendingCount t).processed = !c.skips t := by
  cases h : c.skips t
  · cases hmode : c.passthroughMode
    · rw [(adaptiveTick_aimd pendingCount h hmode).2.2]
      rfl
    · rw [adaptiveTick_passthrough pendingCount h hmode]
      unfold passthroughTick
      split_ifs <;> rfl
  · rw [adaptiveTick_skipped pendingCount h]
    rfl

/-- The check for re-entry: nothing outside CONVERGED; there, a flat tick counts, the tenth one
enters passthrough, and any other starts over. -/
theorem checkReentry_cases (c : Controller) (δ : ℤ) :
    (c.phase ≠ .converged ∧ (c.checkReentry δ).2 = c) ∨
    (c.phase = .converged ∧ 2 < |δ| ∧
      (c.checkReentry δ).2 = { c with passthroughQualifyCount := 0 }) ∨
    (c.phase = .converged ∧ |δ| ≤ 2 ∧ c.passthroughQualifyCount + 1 < 10 ∧
      (c.checkReentry δ).2 =
        { c with passthroughQualifyCount := c.passthroughQualifyCount + 1 }) ∨
    (c.phase = .converged ∧ |δ| ≤ 2 ∧ 10 ≤ c.passthroughQualifyCount + 1 ∧
      (c.checkReentry δ).2 =
        { c with
          passthroughQualifyCount := 0, passthroughMode := true, phase := .passthrough
          currentInFlightLimit := c.maxQueueDepth }) := by
  unfold checkReentry
  by_cases hphase : c.phase = .converged
  · rw [if_pos hphase]
    by_cases hflat : |δ| ≤ PASSTHROUGH_REENTER_DELTA_MAX
    · rw [if_pos hflat]
      by_cases hcount : c.passthroughQualifyCount + 1 ≥ PASSTHROUGH_REENTER_TICKS
      · exact .inr (.inr (.inr ⟨hphase, hflat, hcount, congrArg Prod.snd (if_pos hcount)⟩))
      · refine .inr (.inr (.inl ⟨hphase, hflat, lt_of_not_ge hcount, ?_⟩))
        exact congrArg Prod.snd (if_neg hcount)
    · rw [if_neg hflat]
      exact .inr (.inl ⟨hphase, lt_of_not_ge hflat, rfl⟩)
  · rw [if_neg hphase]
    exact .inl ⟨hphase, rfl⟩

/-- The pressure count: no pressure starts over, the eighth pressure tick engages AIMD. -/
theorem countPressure_cases (c : Controller) (pressure : Bool) (now : ℤ) :
    (pressure = false ∧ c.countPressure pressure now =
      (false, { c with pressureQualifyCount := 0 })) ∨
    (pressure = true ∧ c.pressureQualifyCount + 1 < 8 ∧ c.countPressure pressure now =
      (false, { c with pressureQualifyCount := c.pressureQualifyCount + 1 })) ∨
    (pressure = true ∧ 8 ≤ c.pressureQualifyCount + 1 ∧ c.countPressure pressure now =
      (true,
        { c.resetToBaseline now with passthroughMode := false, pressureQualifyCount := 0 })) := by
  unfold countPressure
  cases pressure with
  | false => exact .inl ⟨rfl, rfl⟩
  | true =>
      by_cases hcount : c.pressureQualifyCount + 1 ≥ AIMD_ENGAGE_TICKS
      · refine .inr (.inr ⟨rfl, hcount, ?_⟩)
        exact (if_pos rfl).trans (if_pos hcount)
      · refine .inr (.inl ⟨rfl, lt_of_not_ge hcount, ?_⟩)
        exact (if_pos rfl).trans (if_neg hcount)

end Controller

end Aura
