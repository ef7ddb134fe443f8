import Aura.Adaptive.Machine

/-!
# The limits of the controller

Whatever is measured and whoever sets its limits, the controller stays within its bounds.

* `Controller.Sound` — the limit lies between 1 and the queue depth, and is the queue depth in
  passthrough; the mode flag says whether the phase is PASSTHROUGH; every window index is in range.
* `controller_sound` — it holds in every reachable state of every controller that `ring_init` and
  the engine options set up. -/

namespace Aura

open Lib

/-- The head and the count of a window lie within its array of `size` slots. -/
structure Window.InRange (w : Window) (size : ℕ) : Prop where
  slots : w.slots.length = size
  head : w.head < size
  count : w.count ≤ size

theorem Window.InRange.add {w : Window} {size : ℕ} (h : w.InRange size) (value : ℚ) :
    (w.add size value).InRange size where
  slots := by rw [Window.add, List.length_set, h.slots]
  head := Nat.mod_lt _ (Nat.zero_lt_of_lt h.head)
  count := by
    have hcount := h.count
    simp only [Window.add]
    split_ifs <;> omega

theorem Window.InRange.clear {w : Window} {size : ℕ} (h : w.InRange size) :
    w.clear.InRange size :=
  ⟨h.slots, Nat.zero_lt_of_lt h.head, Nat.zero_le size⟩

/-- Every window of the controller is in range. -/
structure Controller.WindowsInRange (c : Controller) : Prop where
  p99Window : c.p99Window.InRange ADAPTIVE_P99_WINDOW
  throughputWindow : c.throughputWindow.InRange ADAPTIVE_THROUGHPUT_WINDOW
  baselineWindow : c.baselineWindow.InRange ADAPTIVE_BASELINE_WINDOW

namespace Controller

/-- The state invariant of the controller. -/
structure Sound (c : Controller) : Prop where
  minPos : 1 ≤ c.minInFlight
  minLe : c.minInFlight ≤ c.maxQueueDepth
  initialPos : 1 ≤ c.aimdInitialInFlight
  initialLe : c.aimdInitialInFlight ≤ c.maxQueueDepth
  limitPos : 1 ≤ c.currentInFlightLimit
  limitLe : c.currentInFlightLimit ≤ c.maxQueueDepth
  mode : c.passthroughMode = true ↔ c.phase = .passthrough
  full : c.passthroughMode = true → c.currentInFlightLimit = c.maxQueueDepth
  windows : c.WindowsInRange

/-! ## The start -/

/-- What the checks on the options guarantee. -/
theorem valid_bounds {o : TuningOptions} (h : o.valid = true) : 4 ≤ o.depth ∧
    (o.minInFlight ≤ 0 ∨ o.minInFlight ≤ o.depth) ∧
    (o.initialInFlight ≤ 0 ∨ o.initialInFlight ≤ o.depth) := by
  simp only [TuningOptions.valid, Bool.and_eq_true, Bool.not_eq_true', Bool.or_eq_false_iff,
    Bool.and_eq_false_iff, decide_eq_false_iff_not] at h
  obtain ⟨⟨⟨hneg, hdepth⟩, hmin⟩, hinitial⟩ := h
  have hd : 4 ≤ o.depth := by
    unfold TuningOptions.depth
    split_ifs with hpos
    · omega
    · decide
  exact ⟨hd, by omega, by omega⟩

/-- The default of `ring_init` for the limit that AIMD starts from. -/
theorem ringInitAdaptive_eq {depth : ℤ} (now : ℤ) (h : 4 ≤ depth) :
    ∃ initial, 1 ≤ initial ∧ initial ≤ depth ∧ ringInitAdaptive depth now = some
      { currentInFlightLimit := depth, sampleStartNs := now, maxQueueDepth := depth,
        minInFlight := 4, aimdInitialInFlight := initial } := by
  have htdiv : Int.tdiv depth 4 = depth / 4 := Int.tdiv_eq_ediv_of_nonneg (by omega)
  refine ⟨if (if depth / 4 < 4 then 4 else depth / 4) > depth then depth
    else (if depth / 4 < 4 then 4 else depth / 4), ?_, ?_, ?_⟩
  · split_ifs <;> omega
  · split_ifs <;> omega
  · unfold ringInitAdaptive adaptiveInit
    rw [htdiv, if_neg]
    · rfl
    · split_ifs <;> omega

theorem windowsInRange_zeroed {c : Controller} (h₁ : c.p99Window = .zeroed ADAPTIVE_P99_WINDOW)
    (h₂ : c.throughputWindow = .zeroed ADAPTIVE_THROUGHPUT_WINDOW)
    (h₃ : c.baselineWindow = .zeroed ADAPTIVE_BASELINE_WINDOW) : c.WindowsInRange := by
  refine ⟨?_, ?_, ?_⟩
  · rw [h₁]
    exact ⟨rfl, by decide, by decide⟩
  · rw [h₂]
    exact ⟨rfl, by decide, by decide⟩
  · rw [h₃]
    exact ⟨rfl, by decide, by decide⟩

/-- A new controller, before the options are applied to it. -/
theorem Initial.exists_eq {c : Controller} (h : c.Initial) :
    ∃ (o : TuningOptions) (now initial : ℤ), o.valid = true ∧ 1 ≤ initial ∧ initial ≤ o.depth ∧
      c = o.apply
        { currentInFlightLimit := o.depth, sampleStartNs := now, maxQueueDepth := o.depth,
          minInFlight := 4, aimdInitialInFlight := initial } := by
  obtain ⟨o, now, h⟩ := h
  unfold TuningOptions.controller at h
  split_ifs at h with hvalid
  obtain ⟨initial, hpos, hle, heq⟩ := ringInitAdaptive_eq now (valid_bounds hvalid).1
  rw [heq] at h
  exact ⟨o, now, initial, hvalid, hpos, hle, (Option.some.inj h).symm⟩

/-- A new controller is in passthrough, has counted nothing and has an empty pair of histograms. -/
theorem Initial.phase_eq {c : Controller} (h : c.Initial) : c.phase = .passthrough := by
  obtain ⟨o, now, initial, -, -, -, rfl⟩ := h.exists_eq
  rfl

theorem Initial.counts_eq {c : Controller} (h : c.Initial) :
    c.prevPendingSnapshot = 0 ∧ c.pressureQualifyCount = 0 := by
  obtain ⟨o, now, initial, -, -, -, rfl⟩ := h.exists_eq
  exact ⟨rfl, rfl⟩

theorem Initial.histPair_eq {c : Controller} (h : c.Initial) : c.histPair = {} := by
  obtain ⟨o, now, initial, -, -, -, rfl⟩ := h.exists_eq
  rfl

theorem sound_of_initial {c : Controller} (h : c.Initial) : c.Sound := by
  obtain ⟨o, now, initial, hvalid, hpos, hle, rfl⟩ := h.exists_eq
  obtain ⟨hdepth, hmin, hinitial⟩ := valid_bounds hvalid
  refine ⟨?_, ?_, ?_, ?_, ?_, le_refl _, ?_, fun _ => rfl, windowsInRange_zeroed rfl rfl rfl⟩
  · change 1 ≤ if o.minInFlight > 0 then o.minInFlight else 4
    split_ifs <;> omega
  · change (if o.minInFlight > 0 then o.minInFlight else 4) ≤ o.depth
    split_ifs <;> omega
  · change 1 ≤ if o.initialInFlight > 0 then o.initialInFlight else initial
    split_ifs <;> omega
  · change (if o.initialInFlight > 0 then o.initialInFlight else initial) ≤ o.depth
    split_ifs <;> omega
  · change 1 ≤ o.depth
    omega
  · exact ⟨fun _ => rfl, fun _ => rfl⟩

/-! ## The steps -/

/-- A step that is no processed tick keeps the invariant. -/
theorem Sound.untouched {c c' : Controller} (h : c.Sound) (hc : c.Untouched c') : c'.Sound where
  minPos := by
    rcases hc.min with hmin | ⟨hpos, -⟩
    · rw [hmin]
      exact h.minPos
    · exact hpos
  minLe := by
    rw [hc.max]
    rcases hc.min with hmin | ⟨-, hle⟩
    · rw [hmin]
      exact h.minLe
    · exact hle
  initialPos := by rw [hc.initial]; exact h.initialPos
  initialLe := by rw [hc.initial, hc.max]; exact h.initialLe
  limitPos := by rw [hc.limit]; exact h.limitPos
  limitLe := by rw [hc.limit, hc.max]; exact h.limitLe
  mode := by rw [hc.passthroughMode, hc.phase]; exact h.mode
  full := by rw [hc.passthroughMode, hc.limit, hc.max]; exact h.full
  windows := by
    refine ⟨?_, ?_, ?_⟩
    · rw [hc.p99Window]
      exact h.windows.p99Window
    · rw [hc.throughputWindow]
      exact h.windows.throughputWindow
    · rw [hc.baselineWindow]
      exact h.windows.baselineWindow

/-- So does a change around the state machine, as far as it keeps the windows in range. -/
theorem Sound.sameCore {c c' : Controller} (h : c.Sound) (hc : c.SameCore c')
    (hw : c'.WindowsInRange) : c'.Sound where
  minPos := by rw [hc.min]; exact h.minPos
  minLe := by rw [hc.min, hc.max]; exact h.minLe
  initialPos := by rw [hc.initial]; exact h.initialPos
  initialLe := by rw [hc.initial, hc.max]; exact h.initialLe
  limitPos := by rw [hc.limit]; exact h.limitPos
  limitLe := by rw [hc.limit, hc.max]; exact h.limitLe
  mode := by rw [hc.passthroughMode, hc.phase]; exact h.mode
  full := by rw [hc.passthroughMode, hc.limit, hc.max]; exact h.full
  windows := hw

theorem startTick_windows {c : Controller} (h : c.WindowsInRange) (pendingCount : ℤ)
    (t : TickClock) : (c.startTick pendingCount t).WindowsInRange := by
  obtain ⟨-, -, -, h₁, h₂, h₃⟩ := c.checkClock_eq t
  refine ⟨?_, ?_, ?_⟩
  · change (c.checkClock t).p99Window.InRange _
    rw [h₁]
    exact h.p99Window
  · change (c.checkClock t).throughputWindow.InRange _
    rw [h₂]
    exact h.throughputWindow
  · change (c.checkClock t).baselineWindow.InRange _
    rw [h₃]
    exact h.baselineWindow

/-- A swap adds at most one value to each window. -/
theorem afterSwap_windows {c : Controller} (h : c.WindowsInRange) (elapsedNs : ℤ) :
    (c.afterSwap elapsedNs).WindowsInRange := by
  refine ⟨?_, h.throughputWindow.add _, ?_⟩
  · change (ite _ _ _ : Window).InRange _
    split_ifs
    · exact h.p99Window.add _
    · exact h.p99Window
  · change (ite _ _ _ : Window).InRange _
    split_ifs
    · exact h.baselineWindow.add _
    · exact h.baselineWindow

theorem swapped_windows {c : Controller} (h : c.WindowsInRange) (pendingCount : ℤ)
    (t : TickClock) : (c.swapped pendingCount t).WindowsInRange :=
  afterSwap_windows (startTick_windows h pendingCount t) _

theorem prepared_windows {c : Controller} (h : c.WindowsInRange) (pendingCount : ℤ)
    (t : TickClock) : (c.prepared pendingCount t).WindowsInRange := by
  have hw := swapped_windows h pendingCount t
  unfold prepared optimizeBatch savePrevious
  split_ifs <;> exact ⟨hw.p99Window, hw.throughputWindow, hw.baselineWindow⟩

/-- A back-off lowers the limit, but not below the minimum. -/
theorem decrease_limit (c : Controller) (h : 0 ≤ c.currentInFlightLimit) :
    (c.handleBackoffPhase).2.currentInFlightLimit = c.minInFlight ∨
      c.minInFlight < (c.handleBackoffPhase).2.currentInFlightLimit ∧
        (c.handleBackoffPhase).2.currentInFlightLimit ≤ c.currentInFlightLimit := by
  have hfloor : ⌊(c.currentInFlightLimit : ℚ) * ADAPTIVE_AIMD_DECREASE⌋ ≤
      c.currentInFlightLimit := by
    refine Int.floor_le_iff.mpr ?_
    have hnonneg : (0 : ℚ) ≤ c.currentInFlightLimit := by exact_mod_cast h
    simp only [ADAPTIVE_AIMD_DECREASE]
    linarith
  unfold handleBackoffPhase
  simp only
  split_ifs with hmin
  · exact .inr ⟨hmin, hfloor⟩
  · exact .inl rfl

/-- What a step of the state machine does to the limit. -/
theorem PhaseStep.limit {c c' : Controller} {s : TickStats} (h : PhaseStep c s c') :
    c'.currentInFlightLimit = c.currentInFlightLimit ∨
      (c.currentInFlightLimit < c.maxQueueDepth ∧
        c'.currentInFlightLimit = c.currentInFlightLimit + 1) ∨
      c'.currentInFlightLimit = (c.handleBackoffPhase).2.currentInFlightLimit := by
  cases h with
  | increase h hk hs hlimit => exact .inr (.inl ⟨hlimit, rfl⟩)
  | decrease h => exact .inr (.inr rfl)
  | _ => exact .inl rfl

/-- The state machine keeps the invariant. -/
theorem Sound.phaseStep {c c' : Controller} {s : TickStats} (h : c.Sound)
    (hphase : c.phase ≠ .passthrough) (hstep : PhaseStep c s c') : c'.Sound := by
  have hf := hstep.frame
  have hmode : c.passthroughMode = false := by
    rw [← Bool.not_eq_true, h.mode]
    exact hphase
  have hlimit : 1 ≤ c'.currentInFlightLimit ∧ c'.currentInFlightLimit ≤ c.maxQueueDepth := by
    have h₁ := h.limitPos
    have h₂ := h.limitLe
    have h₃ := h.minPos
    have h₄ := h.minLe
    have hdec := c.decrease_limit (by omega)
    rcases hstep.limit with heq | ⟨hlt, heq⟩ | heq <;> omega
  refine ⟨?_, ?_, ?_, ?_, hlimit.1, ?_, ?_, ?_, ?_⟩
  · rw [hf.min]
    exact h.minPos
  · rw [hf.min, hf.max]
    exact h.minLe
  · rw [hf.initial]
    exact h.initialPos
  · rw [hf.initial, hf.max]
    exact h.initialLe
  · rw [hf.max]
    exact hlimit.2
  · rw [hf.passthroughMode, hmode]
    exact ⟨fun hfalse => Bool.noConfusion hfalse, fun heq => absurd heq hf.phase⟩
  · rw [hf.passthroughMode, hmode]
    exact fun hfalse => Bool.noConfusion hfalse
  · refine ⟨?_, ?_, ?_⟩
    · rw [hf.p99Window]
      exact h.windows.p99Window
    · rw [hf.throughputWindow]
      exact h.windows.throughputWindow
    · rw [hf.baselineWindow]
      exact h.windows.baselineWindow

/-- The check for re-entry keeps the invariant: passthrough starts at the maximum. -/
theorem Sound.checkReentry {c : Controller} (h : c.Sound) (δ : ℤ) : (c.checkReentry δ).2.Sound := by
  rcases c.checkReentry_cases δ with ⟨-, heq⟩ | ⟨-, -, heq⟩ | ⟨-, -, -, heq⟩ | ⟨-, -, -, heq⟩ <;>
    rw [heq]
  · exact h
  · exact ⟨h.minPos, h.minLe, h.initialPos, h.initialLe, h.limitPos, h.limitLe, h.mode, h.full,
      ⟨h.windows.1, h.windows.2, h.windows.3⟩⟩
  · exact ⟨h.minPos, h.minLe, h.initialPos, h.initialLe, h.limitPos, h.limitLe, h.mode, h.full,
      ⟨h.windows.1, h.windows.2, h.windows.3⟩⟩
  · exact ⟨h.minPos, h.minLe, h.initialPos, h.initialLe, h.limitPos.trans h.limitLe, le_refl _,
      ⟨fun _ => rfl, fun _ => rfl⟩, fun _ => rfl, ⟨h.windows.1, h.windows.2, h.windows.3⟩⟩

/-- The limit that AIMD starts from is the larger one of the initial limit and the minimum. -/
theorem initialLimit_eq {c : Controller} (h : 1 ≤ c.aimdInitialInFlight) :
    c.initialLimit = max c.aimdInitialInFlight c.minInFlight := by
  have hpos : c.aimdInitialInFlight > 0 := h
  simp only [initialLimit, hpos, if_true]
  split_ifs <;> omega

/-- A tick in passthrough keeps the invariant, whether AIMD engages or not. -/
theorem Sound.countPressure {c : Controller} (h : c.Sound) (pressure : Bool) (now : ℤ) :
    (c.countPressure pressure now).2.Sound := by
  rcases c.countPressure_cases pressure now with ⟨-, heq⟩ | ⟨-, -, heq⟩ | ⟨-, -, heq⟩ <;>
    rw [heq]
  · exact ⟨h.minPos, h.minLe, h.initialPos, h.initialLe, h.limitPos, h.limitLe, h.mode, h.full,
      ⟨h.windows.1, h.windows.2, h.windows.3⟩⟩
  · exact ⟨h.minPos, h.minLe, h.initialPos, h.initialLe, h.limitPos, h.limitLe, h.mode, h.full,
      ⟨h.windows.1, h.windows.2, h.windows.3⟩⟩
  · have hinitial := initialLimit_eq h.initialPos
    refine ⟨h.minPos, h.minLe, h.initialPos, h.initialLe, ?_, ?_, ?_, ?_, ?_⟩
    · change 1 ≤ c.initialLimit
      exact hinitial ▸ le_max_of_le_left h.initialPos
    · change c.initialLimit ≤ c.maxQueueDepth
      exact hinitial ▸ max_le h.initialLe h.minLe
    · exact ⟨fun hfalse => Bool.noConfusion hfalse, fun heq => Phase.noConfusion heq⟩
    · exact fun hfalse => Bool.noConfusion hfalse
    · exact ⟨h.windows.p99Window.clear, h.windows.throughputWindow.clear,
        h.windows.baselineWindow.clear⟩

/-- A processed tick keeps the invariant. -/
theorem Sound.tick {c : Controller} (h : c.Sound) {pendingCount : ℤ} {t : TickClock}
    (hskip : c.skips t = false) : (c.adaptiveTick pendingCount t).ctrl.Sound := by
  cases hmode : c.passthroughMode
  · have hprepared : (c.prepared pendingCount t).Sound :=
      h.sameCore (c.prepared_core pendingCount t) (prepared_windows h.windows pendingCount t)
    have hphase : (c.prepared pendingCount t).phase ≠ .passthrough := by
      rw [(c.prepared_core pendingCount t).phase, ne_eq, ← h.mode, hmode]
      exact Bool.false_ne_true
    have hrun := (hprepared.phaseStep hphase
      (runPhase_step _ (c.tickStats pendingCount t) hphase)).checkReentry
        (pendingCount - c.prevPendingSnapshot)
    rw [(adaptiveTick_aimd _ hskip hmode).1]
    exact ⟨hrun.minPos, hrun.minLe, hrun.initialPos, hrun.initialLe, hrun.limitPos, hrun.limitLe,
      hrun.mode, hrun.full, ⟨hrun.windows.p99Window, hrun.windows.throughputWindow,
        hrun.windows.baselineWindow⟩⟩
  · obtain ⟨c₁, now, heq, hcase⟩ := adaptiveTick_passthrough_cases pendingCount
      hskip hmode
    rw [heq]
    refine Sound.countPressure ?_ _ now
    rcases hcase with ⟨-, rfl⟩ | ⟨-, rfl⟩
    · exact h.sameCore (c.startTick_core pendingCount t)
        (startTick_windows h.windows pendingCount t)
    · have hswap : (c.swapped pendingCount t).Sound :=
        h.sameCore (c.swapped_core pendingCount t) (swapped_windows h.windows pendingCount t)
      exact ⟨hswap.minPos, hswap.minLe, hswap.initialPos, hswap.initialLe, hswap.limitPos,
        hswap.limitLe, hswap.mode, hswap.full, ⟨hswap.windows.p99Window,
          hswap.windows.throughputWindow, hswap.windows.baselineWindow⟩⟩

/-- Every step of the controller keeps the invariant. -/
theorem Sound.apply {c : Controller} (h : c.Sound) (op : ControllerOp) : (c.apply op).Sound := by
  cases hop : c.processes op
  · exact h.untouched (c.apply_untouched hop)
  · obtain ⟨pendingCount, t, rfl, hskip⟩ := processes_eq_true hop
    exact h.tick hskip

theorem reachable_sound {c : Controller} (h : Reachable controllerSystem c) : c.Sound :=
  Reachable.invariant (fun _ => sound_of_initial)
    (fun _ op _ hc hstep => hstep ▸ hc.apply op) h

/-! ## The result -/

/-- **The limits of the controller.** In every reachable state the limit lies between 1 and the
queue depth, passthrough is a phase with the limit at the queue depth, and every window is in range.
-/
theorem controller_sound {c : Controller} (h : Reachable controllerSystem c) :
    1 ≤ c.currentInFlightLimit ∧ c.currentInFlightLimit ≤ c.maxQueueDepth ∧
      (c.passthroughMode = true ↔ c.phase = .passthrough) ∧
      (c.phase = .passthrough → c.currentInFlightLimit = c.maxQueueDepth) ∧
      c.p99Window.InRange ADAPTIVE_P99_WINDOW ∧
      c.throughputWindow.InRange ADAPTIVE_THROUGHPUT_WINDOW ∧
      c.baselineWindow.InRange ADAPTIVE_BASELINE_WINDOW := by
  have hsound := reachable_sound h
  exact ⟨hsound.limitPos, hsound.limitLe, hsound.mode, fun hp => hsound.full (hsound.mode.mpr hp),
    hsound.windows.p99Window, hsound.windows.throughputWindow, hsound.windows.baselineWindow⟩

/-- The controller of an engine with the default options. -/
def defaultController : Controller where
  currentInFlightLimit := 1024
  sampleStartNs := 0
  maxQueueDepth := 1024
  minInFlight := 4
  aimdInitialInFlight := 256

theorem defaultController_initial : defaultController.Initial := ⟨{}, 0, rfl⟩

/-- A run in which the state is not the initial one: one completion, then a tick under pressure. -/
theorem controller_sound_default :
    (fun c : Controller => 1 ≤ c.currentInFlightLimit ∧ c.currentInFlightLimit ≤ c.maxQueueDepth)
      ((defaultController.apply (.recordCompletion 5000 512)).apply
        (.tick 17 ⟨200000000, 200000000, 200000000⟩)) := by
  have h := controller_sound (((Reachable.of_init (S := controllerSystem)
    defaultController_initial).step (l := .recordCompletion 5000 512) rfl).step
      (l := .tick 17 ⟨200000000, 200000000, 200000000⟩) rfl)
  exact ⟨h.1, h.2.1⟩

end Controller

end Aura
