import Aura.Adaptive.Plateau
import Aura.Adaptive.Samples

/-!
# Leaving and entering passthrough

Both ways count ticks in a row, so both are properties of the history of a run.

* `observedSystem` — the controller with a record of its processed ticks (`TickRecord`), which knows
  pressure from the run alone.
* `aimd_engages_iff` — a tick leaves passthrough exactly when it is the eighth one under pressure in
  a row, and AIMD then starts afresh.
* `reentry_iff` — the tick that enters passthrough is the tenth flat tick in a row in CONVERGED; the
  count behind it restarts in every departure exactly when no tick backs off with a count that is
  not 0. -/

namespace Aura

open Lib

/-! ## Streaks -/

section Streak

variable {α : Type*}

/-- The length of the longest prefix of elements that satisfy `p`. -/
def streak (p : α → Bool) : List α → ℕ
  | [] => 0
  | a :: l => if p a then streak p l + 1 else 0

theorem streak_cons_of_true {p : α → Bool} {a : α} (h : p a = true) (l : List α) :
    streak p (a :: l) = streak p l + 1 := if_pos h

theorem streak_cons_of_false {p : α → Bool} {a : α} (h : p a = false) (l : List α) :
    streak p (a :: l) = 0 := if_neg (by rw [h]; exact Bool.false_ne_true)

/-- A streak of at least `n` elements. -/
theorem le_streak_iff (p : α → Bool) (l : List α) (n : ℕ) :
    n ≤ streak p l ↔ n ≤ l.length ∧ ∀ a ∈ l.take n, p a = true := by
  induction l generalizing n with
  | nil => simp [streak]
  | cons a l ih =>
      cases n with
      | zero => simp
      | succ n =>
          rw [List.length_cons, List.take_succ_cons, List.forall_mem_cons]
          cases h : p a with
          | false =>
              rw [streak_cons_of_false h]
              simp
          | true =>
              rw [streak_cons_of_true h, Nat.succ_le_succ_iff, ih]
              simp

end Streak

/-! ## The history of a run -/

/-- A processed tick: the phase before and after it, the change of the pending count since the
processed tick before it, whether it saw pressure, and `passthrough_qualify_count` after it. -/
structure TickRecord where
  before : Phase
  after : Phase
  pendingDelta : ℤ
  pressure : Bool
  qualifyCount : ℕ

/-- The history of a run: the recorded latencies, the pending count at the last processed tick, and
the processed ticks, newest first. -/
structure TickHistory where
  log : SampleLog := {}
  lastPending : ℤ := 0
  ticks : List TickRecord := []

/-- A tick sees pressure: the pending count grew by more than the threshold since the last processed
tick, or a valid p99 of the samples since the last swap exceeds the ceiling. -/
def TickHistory.pressure (h : TickHistory) (maxP99Ms : ℚ) (pendingCount : ℤ) : Bool :=
  decide (pendingCount - h.lastPending > AIMD_ENGAGE_PENDING_DELTA) ||
    (decide (maxP99Ms > 0) &&
      decide (ADAPTIVE_LOW_IOPS_MIN_SAMPLES ≤ (h.log.current.card % 2 ^ 32 : ℕ)) &&
      decide (0 ≤ (Histogram.ofMultiset h.log.current).p99) &&
      decide ((Histogram.ofMultiset h.log.current).p99 > maxP99Ms))

namespace Controller

/-- The record of a processed tick. -/
def tickRecord (c : Controller) (h : TickHistory) (pendingCount : ℤ) (t : TickClock) :
    TickRecord where
  before := c.phase
  after := (c.adaptiveTick pendingCount t).ctrl.phase
  pendingDelta := pendingCount - h.lastPending
  pressure := h.pressure c.maxP99Ms pendingCount
  qualifyCount := (c.adaptiveTick pendingCount t).ctrl.passthroughQualifyCount

/-- The history after one more operation. -/
def observe (c : Controller) (h : TickHistory) : ControllerOp → TickHistory
  | .tick pendingCount t =>
      if c.skips t then h
      else
        { log := c.account h.log (.tick pendingCount t)
          lastPending := pendingCount
          ticks := c.tickRecord h pendingCount t :: h.ticks }
  | op => { h with log := c.account h.log op }

end Controller

/-- The controller with the history of its run. -/
def observedSystem : System (Controller × TickHistory) ControllerOp where
  init s := s.1.Initial ∧ s.2 = {}
  step s op s' := s' = (s.1.apply op, s.1.observe s.2 op)

theorem observedSystem_deterministic (s : Controller × TickHistory) (op : ControllerOp)
    (s₁ s₂ : Controller × TickHistory) (h₁ : observedSystem.step s op s₁)
    (h₂ : observedSystem.step s op s₂) : s₁ = s₂ := by
  rw [h₁, h₂]

namespace Controller

variable {c : Controller} {h : TickHistory}

/-- A skipped tick ends no period. -/
theorem endsPeriod_of_skips {pendingCount : ℤ} {t : TickClock} (hskip : c.skips t = true) :
    c.endsPeriod pendingCount t = false := by
  unfold endsPeriod
  rw [adaptiveTick_skipped _ hskip, (c.checkClock_core t).passthroughMode, Bool.and_not_self]
  rfl

/-- The log of the history is the account. -/
theorem observe_log (c : Controller) (h : TickHistory) (op : ControllerOp) :
    (c.observe h op).log = c.account h.log op := by
  cases op with
  | tick pendingCount t =>
      change (ite _ _ _ : TickHistory).log = if c.endsPeriod pendingCount t then _ else _
      split_ifs with hskip hends hends
      · rw [endsPeriod_of_skips hskip] at hends
        cases hends
      · rfl
      · exact if_pos hends
      · exact if_neg hends
  | _ => rfl

theorem observe_of_not_processes {op : ControllerOp} (hop : c.processes op = false) :
    (c.observe h op).ticks = h.ticks ∧ (c.observe h op).lastPending = h.lastPending := by
  cases op with
  | tick pendingCount t =>
      have hskip : c.skips t = true := by simpa [processes] using hop
      rw [show c.observe h (.tick pendingCount t) = h from if_pos hskip]
      exact ⟨rfl, rfl⟩
  | _ => exact ⟨rfl, rfl⟩

theorem observe_tick (pendingCount : ℤ) {t : TickClock} (hskip : c.skips t = false) :
    (c.observe h (.tick pendingCount t)).ticks = c.tickRecord h pendingCount t :: h.ticks ∧
      (c.observe h (.tick pendingCount t)).lastPending = pendingCount := by
  have heq : c.observe h (.tick pendingCount t) =
      { log := c.account h.log (.tick pendingCount t)
        lastPending := pendingCount
        ticks := c.tickRecord h pendingCount t :: h.ticks } :=
    if_neg (by rw [hskip]; exact Bool.false_ne_true)
  rw [heq]
  exact ⟨rfl, rfl⟩

/-! ## Engaging AIMD -/

/-- A tick in passthrough that saw pressure and stayed there. -/
def staysUnderPressure (r : TickRecord) : Bool :=
  decide (r.before = .passthrough) && decide (r.after = .passthrough) && r.pressure

/-- What `adaptive_reset_to_baseline` makes of `c` when AIMD engages. -/
structure StartsAfresh (c c' : Controller) : Prop where
  phase : c'.phase = .baseline
  passthroughMode : c'.passthroughMode = false
  limit : c'.currentInFlightLimit = max c.aimdInitialInFlight c.minInFlight
  warmupCount : c'.warmupCount = 0
  plateauCount : c'.plateauCount = 0
  steadyCount : c'.steadyCount = 0
  spikeCount : c'.spikeCount = 0
  settlingTimer : c'.settlingTimer = 0
  enteredViaBackoff : c'.enteredViaBackoff = false
  passthroughQualifyCount : c'.passthroughQualifyCount = 0
  pressureQualifyCount : c'.pressureQualifyCount = 0
  p99Window : c'.p99Window.head = 0 ∧ c'.p99Window.count = 0
  throughputWindow : c'.throughputWindow.head = 0 ∧ c'.throughputWindow.count = 0
  baselineWindow : c'.baselineWindow.head = 0 ∧ c'.baselineWindow.count = 0
  baselineP99Ms : c'.baselineP99Ms = 0
  prevThroughputBps : c'.prevThroughputBps = 0
  prevInFlightLimit : c'.prevInFlightLimit = 0
  sampleBytes : c'.sampleBytes = 0
  submitCalls : c'.submitCalls = 0
  sqesSubmitted : c'.sqesSubmitted = 0
  samples : c'.histPair.active = .empty

/-- The invariant behind the pressure count: it is the streak of the history. -/
structure Engaging (c : Controller) (h : TickHistory) : Prop where
  sound : c.Sound
  accounts : c.histPair.Accounts h.log.current
  pending : c.prevPendingSnapshot = h.lastPending
  counted : c.phase = .passthrough → c.pressureQualifyCount = streak staysUnderPressure h.ticks
  idle : c.phase ≠ .passthrough → c.pressureQualifyCount = 0

/-- The controller sees pressure as the history does. -/
theorem Engaging.underPressure_eq (he : c.Engaging h) (pendingCount : ℤ) (t : TickClock) :
    c.underPressure pendingCount t = h.pressure c.maxP99Ms pendingCount := by
  obtain ⟨hcount, hp99⟩ := tickStats_accounts pendingCount t he.accounts
  have hvalid : (c.tickStats pendingCount t).haveValidP99 =
      (decide (ADAPTIVE_LOW_IOPS_MIN_SAMPLES ≤ ((c.tickStats pendingCount t).sampleCount : ℤ)) &&
        decide (0 ≤ (c.tickStats pendingCount t).p99Ms)) := rfl
  unfold underPressure TickHistory.pressure
  rw [hvalid, hcount, hp99, he.pending, Bool.and_assoc, Bool.and_assoc, Bool.and_assoc,
    Bool.and_assoc]

/-- A processed tick in passthrough: it leaves on the eighth pressure tick in a row. -/
theorem Engaging.passthrough_tick (he : c.Engaging h) (pendingCount : ℤ) {t : TickClock}
    (hskip : c.skips t = false) (hphase : c.phase = .passthrough) :
    ((c.adaptiveTick pendingCount t).ctrl.phase = .passthrough ∧
      (h.pressure c.maxP99Ms pendingCount = false ∨
        streak staysUnderPressure h.ticks + 1 < AIMD_ENGAGE_TICKS) ∧
      (c.adaptiveTick pendingCount t).ctrl.pressureQualifyCount =
        if h.pressure c.maxP99Ms pendingCount then streak staysUnderPressure h.ticks + 1 else 0) ∨
    (h.pressure c.maxP99Ms pendingCount = true ∧
      AIMD_ENGAGE_TICKS ≤ streak staysUnderPressure h.ticks + 1 ∧
      c.StartsAfresh (c.adaptiveTick pendingCount t).ctrl) := by
  have hmode : c.passthroughMode = true := he.sound.mode.mpr hphase
  obtain ⟨c₁, now, heq, hcase⟩ := adaptiveTick_passthrough_cases pendingCount
    hskip hmode
  have hcore : c.SameCore c₁ := by
    rcases hcase with ⟨-, rfl⟩ | ⟨-, rfl⟩
    · exact c.startTick_core pendingCount t
    · exact (c.swapped_core pendingCount t).trans
        ⟨rfl, rfl, rfl, rfl, rfl, rfl, rfl, rfl, rfl, rfl, rfl, rfl⟩
  have hcount : c₁.pressureQualifyCount = streak staysUnderPressure h.ticks :=
    hcore.pressureQualifyCount.trans (he.counted hphase)
  rw [he.underPressure_eq] at heq
  rw [heq, ← hcount]
  rcases c₁.countPressure_cases (h.pressure c.maxP99Ms pendingCount) now with
    ⟨hp, heq'⟩ | ⟨hp, hlt, heq'⟩ | ⟨hp, hge, heq'⟩
  · rw [heq', hp]
    exact .inl ⟨hcore.phase.trans hphase, .inl rfl, rfl⟩
  · rw [heq', hp]
    exact .inl ⟨hcore.phase.trans hphase, .inr hlt, rfl⟩
  · rw [heq']
    refine .inr ⟨hp, hge, ?_⟩
    have hlimit : c₁.initialLimit = max c.aimdInitialInFlight c.minInFlight := by
      rw [initialLimit_eq (by rw [hcore.initial]; exact he.sound.initialPos), hcore.initial,
        hcore.min]
    have hsamples : (c.adaptiveTick pendingCount t).ctrl.histPair.active = .empty := by
      have hends : c.endsPeriod pendingCount t = true := by
        unfold endsPeriod
        rw [hmode, heq, heq', Bool.or_eq_true]
        exact .inr rfl
      rcases c.tick_histPair pendingCount t with ⟨hfalse, -⟩ | ⟨-, hpair | hpair⟩
      · rw [hfalse] at hends
        cases hends
      · rw [hpair]
        exact he.accounts.rotate.active
      · rw [hpair]
        exact he.accounts.rotate.rotate.active
    rw [heq, heq'] at hsamples
    exact ⟨rfl, rfl, hlimit, rfl, rfl, rfl, rfl, rfl, rfl, rfl, rfl, ⟨rfl, rfl⟩, ⟨rfl, rfl⟩,
      ⟨rfl, rfl⟩, rfl, rfl, rfl, rfl, rfl, rfl, hsamples⟩

theorem prepared_prevPendingSnapshot (c : Controller) (pendingCount : ℤ) (t : TickClock) :
    (c.prepared pendingCount t).prevPendingSnapshot = pendingCount := by
  unfold prepared optimizeBatch savePrevious
  split_ifs <;> rfl

theorem countPressure_prevPendingSnapshot (c : Controller) (pressure : Bool) (now : ℤ) :
    (c.countPressure pressure now).2.prevPendingSnapshot = c.prevPendingSnapshot := by
  rcases c.countPressure_cases pressure now with ⟨-, heq⟩ | ⟨-, -, heq⟩ | ⟨-, -, heq⟩ <;> rw [heq]
  rfl

/-- What a tick outside passthrough does to the counters of the pending count. -/
theorem aimd_tick_counters (pendingCount : ℤ) {t : TickClock} (hskip : c.skips t = false)
    (hmode : c.passthroughMode = false) (hphase : c.phase ≠ .passthrough) :
    (c.adaptiveTick pendingCount t).ctrl.prevPendingSnapshot = pendingCount ∧
      (c.adaptiveTick pendingCount t).ctrl.pressureQualifyCount = c.pressureQualifyCount := by
  have hcore := c.prepared_core pendingCount t
  have hframe := (runPhase_step (c.prepared pendingCount t) (c.tickStats pendingCount t)
    (hcore.phase ▸ hphase)).frame
  have hreentry (c' : Controller) (δ : ℤ) :
      (c'.checkReentry δ).2.prevPendingSnapshot = c'.prevPendingSnapshot ∧
        (c'.checkReentry δ).2.pressureQualifyCount = c'.pressureQualifyCount := by
    rcases c'.checkReentry_cases δ with ⟨-, heq⟩ | ⟨-, -, heq⟩ | ⟨-, -, -, heq⟩ | ⟨-, -, -, heq⟩ <;>
      rw [heq] <;> exact ⟨rfl, rfl⟩
  rw [(adaptiveTick_aimd _ hskip hmode).1]
  refine ⟨?_, ?_⟩
  · exact ((hreentry _ _).1.trans hframe.prevPendingSnapshot).trans
      (c.prepared_prevPendingSnapshot pendingCount t)
  · exact ((hreentry _ _).2.trans hframe.pressureQualifyCount).trans hcore.pressureQualifyCount

theorem tick_prevPendingSnapshot {pendingCount : ℤ} {t : TickClock} (hskip : c.skips t = false)
    (hphase : c.phase = .passthrough → c.passthroughMode = true) :
    (c.adaptiveTick pendingCount t).ctrl.prevPendingSnapshot = pendingCount := by
  cases hmode : c.passthroughMode
  · have hne : c.phase ≠ .passthrough := by
      intro hp
      rw [hphase hp] at hmode
      cases hmode
    exact (aimd_tick_counters _ hskip hmode hne).1
  · obtain ⟨c₁, now, heq, hcase⟩ := adaptiveTick_passthrough_cases pendingCount
      hskip hmode
    rw [heq, countPressure_prevPendingSnapshot]
    rcases hcase with ⟨-, rfl⟩ | ⟨-, rfl⟩ <;> rfl

/-- The pressure count of a processed tick is the streak that ends in it. -/
theorem Engaging.tick_counts (he : c.Engaging h) (pendingCount : ℤ) {t : TickClock}
    (hskip : c.skips t = false) :
    ((c.adaptiveTick pendingCount t).ctrl.phase = .passthrough →
      (c.adaptiveTick pendingCount t).ctrl.pressureQualifyCount =
        streak staysUnderPressure (c.tickRecord h pendingCount t :: h.ticks)) ∧
    ((c.adaptiveTick pendingCount t).ctrl.phase ≠ .passthrough →
      (c.adaptiveTick pendingCount t).ctrl.pressureQualifyCount = 0) := by
  by_cases hphase : c.phase = .passthrough
  · rcases he.passthrough_tick pendingCount hskip hphase with
      ⟨hstay, -, hcount⟩ | ⟨-, -, hfresh⟩
    · refine ⟨fun _ => ?_, fun hne => absurd hstay hne⟩
      have hrecord : staysUnderPressure (c.tickRecord h pendingCount t) =
          h.pressure c.maxP99Ms pendingCount := by
        simp only [staysUnderPressure, tickRecord, hphase, hstay, decide_true, Bool.true_and]
      rw [hcount]
      cases hp : h.pressure c.maxP99Ms pendingCount
      · rw [streak_cons_of_false (hrecord.trans hp)]
        rfl
      · rw [streak_cons_of_true (hrecord.trans hp)]
        rfl
    · refine ⟨fun hp => ?_, fun _ => hfresh.pressureQualifyCount⟩
      rw [hfresh.phase] at hp
      cases hp
  · have hmode : c.passthroughMode = false := by
      rw [← Bool.not_eq_true, he.sound.mode]
      exact hphase
    have hcount := (aimd_tick_counters pendingCount hskip hmode hphase).2.trans
      (he.idle hphase)
    have hrecord : staysUnderPressure (c.tickRecord h pendingCount t) = false := by
      simp only [staysUnderPressure, tickRecord, hphase, decide_false, Bool.false_and]
    rw [streak_cons_of_false hrecord]
    exact ⟨fun _ => hcount, fun _ => hcount⟩

/-- **Every operation keeps the invariant.** -/
theorem Engaging.apply (he : c.Engaging h) (op : ControllerOp) :
    (c.apply op).Engaging (c.observe h op) := by
  have haccounts : (c.apply op).histPair.Accounts (c.observe h op).log.current := by
    rw [observe_log]
    exact apply_accounts he.accounts op
  cases hop : c.processes op
  · have hu := c.apply_untouched hop
    obtain ⟨hticks, hlast⟩ := observe_of_not_processes (h := h) hop
    refine ⟨he.sound.apply op, haccounts, ?_, fun hphase => ?_, fun hphase => ?_⟩
    · rw [hu.prevPendingSnapshot, hlast, he.pending]
    · rw [hu.pressureQualifyCount, hticks, he.counted (hu.phase ▸ hphase)]
    · rw [hu.pressureQualifyCount, he.idle (hu.phase ▸ hphase)]
  · obtain ⟨pendingCount, t, rfl, hskip⟩ := processes_eq_true hop
    obtain ⟨hticks, hlast⟩ := observe_tick (h := h) pendingCount hskip
    obtain ⟨hcounted, hidle⟩ := he.tick_counts pendingCount hskip
    refine ⟨he.sound.apply _, haccounts, ?_, ?_, hidle⟩
    · rw [hlast]
      exact tick_prevPendingSnapshot hskip he.sound.mode.mpr
    · rw [hticks]
      exact hcounted

theorem engaging_of_initial {c : Controller} (hc : c.Initial) : c.Engaging {} where
  sound := sound_of_initial hc
  accounts := by
    rw [hc.histPair_eq]
    exact HistPair.accounts_init
  pending := hc.counts_eq.1
  counted _ := hc.counts_eq.2
  idle _ := hc.counts_eq.2

theorem reachable_engaging {s : Controller × TickHistory} (hs : Reachable observedSystem s) :
    s.1.Engaging s.2 := by
  refine Reachable.invariant (I := fun s => s.1.Engaging s.2) ?_ ?_ hs
  · rintro ⟨c, h⟩ ⟨hc, rfl⟩
    exact engaging_of_initial hc
  · rintro ⟨c, h⟩ op _ he rfl
    exact he.apply op

/-- **AIMD engages exactly on sustained pressure.** A processed tick leaves passthrough iff it and
the seven processed ticks before it, all taken in the same stay, saw pressure. AIMD then starts
afresh; until then the limit stays at the maximum. -/
theorem aimd_engages_iff {s : Controller × TickHistory} (hs : Reachable observedSystem s)
    {pendingCount : ℤ} {t : TickClock} (hskip : s.1.skips t = false)
    (hphase : s.1.phase = .passthrough) :
    ((s.1.adaptiveTick pendingCount t).ctrl.phase ≠ .passthrough ↔
      s.2.pressure s.1.maxP99Ms pendingCount = true ∧
        AIMD_ENGAGE_TICKS - 1 ≤ s.2.ticks.length ∧
        ∀ r ∈ s.2.ticks.take (AIMD_ENGAGE_TICKS - 1),
          r.before = .passthrough ∧ r.after = .passthrough ∧ r.pressure = true) ∧
    ((s.1.adaptiveTick pendingCount t).ctrl.phase ≠ .passthrough →
      s.1.StartsAfresh (s.1.adaptiveTick pendingCount t).ctrl) ∧
    s.1.currentInFlightLimit = s.1.maxQueueDepth ∧
    ((s.1.adaptiveTick pendingCount t).ctrl.phase = .passthrough →
      (s.1.adaptiveTick pendingCount t).ctrl.currentInFlightLimit =
        (s.1.adaptiveTick pendingCount t).ctrl.maxQueueDepth) := by
  have he := reachable_engaging hs
  have hafter : (s.1.adaptiveTick pendingCount t).ctrl.Sound :=
    he.sound.apply (.tick pendingCount t)
  have hstreak : AIMD_ENGAGE_TICKS ≤ streak staysUnderPressure s.2.ticks + 1 ↔
      AIMD_ENGAGE_TICKS - 1 ≤ s.2.ticks.length ∧
        ∀ r ∈ s.2.ticks.take (AIMD_ENGAGE_TICKS - 1),
          r.before = .passthrough ∧ r.after = .passthrough ∧ r.pressure = true := by
    rw [← Nat.sub_le_iff_le_add, le_streak_iff]
    simp only [staysUnderPressure, Bool.and_eq_true, decide_eq_true_eq, and_assoc]
  rw [← hstreak]
  refine ⟨?_, ?_, he.sound.full (he.sound.mode.mpr hphase),
    fun hp => hafter.full (hafter.mode.mpr hp)⟩
  · rcases he.passthrough_tick pendingCount hskip hphase with
      ⟨hstay, hnot, -⟩ | ⟨hp, hge, hfresh⟩
    · refine ⟨fun hne => absurd hstay hne, fun ⟨hp, hge⟩ => ?_⟩
      rcases hnot with hfalse | hlt
      · rw [hfalse] at hp
        cases hp
      · exact absurd hge (Nat.not_le_of_lt hlt)
    · refine ⟨fun _ => ⟨hp, hge⟩, fun _ => ?_⟩
      rw [hfresh.phase]
      exact Phase.noConfusion
  · intro hne
    rcases he.passthrough_tick pendingCount hskip hphase with
      ⟨hstay, -⟩ | ⟨-, -, hfresh⟩
    · exact absurd hstay hne
    · exact hfresh

/-- A controller and its history after a list of operations. -/
def observeOps (c : Controller) (h : TickHistory) (ops : List ControllerOp) :
    Controller × TickHistory :=
  ops.foldl (fun s op => (s.1.apply op, s.1.observe s.2 op)) (c, h)

theorem observeOps_run (c : Controller) (h : TickHistory) (ops : List ControllerOp) :
    Run observedSystem (c, h) ops (c.observeOps h ops) :=
  Run.foldl (f := fun s op => (s.1.apply op, s.1.observe s.2 op)) (fun _ _ => rfl) (c, h) ops

/-- Seven ticks whose pending count grows by 17. -/
def underPressureOps : List ControllerOp :=
  (List.range 7).map fun i : ℕ => tickAt (17 * (i + 1)) (i + 1)

/-- The eighth one engages AIMD. -/
theorem aimd_engages_iff_eighth :
    (((shallowController.observeOps {} underPressureOps).1.adaptiveTick 136
      ⟨1600000000, 1600000000, 1600000000⟩).ctrl.phase ≠ .passthrough) :=
  (aimd_engages_iff (s := shallowController.observeOps {} underPressureOps)
    ⟨_, _, ⟨shallowController_initial, rfl⟩, observeOps_run shallowController {} underPressureOps⟩
    (by decide +kernel) (by decide +kernel)).1.mpr (by decide +kernel)

/-! ## Re-entering passthrough -/

/-- The tick that enters passthrough is preceded by nine that ended in CONVERGED, and was flat like
those. -/
def ReentryLaw (ticks : List TickRecord) : Prop :=
  ∀ (r : TickRecord) (rs : List TickRecord), (r :: rs) <:+ ticks →
    r.before = .converged → r.after = .passthrough →
      PASSTHROUGH_REENTER_TICKS - 1 ≤ rs.length ∧
        (∀ q ∈ rs.take (PASSTHROUGH_REENTER_TICKS - 1), q.after = .converged) ∧
        ∀ q ∈ (r :: rs).take PASSTHROUGH_REENTER_TICKS,
          |q.pendingDelta| ≤ PASSTHROUGH_REENTER_DELTA_MAX

/-- A tick that departs from CONVERGED leaves the count at 0. -/
def RestartLaw (ticks : List TickRecord) : Prop :=
  ∀ r ∈ ticks, r.before = .converged → r.after ≠ .converged → r.qualifyCount = 0

/-- Does a processed tick back off from CONVERGED? -/
def backsOff (c : Controller) (pendingCount : ℤ) (t : TickClock) : Bool :=
  decide (c.phase = .converged) && !c.passthroughMode && decide (1 ≤ c.spikeCount) &&
    (c.tickStats pendingCount t).latencyRising

/-- The condition on a step: it does not back off from CONVERGED with a count that is not 0. -/
def BacksOffFresh (s : Controller × TickHistory) : ControllerOp → Prop
  | .tick pendingCount t =>
      s.1.skips t = false → s.1.backsOff pendingCount t = true → s.1.passthroughQualifyCount = 0
  | _ => True

/-- The ways of a processed tick in CONVERGED. -/
theorem converged_tick (pendingCount : ℤ) {t : TickClock} (hskip : c.skips t = false)
    (hphase : c.phase = .converged) (hmode : c.passthroughMode = false) :
    (c.backsOff pendingCount t = true ∧ (c.adaptiveTick pendingCount t).ctrl.phase = .backoff ∧
      (c.adaptiveTick pendingCount t).ctrl.passthroughQualifyCount = c.passthroughQualifyCount) ∨
    (c.backsOff pendingCount t = false ∧ (c.adaptiveTick pendingCount t).ctrl.phase = .converged ∧
      (c.adaptiveTick pendingCount t).ctrl.passthroughMode = false ∧
      (c.adaptiveTick pendingCount t).ctrl.passthroughQualifyCount = 0) ∨
    (c.backsOff pendingCount t = false ∧ (c.adaptiveTick pendingCount t).ctrl.phase = .converged ∧
      (c.adaptiveTick pendingCount t).ctrl.passthroughMode = false ∧
      |pendingCount - c.prevPendingSnapshot| ≤ PASSTHROUGH_REENTER_DELTA_MAX ∧
      c.passthroughQualifyCount + 1 < PASSTHROUGH_REENTER_TICKS ∧
      (c.adaptiveTick pendingCount t).ctrl.passthroughQualifyCount =
        c.passthroughQualifyCount + 1) ∨
    (c.backsOff pendingCount t = false ∧
      (c.adaptiveTick pendingCount t).ctrl.phase = .passthrough ∧
      |pendingCount - c.prevPendingSnapshot| ≤ PASSTHROUGH_REENTER_DELTA_MAX ∧
      PASSTHROUGH_REENTER_TICKS ≤ c.passthroughQualifyCount + 1 ∧
      (c.adaptiveTick pendingCount t).ctrl.passthroughQualifyCount = 0) := by
  have hcore := c.prepared_core pendingCount t
  have hphase' : (c.prepared pendingCount t).phase = .converged := hcore.phase.trans hphase
  have hback : c.backsOff pendingCount t =
      (decide (1 ≤ c.spikeCount) && (c.tickStats pendingCount t).latencyRising) := by
    simp only [backsOff, hphase, hmode, decide_true, Bool.true_and, Bool.not_false]
  rw [(adaptiveTick_aimd _ hskip hmode).1, hback]
  have hrun : (c.prepared pendingCount t).runPhase (c.tickStats pendingCount t) =
      (c.prepared pendingCount t).handleConvergedPhase (c.tickStats pendingCount t) := by
    unfold runPhase
    rw [hphase']
  rw [hrun]
  unfold handleConvergedPhase
  rcases checkSpikeBackoff_cases (c.prepared pendingCount t) (c.tickStats pendingCount t) with
    ⟨hrising, hspike, heq⟩ | ⟨k, hk, heq⟩
  · refine .inl ⟨?_, ?_⟩
    · rw [hrising, ← hcore.spikeCount, decide_eq_true hspike]
      rfl
    · rw [heq]
      exact ⟨rfl, hcore.passthroughQualifyCount⟩
  · refine .inr ?_
    have hnot :
        (decide (1 ≤ c.spikeCount) && (c.tickStats pendingCount t).latencyRising) = false := by
      rcases hk with ⟨-, hzero, -⟩ | ⟨hrising, -⟩
      · rw [← hcore.spikeCount, hzero]
        rfl
      · rw [hrising, Bool.and_false]
    rw [heq, hnot]
    have hmode' : (c.prepared pendingCount t).passthroughMode = false :=
      hcore.passthroughMode.trans hmode
    have hcount := hcore.passthroughQualifyCount
    rcases checkReentry_cases { c.prepared pendingCount t with spikeCount := k }
      (pendingCount - c.prevPendingSnapshot) with
      ⟨hne, -⟩ | ⟨-, -, heq'⟩ | ⟨-, hflat, hlt, heq'⟩ | ⟨-, hflat, hge, heq'⟩
    · exact absurd hphase' hne
    · refine .inl ⟨rfl, ?_⟩
      simp only [Bool.false_eq_true, if_false]
      rw [heq']
      exact ⟨hphase', hmode', rfl⟩
    · refine .inr (.inl ⟨rfl, ?_⟩)
      simp only [Bool.false_eq_true, if_false]
      rw [heq', ← hcount]
      exact ⟨hphase', hmode', hflat, hlt, rfl⟩
    · refine .inr (.inr ⟨rfl, ?_⟩)
      simp only [Bool.false_eq_true, if_false]
      rw [heq', ← hcount]
      exact ⟨rfl, hflat, hge, rfl⟩

/-- The first stay in CONVERGED: the last ticks, as many as were counted, were flat and ended there.
-/
structure Converging (c : Controller) (h : TickHistory) : Prop where
  phase : c.phase = .converged
  pending : c.prevPendingSnapshot = h.lastPending
  mode : c.passthroughMode = true → c.passthroughQualifyCount = 0
  length : c.passthroughQualifyCount ≤ h.ticks.length
  flat : ∀ q ∈ h.ticks.take c.passthroughQualifyCount,
    q.after = .converged ∧ |q.pendingDelta| ≤ PASSTHROUGH_REENTER_DELTA_MAX
  small : c.passthroughQualifyCount < PASSTHROUGH_REENTER_TICKS

/-- The law holds of one more tick if it holds of that one. -/
theorem ReentryLaw.cons {r : TickRecord} {rs : List TickRecord} (h : ReentryLaw rs)
    (hr : r.before = .converged → r.after = .passthrough →
      PASSTHROUGH_REENTER_TICKS - 1 ≤ rs.length ∧
        (∀ q ∈ rs.take (PASSTHROUGH_REENTER_TICKS - 1), q.after = .converged) ∧
        ∀ q ∈ (r :: rs).take PASSTHROUGH_REENTER_TICKS,
          |q.pendingDelta| ≤ PASSTHROUGH_REENTER_DELTA_MAX) : ReentryLaw (r :: rs) := by
  intro r' rs' hsuffix
  rcases List.suffix_cons_iff.mp hsuffix with heq | hsuffix'
  · obtain ⟨rfl, rfl⟩ := List.cons.inj heq
    exact hr
  · exact h r' rs' hsuffix'

/-- A step that is no processed tick. -/
theorem Converging.untouched (hc : c.Converging h) {op : ControllerOp}
    (hop : c.processes op = false) : (c.apply op).Converging (c.observe h op) := by
  have hu := c.apply_untouched hop
  obtain ⟨hticks, hlast⟩ := observe_of_not_processes (h := h) hop
  refine ⟨hu.phase.trans hc.phase, ?_, ?_, ?_, ?_, ?_⟩
  · rw [hu.prevPendingSnapshot, hlast, hc.pending]
  · rw [hu.passthroughMode, hu.passthroughQualifyCount]
    exact hc.mode
  · rw [hu.passthroughQualifyCount, hticks]
    exact hc.length
  · rw [hu.passthroughQualifyCount, hticks]
    exact hc.flat
  · rw [hu.passthroughQualifyCount]
    exact hc.small

/-- What a processed tick from the first stay in CONVERGED does. -/
structure ConvergingTick (c : Controller) (h : TickHistory) (pendingCount : ℤ) (t : TickClock) :
    Prop where
  next : (c.adaptiveTick pendingCount t).ctrl.Converging (c.observe h (.tick pendingCount t)) ∨
    (c.adaptiveTick pendingCount t).ctrl.Unconverged
  reentry : (c.adaptiveTick pendingCount t).ctrl.phase = .passthrough →
    PASSTHROUGH_REENTER_TICKS ≤ c.passthroughQualifyCount + 1 ∧
      |pendingCount - h.lastPending| ≤ PASSTHROUGH_REENTER_DELTA_MAX
  backOff : c.backsOff pendingCount t = true →
    (c.adaptiveTick pendingCount t).ctrl.phase = .backoff ∧
      (c.adaptiveTick pendingCount t).ctrl.passthroughQualifyCount = c.passthroughQualifyCount
  restart : c.backsOff pendingCount t = false →
    (c.adaptiveTick pendingCount t).ctrl.phase ≠ .converged →
      (c.adaptiveTick pendingCount t).ctrl.passthroughQualifyCount = 0

/-- The first stay goes on with a count that starts over. -/
theorem Converging.startOver (hc : c.Converging h) {pendingCount : ℤ} {t : TickClock}
    (hskip : c.skips t = false)
    (hphase : (c.adaptiveTick pendingCount t).ctrl.phase = .converged)
    (hcount : (c.adaptiveTick pendingCount t).ctrl.passthroughQualifyCount = 0) :
    (c.adaptiveTick pendingCount t).ctrl.Converging (c.observe h (.tick pendingCount t)) := by
  refine ⟨hphase, ?_, fun _ => hcount, ?_, ?_, ?_⟩
  · rw [(observe_tick _ hskip).2]
    refine tick_prevPendingSnapshot hskip fun hp => ?_
    rw [hc.phase] at hp
    cases hp
  · rw [hcount]
    exact Nat.zero_le _
  · rw [hcount]
    intro q hq
    cases hq
  · rw [hcount]
    exact Nat.zero_lt_succ 9

/-- With the mode flag set in CONVERGED a tick only watches for pressure. -/
theorem Converging.passthrough_tick (hc : c.Converging h) (pendingCount : ℤ) {t : TickClock}
    (hskip : c.skips t = false) (hmode : c.passthroughMode = true) :
    c.ConvergingTick h pendingCount t := by
  obtain ⟨c₁, now, heq, hcase⟩ := adaptiveTick_passthrough_cases pendingCount
    hskip hmode
  have hcore : c.SameCore c₁ := by
    rcases hcase with ⟨-, rfl⟩ | ⟨-, rfl⟩
    · exact c.startTick_core pendingCount t
    · exact (c.swapped_core pendingCount t).trans
        ⟨rfl, rfl, rfl, rfl, rfl, rfl, rfl, rfl, rfl, rfl, rfl, rfl⟩
  have hphase : c₁.phase = .converged := hcore.phase.trans hc.phase
  have hcount : c₁.passthroughQualifyCount = 0 :=
    hcore.passthroughQualifyCount.trans (hc.mode hmode)
  have hback : c.backsOff pendingCount t = false := by
    simp only [backsOff, hmode, Bool.not_true, Bool.and_false, Bool.false_and]
  have hcases : ((c.adaptiveTick pendingCount t).ctrl.phase = .converged ∨
      (c.adaptiveTick pendingCount t).ctrl.phase = .baseline ∧
        (c.adaptiveTick pendingCount t).ctrl.plateauCount = 0) ∧
      (c.adaptiveTick pendingCount t).ctrl.passthroughQualifyCount = 0 := by
    rw [heq]
    rcases c₁.countPressure_cases (c.underPressure pendingCount t) now with
      ⟨-, heq'⟩ | ⟨-, -, heq'⟩ | ⟨-, -, heq'⟩ <;> rw [heq']
    · exact ⟨.inl hphase, hcount⟩
    · exact ⟨.inl hphase, hcount⟩
    · exact ⟨.inr ⟨rfl, rfl⟩, rfl⟩
  obtain ⟨hafter, hzero⟩ := hcases
  refine ⟨?_, fun hp => ?_, fun htrue => ?_, fun _ _ => hzero⟩
  · rcases hafter with hafter | ⟨hafter, hplateau⟩
    · exact .inl (hc.startOver hskip hafter hzero)
    · exact .inr ((unconverged_baseline hafter).mpr hplateau)
  · rcases hafter with hafter | ⟨hafter, -⟩ <;> rw [hp] at hafter <;> cases hafter
  · rw [hback] at htrue
    cases htrue

/-- One step of the first stay in CONVERGED. -/
theorem Converging.tick (hc : c.Converging h) (pendingCount : ℤ) {t : TickClock}
    (hskip : c.skips t = false) : c.ConvergingTick h pendingCount t := by
  cases hmode : c.passthroughMode
  · rcases converged_tick pendingCount hskip hc.phase hmode with
      ⟨hback, hphase, hcount⟩ | ⟨hback, hphase, hmode', hcount⟩ |
      ⟨hback, hphase, hmode', hflat, hlt, hcount⟩ | ⟨hback, hphase, hflat, hge, hcount⟩
    · refine ⟨.inr ?_, fun hp => ?_, fun _ => ⟨hphase, hcount⟩, fun hfalse => ?_⟩
      · unfold Unconverged
        rw [hphase]
        trivial
      · rw [hphase] at hp
        cases hp
      · rw [hback] at hfalse
        cases hfalse
    · refine ⟨.inl (hc.startOver hskip hphase hcount), fun hp => ?_, fun htrue => ?_,
        fun _ hne => absurd hphase hne⟩
      · rw [hphase] at hp
        cases hp
      · rw [hback] at htrue
        cases htrue
    · refine ⟨.inl ⟨hphase, ?_, fun htrue => ?_, ?_, ?_, ?_⟩, fun hp => ?_, fun htrue => ?_,
        fun _ hne => absurd hphase hne⟩
      · rw [(observe_tick _ hskip).2]
        refine tick_prevPendingSnapshot hskip fun hp => ?_
        rw [hc.phase] at hp
        cases hp
      · rw [hmode'] at htrue
        cases htrue
      · rw [hcount, (observe_tick _ hskip).1]
        exact Nat.succ_le_succ hc.length
      · rw [hcount, (observe_tick _ hskip).1, List.take_succ_cons]
        rw [List.forall_mem_cons]
        refine ⟨⟨hphase, ?_⟩, hc.flat⟩
        rw [hc.pending] at hflat
        exact hflat
      · rw [hcount]
        exact hlt
      · rw [hphase] at hp
        cases hp
      · rw [hback] at htrue
        cases htrue
    · refine ⟨.inr (unconverged_of_passthrough hphase), fun _ => ⟨hge, hc.pending ▸ hflat⟩,
        fun htrue => ?_, fun _ _ => hcount⟩
      rw [hback] at htrue
      cases htrue
  · exact hc.passthrough_tick _ hskip hmode

/-- **One step of a run that starts in CONVERGED** keeps the reentry law. -/
theorem reentry_step (hc : c.Converging h ∨ c.Unconverged) (hlaw : ReentryLaw h.ticks)
    (op : ControllerOp) :
    ((c.apply op).Converging (c.observe h op) ∨ (c.apply op).Unconverged) ∧
      ReentryLaw (c.observe h op).ticks := by
  cases hop : c.processes op
  · rw [(observe_of_not_processes hop).1]
    exact ⟨hc.imp (fun hconv => hconv.untouched hop) (fun haway => haway.apply op), hlaw⟩
  · obtain ⟨pendingCount, t, rfl, hskip⟩ := processes_eq_true hop
    rw [(observe_tick _ hskip).1]
    rcases hc with hconv | haway
    · have htick := hconv.tick pendingCount hskip
      refine ⟨htick.next, hlaw.cons fun _ hafter => ?_⟩
      obtain ⟨hge, hflat⟩ := htick.reentry hafter
      have hnine : c.passthroughQualifyCount = PASSTHROUGH_REENTER_TICKS - 1 :=
        le_antisymm (Nat.le_pred_of_lt hconv.small) (Nat.pred_le_of_le_succ hge)
      have hlength := hconv.length
      have hall := hconv.flat
      rw [hnine] at hlength hall
      refine ⟨hlength, fun q hq => (hall q hq).1, ?_⟩
      change ∀ q ∈ (c.tickRecord h pendingCount t :: h.ticks).take
        (PASSTHROUGH_REENTER_TICKS - 1 + 1), _
      rw [List.take_succ_cons, List.forall_mem_cons]
      exact ⟨hflat, fun q hq => (hall q hq).2⟩
    · exact ⟨.inr (haway.tick hskip), hlaw.cons fun hbefore _ => absurd hbefore haway.phase_ne⟩

/-- The restart law goes on to hold exactly when the step does not back off with a count. -/
theorem restart_step (hc : c.Converging h ∨ c.Unconverged) (op : ControllerOp) :
    RestartLaw (c.observe h op).ticks ↔ RestartLaw h.ticks ∧ BacksOffFresh (c, h) op := by
  cases hop : c.processes op
  · rw [(observe_of_not_processes hop).1]
    refine ⟨fun hlaw => ⟨hlaw, ?_⟩, fun hlaw => hlaw.1⟩
    cases op with
    | tick pendingCount t =>
        intro hskip
        rw [processes, hskip] at hop
        cases hop
    | _ => trivial
  · obtain ⟨pendingCount, t, rfl, hskip⟩ := processes_eq_true hop
    rw [(observe_tick _ hskip).1]
    unfold RestartLaw
    rw [List.forall_mem_cons, and_comm]
    refine and_congr_right fun _ => ?_
    change (c.phase = .converged → (c.adaptiveTick pendingCount t).ctrl.phase ≠ .converged →
      (c.adaptiveTick pendingCount t).ctrl.passthroughQualifyCount = 0) ↔
        (c.skips t = false → c.backsOff pendingCount t = true → c.passthroughQualifyCount = 0)
    rcases hc with hconv | haway
    · have htick := hconv.tick pendingCount hskip
      cases hback : c.backsOff pendingCount t
      · exact ⟨fun _ _ hfalse => Bool.noConfusion hfalse, fun _ _ => htick.restart hback⟩
      · obtain ⟨hphase, hcount⟩ := htick.backOff hback
        rw [hcount, hphase]
        exact ⟨fun hzero _ _ => hzero hconv.phase Phase.noConfusion,
          fun hzero _ _ => hzero hskip rfl⟩
    · refine ⟨fun _ _ hback => ?_, fun _ hphase => absurd hphase haway.phase_ne⟩
      simp only [backsOff, haway.phase_ne, decide_false, Bool.false_and,
        Bool.false_eq_true] at hback

/-- **Re-entry needs an uninterrupted streak in CONVERGED.** In every run from CONVERGED with the
count at 0, the tick that enters passthrough is the tenth flat tick in a row, and CONVERGED lasted
through them; and every departure restarts the count, exactly when no step of the run backs off from
CONVERGED with a count that is not 0. -/
theorem reentry_iff {c₀ : Controller} (hphase : c₀.phase = .converged)
    (hcount : c₀.passthroughQualifyCount = 0) {ops : List ControllerOp}
    {s : Controller × TickHistory}
    (hrun : Run observedSystem (c₀, { lastPending := c₀.prevPendingSnapshot }) ops s) :
    ReentryLaw s.2.ticks ∧ RestartLaw s.2.ticks ↔
      Run (observedSystem.restrict BacksOffFresh) (c₀, { lastPending := c₀.prevPendingSnapshot })
        ops s := by
  suffices h : (s.1.Converging s.2 ∨ s.1.Unconverged) ∧ ReentryLaw s.2.ticks ∧
      (RestartLaw s.2.ticks ↔ Run (observedSystem.restrict BacksOffFresh)
        (c₀, { lastPending := c₀.prevPendingSnapshot }) ops s) by
    rw [← h.2.2]
    exact and_iff_right h.2.1
  induction hrun with
  | nil =>
      refine ⟨.inl ⟨hphase, rfl, fun _ => hcount, ?_, ?_, ?_⟩, ?_, ?_⟩
      · rw [hcount]
        exact Nat.zero_le _
      · rw [hcount]
        intro q hq
        cases hq
      · rw [hcount]
        exact Nat.zero_lt_succ 9
      · intro r rs hsuffix
        exact absurd (List.suffix_nil.mp hsuffix) (List.cons_ne_nil r rs)
      · exact ⟨fun _ => Run.nil _, fun _ r hr => by cases hr⟩
  | snoc hrest hstep ih =>
      obtain ⟨hc, hlaw, hrestart⟩ := ih
      rw [hstep]
      obtain ⟨hc', hlaw'⟩ := reentry_step hc hlaw _
      refine ⟨hc', hlaw', ?_⟩
      rw [restart_step hc, hrestart]
      refine ⟨fun ⟨hrun, hfresh⟩ => hrun.snoc ⟨hfresh, rfl⟩, fun hrun => ?_⟩
      obtain ⟨s', hrun', hfresh, -⟩ := hrun.exists_of_append
      have heq := hrest.deterministic observedSystem_deterministic hrun'.of_restrict
      rw [heq]
      exact ⟨hrun', hfresh⟩

/-- A controller in CONVERGED with a ceiling of 1 ms. -/
def convergedController : Controller where
  currentInFlightLimit := 8
  sampleStartNs := 0
  maxQueueDepth := 16
  minInFlight := 4
  aimdInitialInFlight := 4
  phase := .converged
  passthroughMode := false
  maxP99Ms := 1

/-- Ten flat ticks. -/
def flatTicks : List ControllerOp := (List.range 10).map fun i : ℕ => tickAt 0 (i + 1)

/-- They enter passthrough, and no back-off interrupts them. -/
theorem reentry_iff_flat :
    (convergedController.observeOps {} flatTicks).1.phase = .passthrough ∧
    (ReentryLaw (convergedController.observeOps {} flatTicks).2.ticks ∧
        RestartLaw (convergedController.observeOps {} flatTicks).2.ticks ↔
      Run (observedSystem.restrict BacksOffFresh) (convergedController, {}) flatTicks
        (convergedController.observeOps {} flatTicks)) :=
  ⟨by decide +kernel,
    @reentry_iff convergedController rfl rfl _ _
      (observeOps_run convergedController {} flatTicks)⟩

/-- Twice twenty completions of one second and a flat tick. -/
def staleOps : List ControllerOp :=
  List.replicate 20 (.recordCompletion 1000000000 512) ++ [tickAt 0 1] ++
    List.replicate 20 (.recordCompletion 1000000000 512) ++ [tickAt 0 2]

/-- The second tick backs off, and leaves the count of the first one behind. -/
theorem reentry_stale :
    ¬ ∀ (c₀ : Controller), c₀.phase = .converged → c₀.passthroughQualifyCount = 0 →
      ∀ (ops : List ControllerOp) (s : Controller × TickHistory),
        Run observedSystem (c₀, { lastPending := c₀.prevPendingSnapshot }) ops s →
          ReentryLaw s.2.ticks ∧ RestartLaw s.2.ticks := by
  intro hclaim
  have hlaw := (hclaim convergedController rfl rfl staleOps _
    (observeOps_run convergedController {} staleOps)).2
  have hstale : ∃ r ∈ (convergedController.observeOps {} staleOps).2.ticks,
      r.before = .converged ∧ r.after = .backoff ∧ r.qualifyCount = 1 := by
    decide +kernel
  obtain ⟨r, hr, hbefore, hafter, hcount⟩ := hstale
  have hzero := hlaw r hr hbefore (by rw [hafter]; exact Phase.noConfusion)
  rw [hcount] at hzero
  cases hzero

end Controller

end Aura
