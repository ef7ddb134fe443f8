import Aura.Adaptive.Plateau
import Mathlib.Data.List.Induction

/-!
# Spikes and back-off

A tick backs off on the second spike in a row, and the back-off lowers the limit.

* `Controller.SpikesCounted` — the invariant: a spike count that is not 0 was left by the last
  processed tick, which saw latency rise.
* `spikes_confirmed` — who backs off, and what lowers the limit.
* `backoff_lowers` — what a tick in BACKOFF does to the limit, whatever minimum was set meanwhile.
-/

namespace Aura

open Lib

namespace Controller

variable {c : Controller} {s : TickStats} {pendingCount : ℤ} {t : TickClock}

/-! ## Processed ticks -/

/-- A processed tick counts pressure in passthrough, and otherwise takes a step of the state machine
and checks for re-entry. -/
theorem tick_cases (pendingCount : ℤ) (hmode : c.passthroughMode = true ↔ c.phase = .passthrough)
    (hskip : c.skips t = false) :
    (c.phase = .passthrough ∧ ∃ c₁ pressure now, c.SameCore c₁ ∧
      (c.adaptiveTick pendingCount t).ctrl = (c₁.countPressure pressure now).2) ∨
    (c.phase ≠ .passthrough ∧
      (c.adaptiveTick pendingCount t).stats = some (c.tickStats pendingCount t) ∧
      ∃ c₁ δ, PhaseStep (c.prepared pendingCount t) (c.tickStats pendingCount t) c₁ ∧
        (c.adaptiveTick pendingCount t).ctrl =
          { (c₁.checkReentry δ).2 with sampleStartNs := t.later }) := by
  cases hpass : c.passthroughMode with
  | true =>
      obtain ⟨c₁, now, heq, hcase⟩ := adaptiveTick_passthrough_cases pendingCount hskip hpass
      refine .inl ⟨hmode.mp hpass, c₁, _, now, ?_, heq⟩
      rcases hcase with ⟨-, rfl⟩ | ⟨-, rfl⟩
      · exact c.startTick_core pendingCount t
      · exact (c.swapped_core pendingCount t).trans
          ⟨rfl, rfl, rfl, rfl, rfl, rfl, rfl, rfl, rfl, rfl, rfl, rfl⟩
  | false =>
      have hphase : c.phase ≠ .passthrough := by
        rw [ne_eq, ← hmode, hpass]
        exact Bool.false_ne_true
      obtain ⟨hctrl, hstats, -⟩ := adaptiveTick_aimd pendingCount hskip hpass
      refine .inr ⟨hphase, hstats, _, _, runPhase_step _ _ ?_, hctrl⟩
      rw [(c.prepared_core pendingCount t).phase]
      exact hphase

/-- The check for re-entry enters passthrough, or leaves the phase and the limit alone. -/
theorem checkReentry_phase (c : Controller) (δ : ℤ) :
    (c.checkReentry δ).2.spikeCount = c.spikeCount ∧
      (((c.checkReentry δ).2.phase = c.phase ∧
          (c.checkReentry δ).2.currentInFlightLimit = c.currentInFlightLimit) ∨
        (c.phase = .converged ∧ (c.checkReentry δ).2.phase = .passthrough ∧
          (c.checkReentry δ).2.currentInFlightLimit = c.maxQueueDepth)) := by
  rcases checkReentry_cases c δ with ⟨-, heq⟩ | ⟨-, -, heq⟩ | ⟨-, -, -, heq⟩ |
    ⟨hconv, -, -, heq⟩ <;>
    rw [heq]
  · exact ⟨rfl, .inl ⟨rfl, rfl⟩⟩
  · exact ⟨rfl, .inl ⟨rfl, rfl⟩⟩
  · exact ⟨rfl, .inl ⟨rfl, rfl⟩⟩
  · exact ⟨rfl, .inr ⟨hconv, rfl, rfl⟩⟩

/-! ## The spike count -/

/-- The phases that count spikes. -/
def CountsSpikes (p : Phase) : Prop := p = .probing ∨ p = .steady ∨ p = .converged

/-- A step of the state machine leaves a spike count only after rising latency. -/
theorem PhaseStep.spikes {c' : Controller} (h : PhaseStep c s c')
    (hc : 1 ≤ c.spikeCount → CountsSpikes c.phase) (hc' : 1 ≤ c'.spikeCount) :
    s.latencyRising = true ∧ CountsSpikes c'.phase := by
  have hcounted {k : ℕ} (hk : c.SpikeCounted s k) (hpos : 1 ≤ k) : s.latencyRising = true := by
    rcases hk with ⟨hrising, -, -⟩ | ⟨-, hzero⟩
    · exact hrising
    · omega
  have hother (hphase : c.phase = .baseline ∨ c.phase = .settling ∨ c.phase = .backoff) :
      ¬ 1 ≤ c.spikeCount := by
    intro hpos
    rcases hphase with hphase | hphase | hphase <;>
      rcases hc hpos with h | h | h <;> rw [hphase] at h <;> cases h
  cases h with
  | warmUp hphase | startProbing hphase => exact absurd hc' (hother (.inl hphase))
  | settlingWait hphase | settled hphase => exact absurd hc' (hother (.inr (.inl hphase)))
  | decrease hphase => exact absurd hc' (hother (.inr (.inr hphase)))
  | backOff | settle | settlingSpike => exact absurd hc' (Nat.not_succ_le_zero 0)
  | noSamples hphase hk | increase hphase hk | improveAtMax hphase hk | stuckAtMax hphase hk
  | plateau hphase hk => exact ⟨hcounted hk hc', .inl hphase⟩
  | reprobe hphase hk => exact ⟨hcounted hk hc', .inl rfl⟩
  | converge hphase hk => exact ⟨hcounted hk hc', .inr (.inr rfl)⟩
  | steadyWait hphase hk => exact ⟨hcounted hk hc', .inr (.inl hphase)⟩
  | convergedWait hphase hk => exact ⟨hcounted hk hc', .inr (.inr hphase)⟩

/-- A step of the state machine that backs off. -/
theorem PhaseStep.backsOff {c' : Controller} (h : PhaseStep c s c') (hphase : c.phase ≠ .backoff)
    (hc' : c'.phase = .backoff) : s.latencyRising = true ∧
      (c.phase = .settling ∨ CountsSpikes c.phase ∧ 1 ≤ c.spikeCount) := by
  cases h with
  | backOff n hcounts hrising hspike => exact ⟨hrising, .inr ⟨hcounts, hspike⟩⟩
  | settlingSpike hsettling hrising => exact ⟨hrising, .inl hsettling⟩
  | startProbing | settle | settled | reprobe | converge | decrease => cases hc'
  | _ => exact absurd hc' hphase

/-- A step of the state machine that lowers the limit. -/
theorem PhaseStep.lowers {c' : Controller} (h : PhaseStep c s c')
    (hc' : c'.currentInFlightLimit < c.currentInFlightLimit) : c.phase = .backoff := by
  cases h with
  | decrease hphase => exact hphase
  | increase => exact absurd hc' (by dsimp only; omega)
  | _ => exact absurd hc' (lt_irrefl _)

/-! ## Runs -/

/-- A processed tick whose statistics say that latency is rising. -/
def risesOn (c : Controller) : ControllerOp → Bool
  | .tick pendingCount t => (c.adaptiveTick pendingCount t).stats.any TickStats.latencyRising
  | _ => false

/-- Latency was rising on the last processed tick of the run. -/
def RoseLast (c₀ : Controller) (ops : List ControllerOp) : Prop :=
  ∃ ops₁ op₁ ops₂, ops = ops₁ ++ op₁ :: ops₂ ∧ (c₀.runOps ops₁).risesOn op₁ = true ∧
    processedTicks ((c₀.runOps ops₁).apply op₁) ops₂ = 0

theorem runOps_append (c : Controller) (ops ops' : List ControllerOp) :
    c.runOps (ops ++ ops') = (c.runOps ops).runOps ops' := List.foldl_append

theorem processedTicks_append (c : Controller) (ops ops' : List ControllerOp) :
    processedTicks c (ops ++ ops') =
      processedTicks c ops + processedTicks (c.runOps ops) ops' := by
  induction ops generalizing c with
  | nil => exact (Nat.zero_add _).symm
  | cons op ops ih =>
      change _ + processedTicks (c.apply op) (ops ++ ops') = _ + processedTicks (c.apply op) ops + _
      rw [ih, ← Nat.add_assoc]
      rfl

theorem RoseLast.quiet {c₀ : Controller} {ops : List ControllerOp} (h : RoseLast c₀ ops)
    {op : ControllerOp} (hop : (c₀.runOps ops).processes op = false) :
    RoseLast c₀ (ops ++ [op]) := by
  obtain ⟨ops₁, op₁, ops₂, rfl, hrises, hquiet⟩ := h
  refine ⟨ops₁, op₁, ops₂ ++ [op], by rw [List.append_assoc]; rfl, hrises, ?_⟩
  have hend : ((c₀.runOps ops₁).apply op₁).runOps ops₂ = c₀.runOps (ops₁ ++ op₁ :: ops₂) :=
    (runOps_append c₀ ops₁ (op₁ :: ops₂)).symm
  rw [processedTicks_append, hquiet, hend]
  change 0 + ((if (c₀.runOps (ops₁ ++ op₁ :: ops₂)).processes op then 1 else 0) + 0) = 0
  rw [hop]
  rfl

/-- **A spike count that is not 0** was left by the last processed tick. In passthrough nobody looks
at it. -/
def SpikesCounted (c₀ : Controller) (ops : List ControllerOp) : Prop :=
  1 ≤ (c₀.runOps ops).spikeCount → (c₀.runOps ops).phase = .passthrough ∨
    CountsSpikes (c₀.runOps ops).phase ∧ RoseLast c₀ ops

variable {c₀ : Controller} {ops : List ControllerOp} {op : ControllerOp}

theorem reachable_runOps (h₀ : c₀.Initial) (ops : List ControllerOp) :
    Reachable controllerSystem (c₀.runOps ops) :=
  ⟨_, _, h₀, Run.foldl (f := apply) (fun _ _ => rfl) c₀ ops⟩

theorem runOps_snoc (c₀ : Controller) (ops : List ControllerOp) (op : ControllerOp) :
    c₀.runOps (ops ++ [op]) = (c₀.runOps ops).apply op := runOps_append c₀ ops [op]

/-- What a run counts before a step of the state machine. -/
theorem SpikesCounted.prepared (h : SpikesCounted c₀ ops)
    (hphase : (c₀.runOps ops).phase ≠ .passthrough)
    (hpos : 1 ≤ ((c₀.runOps ops).prepared pendingCount t).spikeCount) :
    CountsSpikes ((c₀.runOps ops).prepared pendingCount t).phase ∧ RoseLast c₀ ops := by
  have hcore := (c₀.runOps ops).prepared_core pendingCount t
  rw [hcore.spikeCount] at hpos
  rw [hcore.phase]
  exact (h hpos).resolve_left hphase

/-- **One more operation** keeps the spike count accounted for. -/
theorem SpikesCounted.snoc (h₀ : c₀.Initial) (h : SpikesCounted c₀ ops) (op : ControllerOp) :
    SpikesCounted c₀ (ops ++ [op]) := by
  have hsound := reachable_sound (reachable_runOps h₀ ops)
  intro hpos
  rw [runOps_snoc] at hpos ⊢
  cases hop : (c₀.runOps ops).processes op with
  | false =>
      have hsame := (c₀.runOps ops).apply_untouched hop
      rw [hsame.spikeCount] at hpos
      rw [hsame.phase]
      exact (h hpos).imp id fun ⟨hphase, hrose⟩ => ⟨hphase, hrose.quiet hop⟩
  | true =>
      obtain ⟨pendingCount, t, rfl, hskip⟩ := processes_eq_true hop
      change 1 ≤ ((c₀.runOps ops).adaptiveTick pendingCount t).ctrl.spikeCount at hpos
      change ((c₀.runOps ops).adaptiveTick pendingCount t).ctrl.phase = _ ∨
        CountsSpikes ((c₀.runOps ops).adaptiveTick pendingCount t).ctrl.phase ∧ _
      rcases tick_cases pendingCount hsound.mode hskip with
        ⟨hpass, c₁, pressure, now, hcore, heq⟩ | ⟨hphase, hstats, c₁, δ, hstep, heq⟩
      · rw [heq] at hpos ⊢
        rcases c₁.countPressure_cases pressure now with ⟨-, hc⟩ | ⟨-, -, hc⟩ | ⟨-, -, hc⟩ <;>
          rw [hc] at hpos ⊢
        · exact .inl (hcore.phase.trans hpass)
        · exact .inl (hcore.phase.trans hpass)
        · exact absurd hpos (Nat.not_succ_le_zero 0)
      · obtain ⟨hspike, hre⟩ := c₁.checkReentry_phase δ
        rw [heq] at hpos ⊢
        dsimp only at hpos ⊢
        rw [hspike] at hpos
        obtain ⟨hrising, hcounts⟩ := hstep.spikes (fun hp => (h.prepared hphase hp).1) hpos
        rcases hre with ⟨hsame, -⟩ | ⟨-, hpassthrough, -⟩
        · rw [hsame]
          refine .inr ⟨hcounts, ops, _, [], rfl, ?_, rfl⟩
          change Option.any _ ((c₀.runOps ops).adaptiveTick pendingCount t).stats = true
          rw [hstats]
          exact hrising
        · exact .inl hpassthrough

theorem spikesCounted (h₀ : c₀.Initial) (ops : List ControllerOp) : SpikesCounted c₀ ops := by
  induction ops using List.reverseRecOn with
  | nil =>
      intro hpos
      exact .inl (Initial.phase_eq h₀)
  | append_singleton ops op ih => exact ih.snoc h₀ op

/-- **Spikes need confirmation.** In every run, the phase moves to BACKOFF only on a processed tick
that sees latency rise: in SETTLING at once, and in PROBING, STEADY or CONVERGED if latency was also
rising on the processed tick before it. The limit is lowered only by a processed tick that starts in
BACKOFF, or by the one that engages AIMD. -/
theorem spikes_confirmed {c₀ : Controller} (h₀ : c₀.Initial) (ops : List ControllerOp)
    (op : ControllerOp) :
    ((c₀.runOps ops).phase ≠ .backoff → ((c₀.runOps ops).apply op).phase = .backoff →
      (c₀.runOps ops).processes op = true ∧ (c₀.runOps ops).risesOn op = true ∧
        ((c₀.runOps ops).phase = .settling ∨
          CountsSpikes (c₀.runOps ops).phase ∧ RoseLast c₀ ops)) ∧
    (((c₀.runOps ops).apply op).currentInFlightLimit < (c₀.runOps ops).currentInFlightLimit →
      (c₀.runOps ops).processes op = true ∧
        ((c₀.runOps ops).phase = .backoff ∨
          (c₀.runOps ops).phase = .passthrough ∧
          ((c₀.runOps ops).apply op).phase = .baseline)) := by
  have hsound := reachable_sound (reachable_runOps h₀ ops)
  have hcounted := spikesCounted h₀ ops
  cases hop : (c₀.runOps ops).processes op with
  | false =>
      have hsame := (c₀.runOps ops).apply_untouched hop
      rw [hsame.phase, hsame.limit]
      exact ⟨fun hne heq => absurd heq hne, fun hlt => absurd hlt (lt_irrefl _)⟩
  | true =>
      obtain ⟨pendingCount, t, rfl, hskip⟩ := processes_eq_true hop
      change (_ → ((c₀.runOps ops).adaptiveTick pendingCount t).ctrl.phase = _ → _ ∧
        ((c₀.runOps ops).adaptiveTick pendingCount t).stats.any TickStats.latencyRising = true ∧
          _) ∧
        (((c₀.runOps ops).adaptiveTick pendingCount t).ctrl.currentInFlightLimit < _ → _ ∧ (_ ∨ _ ∧
          ((c₀.runOps ops).adaptiveTick pendingCount t).ctrl.phase = _))
      rcases tick_cases pendingCount hsound.mode hskip with
        ⟨hpass, c₁, pressure, now, hcore, heq⟩ | ⟨hphase, hstats, c₁, δ, hstep, heq⟩
      · -- in passthrough a tick engages AIMD, or changes neither the phase nor the limit
        rw [heq]
        rcases c₁.countPressure_cases pressure now with ⟨-, hc⟩ | ⟨-, -, hc⟩ | ⟨-, -, hc⟩ <;>
          rw [hc]
        · refine ⟨fun hne heq => absurd (hcore.phase.symm.trans heq) hne, fun hlt => ?_⟩
          exact absurd (hcore.limit.symm.trans_lt hlt) (lt_irrefl _)
        · refine ⟨fun hne heq => absurd (hcore.phase.symm.trans heq) hne, fun hlt => ?_⟩
          exact absurd (hcore.limit.symm.trans_lt hlt) (lt_irrefl _)
        · exact ⟨fun _ heq => (by cases heq), fun _ => ⟨rfl, .inr ⟨hpass, rfl⟩⟩⟩
      · have hprepared := (c₀.runOps ops).prepared_core pendingCount t
        obtain ⟨-, hre⟩ := c₁.checkReentry_phase δ
        rw [heq, hstats]
        dsimp only [Option.any_some]
        refine ⟨fun hne hback => ⟨rfl, ?_⟩, fun hlt => ⟨rfl, .inl ?_⟩⟩
        · have hback' : c₁.phase = .backoff := by
            rcases hre with ⟨hsame, -⟩ | ⟨-, hpassthrough, -⟩
            · exact hsame.symm.trans hback
            · rw [hpassthrough] at hback
              cases hback
          obtain ⟨hrising, hwhich⟩ := hstep.backsOff (by rw [hprepared.phase]; exact hne) hback'
          refine ⟨hrising, ?_⟩
          rcases hwhich with hsettling | ⟨-, hpos⟩
          · exact .inl (hprepared.phase.symm.trans hsettling)
          · obtain ⟨hcounts, hrose⟩ := hcounted.prepared hphase hpos
            rw [hprepared.phase] at hcounts
            exact .inr ⟨hcounts, hrose⟩
        · have hlt' : c₁.currentInFlightLimit <
              ((c₀.runOps ops).prepared pendingCount t).currentInFlightLimit := by
            rw [hprepared.limit]
            rcases hre with ⟨-, hsame⟩ | ⟨-, -, hmax⟩
            · exact hsame.symm.trans_lt hlt
            · rw [hmax, hstep.frame.max, hprepared.max] at hlt
              exact absurd hlt (not_lt.mpr hsound.limitLe)
          exact hprepared.phase.symm.trans (hstep.lowers hlt')

/-- Twenty completions of one second, and a tick. -/
def spikeAt (k : ℕ) : List ControllerOp :=
  List.replicate 20 (.recordCompletion 1000000000 512) ++ [tickAt 0 k]

/-- A run into PROBING, with a ceiling of 1 ms, and a first spike. -/
def firstSpike : List ControllerOp := intoProbing ++ [.setMaxP99Latency 1] ++ spikeAt 19 ++
  List.replicate 20 (.recordCompletion 1000000000 512)

/-- The second spike backs off. -/
theorem spikes_confirmed_second :
    (shallowController.runOps firstSpike).risesOn (tickAt 0 20) = true ∧
      ((shallowController.runOps firstSpike).phase = .settling ∨
        CountsSpikes (shallowController.runOps firstSpike).phase ∧
          RoseLast shallowController firstSpike) :=
  ((spikes_confirmed shallowController_initial firstSpike (tickAt 0 20)).1 (by decide +kernel)
    (by decide +kernel)).2

/-! ## The back-off -/

/-- What a processed tick in BACKOFF does to the limit. -/
theorem backoff_tick (hmode : c.passthroughMode = true ↔ c.phase = .passthrough)
    (hphase : c.phase = .backoff) (hskip : c.skips t = false) :
    (c.adaptiveTick pendingCount t).ctrl.currentInFlightLimit =
      (c.handleBackoffPhase).2.currentInFlightLimit := by
  have hpass : c.passthroughMode = false := by
    rw [← Bool.not_eq_true, hmode, hphase]
    exact Phase.noConfusion
  have hcore := c.prepared_core pendingCount t
  rw [(adaptiveTick_aimd pendingCount hskip hpass).1]
  have hrun : (c.prepared pendingCount t).runPhase (c.tickStats pendingCount t) =
      (c.prepared pendingCount t).handleBackoffPhase := by
    unfold runPhase
    rw [hcore.phase, hphase]
  rw [hrun]
  have hre := checkReentry_cases ((c.prepared pendingCount t).handleBackoffPhase).2
    (pendingCount - c.prevPendingSnapshot)
  rcases hre with ⟨-, heq⟩ | ⟨hconv, -⟩ | ⟨hconv, -⟩ | ⟨hconv, -⟩
  · rw [heq]
    unfold handleBackoffPhase
    dsimp only
    rw [hcore.limit, hcore.min]
  all_goals cases hconv

/-- The decrease by a fifth is strict. -/
theorem floor_decrease_lt {l : ℤ} (h : 1 ≤ l) : ⌊(l : ℚ) * ADAPTIVE_AIMD_DECREASE⌋ < l := by
  have hpos : (1 : ℚ) ≤ l := by exact_mod_cast h
  refine Int.floor_lt.mpr ?_
  simp only [ADAPTIVE_AIMD_DECREASE]
  linarith

/-- **A back-off** from a limit that is not below the minimum lowers it towards the minimum,
strictly above it and never past it; below the minimum, where only a change of the minimum can leave
the limit, it becomes the minimum. -/
theorem backoff_lowers (hc : Reachable controllerSystem c) (hphase : c.phase = .backoff)
    (hskip : c.skips t = false) (pendingCount : ℤ) :
    (c.minInFlight ≤ c.currentInFlightLimit →
      (c.adaptiveTick pendingCount t).ctrl.currentInFlightLimit ≤ c.currentInFlightLimit ∧
      (c.minInFlight < c.currentInFlightLimit →
        (c.adaptiveTick pendingCount t).ctrl.currentInFlightLimit < c.currentInFlightLimit) ∧
      c.minInFlight ≤ (c.adaptiveTick pendingCount t).ctrl.currentInFlightLimit) ∧
    (c.currentInFlightLimit < c.minInFlight →
      (c.adaptiveTick pendingCount t).ctrl.currentInFlightLimit = c.minInFlight) := by
  have hsound := reachable_sound hc
  have hlt := floor_decrease_lt hsound.limitPos
  rw [backoff_tick hsound.mode hphase hskip]
  unfold handleBackoffPhase
  dsimp only
  split_ifs with hmin <;> omega

/-- A run into BACKOFF at a limit of 2, and a minimum of 4 that is set there. -/
def raisedMinimum : List ControllerOp := firstSpike ++ [tickAt 0 20, .setMinInFlight 4]

theorem backoff_lowers_two :
    (shallowController.runOps (firstSpike ++ [tickAt 0 20])).currentInFlightLimit = 2 ∧
    ((shallowController.runOps (firstSpike ++ [tickAt 0 20])).adaptiveTick 0
      ⟨10 ^ 10, 10 ^ 10, 10 ^ 10⟩).ctrl.currentInFlightLimit < 2 := by
  have h := (backoff_lowers
    (reachable_runOps shallowController_initial (firstSpike ++ [tickAt 0 20]))
    (t := ⟨10 ^ 10, 10 ^ 10, 10 ^ 10⟩) (by decide +kernel) (by decide +kernel) 0).1
    (by decide +kernel)
  have hlimit :
      (shallowController.runOps (firstSpike ++ [tickAt 0 20])).currentInFlightLimit = 2 := by
    decide +kernel
  have hmin : (shallowController.runOps (firstSpike ++ [tickAt 0 20])).minInFlight = 1 := by
    decide +kernel
  have hlt := h.2.1
  rw [hlimit, hmin] at hlt
  exact ⟨hlimit, hlt (by decide)⟩

/-- A minimum that was set above the limit raises it. -/
theorem backoff_raises :
    ¬ ∀ c : Controller, Reachable controllerSystem c → c.phase = .backoff →
      ∀ (pendingCount : ℤ) (t : TickClock), c.skips t = false →
        (c.adaptiveTick pendingCount t).ctrl.currentInFlightLimit ≤ c.currentInFlightLimit ∧
        (c.minInFlight < c.currentInFlightLimit →
          (c.adaptiveTick pendingCount t).ctrl.currentInFlightLimit < c.currentInFlightLimit) ∧
        (c.minInFlight ≤ c.currentInFlightLimit →
          c.minInFlight ≤ (c.adaptiveTick pendingCount t).ctrl.currentInFlightLimit) := by
  intro hclaim
  have hle := (hclaim _ (reachable_runOps shallowController_initial raisedMinimum)
    (by decide +kernel) 0
    ⟨10 ^ 10, 10 ^ 10, 10 ^ 10⟩ (by decide +kernel)).1
  have hraised : ¬ ((shallowController.runOps raisedMinimum).adaptiveTick 0
      ⟨10 ^ 10, 10 ^ 10, 10 ^ 10⟩).ctrl.currentInFlightLimit ≤
      (shallowController.runOps raisedMinimum).currentInFlightLimit := by decide +kernel
  exact hraised hle

end Controller

end Aura
