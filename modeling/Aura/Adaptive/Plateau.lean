import Aura.Adaptive.Invariant

/-!
# Probing never settles

A plateau tick leaves the limit alone, and after a tick that left the limit alone there is no
efficiency ratio: the next tick raises the limit and forgets the plateau, or finds it at its maximum
and counts without looking at the count. So the third plateau tick in a row never comes.

* `Controller.Unconverged` — the states from which CONVERGED is out of reach. Every reachable state
  is one (`reachable_unconverged`), and no step leaves them (`Unconverged.apply`).
* `flat_probing_forever` — however long the measurements stay flat, PROBING goes on.
-/

namespace Aura

open Lib

namespace Controller

/-! ## The states that do not converge -/

/-- CONVERGED is out of reach: SETTLING and STEADY only ever follow a back-off, BASELINE starts
without a plateau, and in PROBING there is no efficiency ratio after a plateau tick. -/
def Unconverged (c : Controller) : Prop :=
  match c.phase with
  | .baseline => c.plateauCount = 0
  | .probing => 0 < c.plateauCount → c.prevInFlightLimit = c.currentInFlightLimit
  | .settling => c.enteredViaBackoff = true
  | .steady => c.enteredViaBackoff = true
  | .backoff => True
  | .passthrough => True
  | .converged => False

theorem unconverged_of_passthrough {c : Controller} (h : c.phase = .passthrough) :
    c.Unconverged := by
  unfold Unconverged
  rw [h]
  trivial

theorem unconverged_baseline {c : Controller} (h : c.phase = .baseline) :
    c.Unconverged ↔ c.plateauCount = 0 := by
  unfold Unconverged
  rw [h]

theorem unconverged_probing {c : Controller} (h : c.phase = .probing) :
    c.Unconverged ↔ (0 < c.plateauCount → c.prevInFlightLimit = c.currentInFlightLimit) := by
  unfold Unconverged
  rw [h]

theorem unconverged_via {c : Controller} (h : c.phase = .settling ∨ c.phase = .steady) :
    c.Unconverged ↔ c.enteredViaBackoff = true := by
  unfold Unconverged
  rcases h with h | h <;> rw [h]

theorem Unconverged.phase_ne {c : Controller} (h : c.Unconverged) : c.phase ≠ .converged := by
  intro hphase
  unfold Unconverged at h
  rw [hphase] at h
  exact h

/-- A change that leaves these five variables alone. -/
theorem Unconverged.of_eq {c c' : Controller} (h : c.Unconverged) (hphase : c'.phase = c.phase)
    (hplateau : c'.plateauCount = c.plateauCount)
    (hprev : c'.prevInFlightLimit = c.prevInFlightLimit)
    (hlimit : c'.currentInFlightLimit = c.currentInFlightLimit)
    (hvia : c'.enteredViaBackoff = c.enteredViaBackoff) : c'.Unconverged := by
  unfold Unconverged
  rw [hphase, hplateau, hprev, hlimit, hvia]
  exact h

/-- **A step of the state machine.** `c₀` is the controller at the start of the tick, and `c` the
one that the state machine sees. -/
theorem PhaseStep.unconverged {c₀ c c' : Controller} {s : TickStats} (hcore : c₀.SameCore c)
    (hprev : c.prevInFlightLimit = c₀.currentInFlightLimit)
    (hratio : s.efficiencyRatio.isSome ↔
      0 < c₀.prevInFlightLimit ∧ c₀.prevInFlightLimit < c₀.currentInFlightLimit)
    (h : c₀.Unconverged) (hstep : PhaseStep c s c') : c'.Unconverged := by
  have hlimit : c.prevInFlightLimit = c.currentInFlightLimit := hprev.trans hcore.limit.symm
  have hphase₀ := hcore.phase
  have hvia₀ (hphase : c.phase = .settling ∨ c.phase = .steady) : c.enteredViaBackoff = true := by
    rw [hcore.enteredViaBackoff]
    exact (unconverged_via (hphase₀ ▸ hphase)).mp h
  cases hstep with
  | warmUp hphase =>
      rw [unconverged_baseline (by exact hphase)]
      exact hcore.plateauCount.trans ((unconverged_baseline (hphase₀ ▸ hphase)).mp h)
  | startProbing hphase => exact fun _ => rfl
  | backOff n hphase hrising hspike => trivial
  | noSamples hphase hk hs =>
      refine (unconverged_probing ?_).mpr fun _ => hlimit
      exact hphase
  | increase hphase hk hs hlt =>
      refine (unconverged_probing ?_).mpr fun hpos => absurd hpos (Nat.lt_irrefl 0)
      exact hphase
  | improveAtMax hphase hk hs hsome hmax =>
      refine (unconverged_probing ?_).mpr fun _ => hlimit
      exact hphase
  | stuckAtMax hphase hk hs hnone hmax =>
      refine (unconverged_probing ?_).mpr fun _ => hlimit
      exact hphase
  | plateau hphase hk hs hsome hcount =>
      refine (unconverged_probing ?_).mpr fun _ => hlimit
      exact hphase
  | settle hphase hs hsome hcount =>
      -- after a plateau tick there is no ratio, so this cannot be the third one
      have heq := (unconverged_probing (hphase₀ ▸ hphase)).mp h
      have hlt := (hratio.mp hsome).2
      have hplateau := hcore.plateauCount
      omega
  | settlingSpike hphase hrising => trivial
  | settlingWait hphase hrising =>
      refine (unconverged_via (.inl ?_)).mpr (hvia₀ (.inl hphase))
      exact hphase
  | settled hphase hrising htimer => exact hvia₀ (.inl hphase)
  | reprobe hphase hk hvia => exact fun hpos => absurd hpos (Nat.lt_irrefl 0)
  | converge hphase hk hvia =>
      rw [hvia₀ (.inr hphase)] at hvia
      cases hvia
  | steadyWait hphase hk =>
      refine (unconverged_via (.inr ?_)).mpr (hvia₀ (.inr hphase))
      exact hphase
  | decrease hphase => exact rfl
  | convergedWait hphase hk => exact absurd (hphase₀ ▸ hphase) h.phase_ne

/-- PROBING ends with rising latency, or on the third plateau tick that had an efficiency ratio. -/
theorem PhaseStep.leavesProbing {c c' : Controller} {s : TickStats} (hstep : PhaseStep c s c')
    (hphase : c.phase = .probing) :
    c'.phase = .probing ∨ s.latencyRising = true ∨
      (c'.phase = .settling ∧ c'.enteredViaBackoff = false) := by
  cases hstep with
  | backOff n h hrising hspike => exact .inr (.inl hrising)
  | settle h hs hsome hcount => exact .inr (.inr ⟨rfl, rfl⟩)
  | settlingSpike h hrising => exact .inr (.inl hrising)
  | reprobe h hk hvia => exact .inl rfl
  | startProbing h => exact .inl rfl
  | settled h hrising htimer =>
      rw [hphase] at h
      cases h
  | converge h hk hvia =>
      rw [hphase] at h
      cases h
  | decrease h =>
      rw [hphase] at h
      cases h
  | _ => exact .inl hphase

theorem startTick_prevInFlightLimit (c : Controller) (pendingCount : ℤ) (t : TickClock) :
    (c.startTick pendingCount t).prevInFlightLimit = c.prevInFlightLimit :=
  (c.checkClock_eq t).2.1

/-- A passthrough tick engages AIMD or leaves the state machine alone. -/
theorem countPressure_unconverged {c : Controller} (h : c.Unconverged) (pressure : Bool) (now : ℤ) :
    (c.countPressure pressure now).2.Unconverged := by
  rcases c.countPressure_cases pressure now with ⟨-, heq⟩ | ⟨-, -, heq⟩ | ⟨-, -, heq⟩ <;> rw [heq]
  · exact h
  · exact h
  · exact rfl

/-- The state machine of a processed tick. -/
theorem Unconverged.runPhase {c : Controller} (h : c.Unconverged) (pendingCount : ℤ)
    (t : TickClock) :
    ((c.prepared pendingCount t).runPhase (c.tickStats pendingCount t)).2.Unconverged := by
  by_cases hphase : (c.prepared pendingCount t).phase = .passthrough
  · refine unconverged_of_passthrough ?_
    unfold Controller.runPhase
    rw [hphase]
    exact hphase
  · exact (runPhase_step _ _ hphase).unconverged (c.prepared_core pendingCount t)
      (c.prepared_prevInFlightLimit pendingCount t) (c.tickStats_ratio_isSome pendingCount t) h

/-- The check for re-entry finds nothing to do. -/
theorem Unconverged.checkReentry {c : Controller} (h : c.Unconverged) (δ : ℤ) :
    (c.checkReentry δ).2 = c := by
  rcases checkReentry_cases c δ with ⟨-, heq⟩ | ⟨hphase, -⟩ | ⟨hphase, -⟩ | ⟨hphase, -⟩
  · exact heq
  all_goals exact absurd hphase h.phase_ne

/-- A processed tick. -/
theorem Unconverged.tick {c : Controller} (h : c.Unconverged) {pendingCount : ℤ} {t : TickClock}
    (hskip : c.skips t = false) : (c.adaptiveTick pendingCount t).ctrl.Unconverged := by
  cases hmode : c.passthroughMode
  · have hrun := h.runPhase pendingCount t
    rw [(adaptiveTick_aimd _ hskip hmode).1, hrun.checkReentry]
    exact hrun
  · obtain ⟨c₁, now, heq, hcase⟩ := adaptiveTick_passthrough_cases pendingCount
      hskip hmode
    rw [heq]
    refine countPressure_unconverged ?_ _ _
    have hprev := startTick_prevInFlightLimit c pendingCount t
    rcases hcase with ⟨-, rfl⟩ | ⟨-, rfl⟩
    · have hcore := c.startTick_core pendingCount t
      exact h.of_eq hcore.phase hcore.plateauCount hprev hcore.limit hcore.enteredViaBackoff
    · have hcore := c.swapped_core pendingCount t
      exact h.of_eq hcore.phase hcore.plateauCount hprev hcore.limit hcore.enteredViaBackoff

/-- **No step brings CONVERGED within reach.** -/
theorem Unconverged.apply {c : Controller} (h : c.Unconverged) (op : ControllerOp) :
    (c.apply op).Unconverged := by
  cases hop : c.processes op
  · have hu := c.apply_untouched hop
    exact h.of_eq hu.phase hu.plateauCount hu.prevInFlightLimit hu.limit hu.enteredViaBackoff
  · obtain ⟨pendingCount, t, rfl, hskip⟩ := processes_eq_true hop
    exact h.tick hskip

/-- **CONVERGED is never reached.** -/
theorem reachable_unconverged {c : Controller} (h : Reachable controllerSystem c) :
    c.Unconverged := by
  refine Reachable.invariant (I := Unconverged) ?_ ?_ h
  · exact fun _ hc => unconverged_of_passthrough (Initial.phase_eq hc)
  · rintro c op _ hc rfl
    exact hc.apply op

/-! ## Flat measurements -/

/-- The controller after a list of operations. -/
def runOps (c : Controller) (ops : List ControllerOp) : Controller := ops.foldl Controller.apply c

/-- An operation of a flat run: no ceiling is configured, and a processed tick measures the
throughput `x` over at least one sample and finds that latency is not rising. -/
def FlatOp (x : ℚ) (c : Controller) : ControllerOp → Prop
  | .tick pendingCount t => c.skips t = true ∨
      ((c.tickStats pendingCount t).sampleCount ≠ 0 ∧
        (c.tickStats pendingCount t).throughputBps = x ∧
        (c.tickStats pendingCount t).latencyRising = false)
  | .setMaxP99Latency latencyMs => latencyMs ≤ 0
  | _ => True

/-- A run of flat measurements. -/
def Flat (x : ℚ) : Controller → List ControllerOp → Prop
  | c, [] => c.maxP99Ms ≤ 0
  | c, op :: ops => c.maxP99Ms ≤ 0 ∧ FlatOp x c op ∧ Flat x (c.apply op) ops

/-- The number of processed ticks of a run. -/
def processedTicks : Controller → List ControllerOp → ℕ
  | _, [] => 0
  | c, op :: ops => (if c.processes op then 1 else 0) + processedTicks (c.apply op) ops

/-- The phase leaves PROBING for SETTLING within the first `n` processed ticks of the run. -/
def SettlesWithin (c : Controller) (n : ℕ) (ops : List ControllerOp) : Prop :=
  ∃ ops', ops' <+: ops ∧ processedTicks c ops' ≤ n ∧ (c.runOps ops').phase = .settling

/-- One step of a flat run in PROBING. -/
theorem flatOp_probing {x : ℚ} {c : Controller} {op : ControllerOp} (hsound : c.Sound)
    (hc : c.Unconverged) (hphase : c.phase = .probing) (hflat : FlatOp x c op) :
    (c.apply op).phase = .probing := by
  cases hop : c.processes op
  · exact (c.apply_untouched hop).phase.trans hphase
  · obtain ⟨pendingCount, t, rfl, hskip⟩ := processes_eq_true hop
    obtain ⟨-, -, hrising⟩ := hflat.resolve_left (by rw [hskip]; exact Bool.false_ne_true)
    have hmode : c.passthroughMode = false := by
      rw [← Bool.not_eq_true, hsound.mode, hphase]
      exact Phase.noConfusion
    have hrun := hc.runPhase pendingCount t
    have hprobing : (c.prepared pendingCount t).phase = .probing :=
      (c.prepared_core pendingCount t).phase.trans hphase
    have hstep := runPhase_step (c.prepared pendingCount t) (c.tickStats pendingCount t)
      (by rw [hprobing]; exact Phase.noConfusion)
    change (c.adaptiveTick pendingCount t).ctrl.phase = .probing
    rw [(adaptiveTick_aimd _ hskip hmode).1, hrun.checkReentry]
    rcases hstep.leavesProbing hprobing with heq | htrue | ⟨heq, hvia⟩
    · exact heq
    · rw [hrising] at htrue
      cases htrue
    · rw [(unconverged_via (.inl heq)).mp hrun] at hvia
      cases hvia

/-- **Flat measurements never end PROBING.** -/
theorem flat_probing {x : ℚ} {ops : List ControllerOp} {c : Controller}
    (hc : Reachable controllerSystem c) (hphase : c.phase = .probing) (hflat : Flat x c ops) :
    (c.runOps ops).phase = .probing := by
  induction ops generalizing c with
  | nil => exact hphase
  | cons op ops ih =>
      have hstep := flatOp_probing (reachable_sound hc) (reachable_unconverged hc) hphase hflat.2.1
      exact ih (hc.step rfl) hstep hflat.2.2

/-- A prefix of a flat run is flat. -/
theorem Flat.of_prefix {x : ℚ} {ops' ops : List ControllerOp} {c : Controller} (h : Flat x c ops)
    (hp : ops' <+: ops) : Flat x c ops' := by
  induction ops' generalizing c ops with
  | nil =>
      cases ops with
      | nil => exact h
      | cons => exact h.1
  | cons op ops' ih =>
      obtain ⟨rest, rfl⟩ := hp
      exact ⟨h.1, h.2.1, ih h.2.2 (List.prefix_append _ _)⟩

/-- **PROBING does not end on a plateau**: whatever flat measurements a reachable controller in
PROBING sees, and however many, it neither settles nor reaches STEADY or CONVERGED. -/
theorem flat_probing_forever {c : Controller} (hc : Reachable controllerSystem c)
    (hphase : c.phase = .probing) {x : ℚ} {ops : List ControllerOp} (hflat : Flat x c ops) (n : ℕ) :
    ¬ c.SettlesWithin n ops ∧ ∀ ops', ops' <+: ops → (c.runOps ops').phase = .probing := by
  have hall (ops' : List ControllerOp) (hp : ops' <+: ops) : (c.runOps ops').phase = .probing :=
    flat_probing hc hphase (hflat.of_prefix hp)
  refine ⟨?_, hall⟩
  rintro ⟨ops', hp, -, hsettling⟩
  rw [hall ops' hp] at hsettling
  cases hsettling

/-! ## A flat run -/

instance (x : ℚ) (c : Controller) (op : ControllerOp) : Decidable (FlatOp x c op) :=
  match op with
  | .tick _ _ => inferInstanceAs (Decidable (_ ∨ _))
  | .setMaxP99Latency _ => inferInstanceAs (Decidable (_ ≤ _))
  | .recordCompletion _ _ => isTrue trivial
  | .recordSubmit _ => isTrue trivial
  | .setMinInFlight _ => isTrue trivial
  | .setBatchThreshold _ => isTrue trivial

instance Flat.decidable (x : ℚ) :
    (c : Controller) → (ops : List ControllerOp) → Decidable (Flat x c ops)
  | c, [] => inferInstanceAs (Decidable (c.maxP99Ms ≤ 0))
  | c, op :: ops =>
      have := Flat.decidable x (c.apply op) ops
      inferInstanceAs (Decidable (c.maxP99Ms ≤ 0 ∧ FlatOp x c op ∧ Flat x (c.apply op) ops))

/-- A controller with queue depth 4 that starts AIMD from a limit of 1. -/
def shallowController : Controller where
  currentInFlightLimit := 4
  sampleStartNs := 0
  maxQueueDepth := 4
  minInFlight := 1
  aimdInitialInFlight := 1

theorem shallowController_initial : shallowController.Initial :=
  ⟨{ queueDepth := 4, initialInFlight := 1, minInFlight := 1 }, 0, rfl⟩

/-- A tick after `k` periods of 200 ms. -/
def tickAt (pendingCount : ℤ) (k : ℕ) : ControllerOp :=
  .tick pendingCount ⟨200000000 * k, 200000000 * k, 200000000 * k⟩

/-- Eight ticks under pressure and ten ticks of BASELINE. -/
def intoProbing : List ControllerOp :=
  (List.range 18).map fun i : ℕ => tickAt (17 * (i + 1)) (i + 1)

/-- Twelve periods with one completion each. -/
def flatRun : List ControllerOp :=
  (List.range 12).flatMap fun i => [.recordCompletion 1000000000 1000, tickAt 0 (i + 19)]

/-- The controller in PROBING, with a limit of 1. -/
def probingController : Controller := shallowController.runOps intoProbing

theorem probingController_reachable : Reachable controllerSystem probingController :=
  ⟨_, _, shallowController_initial,
    Run.foldl (f := apply) (fun _ _ => rfl) shallowController intoProbing⟩

theorem flatRun_flat : Flat 5000 probingController flatRun := by decide +kernel

/-- After twelve flat ticks the controller with the maximum 4 is at its maximum, and has counted
seven plateau ticks in PROBING. -/
theorem flat_probing_forever_shallow : ¬ probingController.SettlesWithin 12 flatRun :=
  (flat_probing_forever probingController_reachable (by decide +kernel) flatRun_flat 12).1

/-- PROBING does not end within `2 * (M - L) + 6` flat ticks. -/
theorem flat_probing_unsettled :
    ¬ ∀ c : Controller, Reachable controllerSystem c → c.phase = .probing →
      ∀ (x : ℚ) (ops : List ControllerOp), Flat x c ops →
        2 * (c.maxQueueDepth - c.currentInFlightLimit) + 6 ≤ processedTicks c ops →
        c.SettlesWithin (2 * (c.maxQueueDepth - c.currentInFlightLimit) + 6).toNat ops := by
  intro hclaim
  obtain ⟨ops', hp, -, hsettling⟩ := hclaim probingController probingController_reachable
    (by decide +kernel) 5000 flatRun flatRun_flat (by decide +kernel)
  rw [flat_probing probingController_reachable (by decide +kernel)
    (flatRun_flat.of_prefix hp)] at hsettling
  cases hsettling

end Controller

end Aura
