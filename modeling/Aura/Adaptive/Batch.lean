import Aura.Adaptive.Spikes

/-!
# The batch threshold

The optimizer moves the batch threshold by one at a time within its range, and the public setter may
leave any other value behind when it turns the optimizer on again.

* `batch_threshold_in_range` — where it does not, the threshold is in range while the optimizer is
  on.
* `batch_threshold_stays_off` — a threshold that never flushes, kept by the optimizer.
-/

namespace Aura

open Lib

namespace Controller

variable {c : Controller} {pendingCount : ℤ} {t : TickClock}

/-- The range of the optimizer. -/
def BatchInRange (c : Controller) : Prop :=
  ADAPTIVE_MIN_BATCH ≤ c.currentBatchThreshold ∧
    c.currentBatchThreshold ≤ ADAPTIVE_MAX_BATCH_THRESHOLD

instance (c : Controller) : Decidable c.BatchInRange := inferInstanceAs (Decidable (_ ∧ _))

/-- The optimizer is not turned on again with a threshold out of its range. -/
def ReenablesInRange (c : Controller) : ControllerOp → Prop
  | .setBatchThreshold threshold =>
      threshold = -1 → c.batchThresholdFixed = true → c.BatchInRange
  | _ => True

/-- While the optimizer is on, the threshold is in its range. -/
def Tuned (c : Controller) : Prop := c.batchThresholdFixed = false → c.BatchInRange

theorem Tuned.of_eq {c' : Controller} (h : c.Tuned)
    (hbatch : c'.currentBatchThreshold = c.currentBatchThreshold)
    (hfixed : c'.batchThresholdFixed = c.batchThresholdFixed) : c'.Tuned := by
  unfold Tuned BatchInRange
  rw [hbatch, hfixed]
  exact h

theorem Tuned.optimize (h : c.Tuned) (s : TickStats) : (c.optimizeBatch s).2.Tuned := by
  unfold optimizeBatch
  split_ifs with hon hlow hhigh
  · intro hfixed
    have hmin : 2 ≤ c.currentBatchThreshold := (h hfixed).1
    have hlt : c.currentBatchThreshold < 64 := hlow.2
    exact ⟨show 2 ≤ c.currentBatchThreshold + 1 by omega,
      show c.currentBatchThreshold + 1 ≤ 64 by omega⟩
  · intro hfixed
    have hmax : c.currentBatchThreshold ≤ 64 := (h hfixed).2
    have hgt : 2 < c.currentBatchThreshold := hhigh.2
    exact ⟨show 2 ≤ c.currentBatchThreshold - 1 by omega,
      show c.currentBatchThreshold - 1 ≤ 64 by omega⟩
  · exact h
  · exact h

/-- No other part of a tick touches the threshold. -/
theorem PhaseStep.batch {c' : Controller} {s : TickStats} (h : PhaseStep c s c') :
    c'.currentBatchThreshold = c.currentBatchThreshold ∧
      c'.batchThresholdFixed = c.batchThresholdFixed := by
  cases h with
  | _ => exact ⟨rfl, rfl⟩

theorem checkReentry_batch (c : Controller) (δ : ℤ) :
    (c.checkReentry δ).2.currentBatchThreshold = c.currentBatchThreshold ∧
      (c.checkReentry δ).2.batchThresholdFixed = c.batchThresholdFixed := by
  rcases checkReentry_cases c δ with ⟨-, heq⟩ | ⟨-, -, heq⟩ | ⟨-, -, -, heq⟩ | ⟨-, -, -, heq⟩ <;>
    rw [heq] <;> exact ⟨rfl, rfl⟩

theorem countPressure_batch (c : Controller) (pressure : Bool) (now : ℤ) :
    (c.countPressure pressure now).2.currentBatchThreshold = c.currentBatchThreshold ∧
      (c.countPressure pressure now).2.batchThresholdFixed = c.batchThresholdFixed := by
  rcases c.countPressure_cases pressure now with ⟨-, hc⟩ | ⟨-, -, hc⟩ | ⟨-, -, hc⟩ <;>
    rw [hc] <;> exact ⟨rfl, rfl⟩

theorem startTick_batch (c : Controller) (pendingCount : ℤ) (t : TickClock) :
    (c.startTick pendingCount t).currentBatchThreshold = c.currentBatchThreshold ∧
      (c.startTick pendingCount t).batchThresholdFixed = c.batchThresholdFixed := by
  unfold startTick checkClock
  split_ifs <;> exact ⟨rfl, rfl⟩

/-- The swap of a tick. -/
theorem Tuned.swapped (h : c.Tuned) (pendingCount : ℤ) (t : TickClock) :
    (c.swapped pendingCount t).Tuned := by
  obtain ⟨hbatch, hfixed⟩ := c.startTick_batch pendingCount t
  exact h.of_eq hbatch hfixed

/-- **A processed tick.** -/
theorem Tuned.tick (h : c.Tuned) (hskip : c.skips t = false) (pendingCount : ℤ) :
    (c.adaptiveTick pendingCount t).ctrl.Tuned := by
  cases hpass : c.passthroughMode with
  | false =>
      have hprepared : (c.prepared pendingCount t).Tuned :=
        ((h.swapped pendingCount t).optimize (c.tickStats pendingCount t)).of_eq rfl rfl
      rw [(adaptiveTick_aimd pendingCount hskip hpass).1]
      obtain ⟨hbatch, hfixed⟩ := checkReentry_batch
        ((c.prepared pendingCount t).runPhase (c.tickStats pendingCount t)).2
        (pendingCount - c.prevPendingSnapshot)
      refine Tuned.of_eq ?_ hbatch hfixed
      by_cases hphase : (c.prepared pendingCount t).phase = .passthrough
      · unfold runPhase
        rw [hphase]
        exact hprepared
      · obtain ⟨hbatch', hfixed'⟩ := (runPhase_step _ (c.tickStats pendingCount t) hphase).batch
        exact hprepared.of_eq hbatch' hfixed'
  | true =>
      obtain ⟨c₁, now, heq, hcase⟩ := adaptiveTick_passthrough_cases pendingCount hskip hpass
      rw [heq]
      obtain ⟨hbatch, hfixed⟩ := c₁.countPressure_batch (c.underPressure pendingCount t) now
      refine Tuned.of_eq ?_ hbatch hfixed
      rcases hcase with ⟨-, rfl⟩ | ⟨-, rfl⟩
      · exact h.of_eq (c.startTick_batch pendingCount t).1 (c.startTick_batch pendingCount t).2
      · exact h.swapped pendingCount t

/-- **A step** that does not turn the optimizer on again out of range. -/
theorem Tuned.apply (h : c.Tuned) {op : ControllerOp} (hop : c.ReenablesInRange op) :
    (c.apply op).Tuned := by
  cases op with
  | tick pendingCount t =>
      cases hskip : c.skips t with
      | false => exact h.tick hskip pendingCount
      | true =>
          change (c.adaptiveTick pendingCount t).ctrl.Tuned
          rw [adaptiveTick_skipped _ hskip]
          obtain ⟨hbatch, hfixed⟩ := c.startTick_batch pendingCount t
          exact h.of_eq hbatch hfixed
  | recordCompletion latencyNs bytes => exact h.of_eq rfl rfl
  | recordSubmit n =>
      change (c.recordSubmit n).Tuned
      unfold recordSubmit
      split_ifs <;> exact h.of_eq rfl rfl
  | setMinInFlight n =>
      change (c.setMinInFlight n).Tuned
      unfold setMinInFlight
      split_ifs <;> exact h.of_eq rfl rfl
  | setMaxP99Latency x =>
      change (c.setMaxP99Latency x).Tuned
      unfold setMaxP99Latency
      split_ifs <;> exact h.of_eq rfl rfl
  | setBatchThreshold n =>
      change (c.setBatchThreshold n).Tuned
      unfold setBatchThreshold
      split_ifs with hbad hauto hoff
      · exact h
      · intro _
        cases hfixed : c.batchThresholdFixed with
        | false => exact h hfixed
        | true => exact hop hauto hfixed
      · exact fun hfixed => by cases hfixed
      · exact fun hfixed => by cases hfixed

theorem tuned_of_initial (h : c.Initial) : c.Tuned := by
  obtain ⟨o, now, initial, -, -, -, rfl⟩ := h.exists_eq
  intro hfixed
  change (if o.batchThreshold ≥ 0 then true else false) = false at hfixed
  have hneg : ¬ o.batchThreshold ≥ 0 := fun hge => by
    rw [if_pos hge] at hfixed
    cases hfixed
  change ADAPTIVE_MIN_BATCH ≤ (if o.batchThreshold = 0 then BATCH_OFF
      else if o.batchThreshold > 0 then o.batchThreshold else ADAPTIVE_MIN_BATCH) ∧
    (if o.batchThreshold = 0 then BATCH_OFF
      else if o.batchThreshold > 0 then o.batchThreshold else ADAPTIVE_MIN_BATCH) ≤
      ADAPTIVE_MAX_BATCH_THRESHOLD
  rw [if_neg (by omega), if_neg (by omega)]
  decide

/-- **The batch threshold stays in range** in every run in which the optimizer is turned on again
only with a threshold in its range: after every processed tick at which it is on, whatever it
observed. -/
theorem batch_threshold_in_range (hc : Reachable (controllerSystem.restrict ReenablesInRange) c)
    (hskip : c.skips t = false) (pendingCount : ℤ)
    (hauto : (c.adaptiveTick pendingCount t).ctrl.batchThresholdFixed = false) :
    (c.adaptiveTick pendingCount t).ctrl.BatchInRange := by
  have htuned : c.Tuned := by
    refine Reachable.invariant (I := Tuned) (fun c => tuned_of_initial) ?_ hc
    rintro c op _ h ⟨hop, rfl⟩
    exact h.apply hop
  exact htuned.tick hskip pendingCount hauto

/-- Operations that set no threshold meet the condition. -/
theorem run_reenablesInRange (c : Controller) {ops : List ControllerOp}
    (h : ∀ op ∈ ops, ∀ c, ReenablesInRange c op) :
    Run (controllerSystem.restrict ReenablesInRange) c ops (c.runOps ops) := by
  induction ops generalizing c with
  | nil => exact Run.nil c
  | cons op ops ih =>
      have hfirst : (controllerSystem.restrict ReenablesInRange).step c op (c.apply op) :=
        ⟨h op List.mem_cons_self c, rfl⟩
      exact (Run.single hfirst).append (ih (c.apply op) fun op' hop =>
        h op' (List.mem_cons_of_mem _ hop))

/-- Into PROBING, and a submit of four SQEs. -/
def submitOps : List ControllerOp := intoProbing ++ [.recordSubmit 4]

/-- The tick after it raises the threshold to 3. -/
theorem batch_threshold_in_range_three :
    (shallowController.runOps submitOps).phase = .probing ∧
    ((shallowController.runOps submitOps).adaptiveTick 0
      ⟨4 * 10 ^ 9, 4 * 10 ^ 9, 4 * 10 ^ 9⟩).ctrl.currentBatchThreshold = 3 ∧
    ((shallowController.runOps submitOps).adaptiveTick 0
      ⟨4 * 10 ^ 9, 4 * 10 ^ 9, 4 * 10 ^ 9⟩).ctrl.BatchInRange := by
  have hops : ∀ op ∈ submitOps, ∀ c, ReenablesInRange c op := by
    intro op hop c
    rcases List.mem_append.mp hop with htick | hsubmit
    · obtain ⟨i, -, rfl⟩ := List.mem_map.mp htick
      trivial
    · rw [List.mem_singleton.mp hsubmit]
      trivial
  exact ⟨by decide +kernel, by decide +kernel, batch_threshold_in_range
    ⟨_, _, shallowController_initial, run_reenablesInRange shallowController hops⟩
    (by decide +kernel) 0 (by decide +kernel)⟩

/-- A threshold that never flushes, then the optimizer, and a submit in PROBING. -/
def staysOffOps : List ControllerOp :=
  [.setBatchThreshold 0, .setBatchThreshold (-1)] ++ intoProbing ++ [.recordSubmit 4]

/-- The optimizer keeps it. -/
theorem batch_threshold_stays_off :
    ¬ ∀ c : Controller, Reachable controllerSystem c → ∀ (pendingCount : ℤ) (t : TickClock),
      c.skips t = false → c.phase ≠ .passthrough → (c.checkClock t).submitCalls ≠ 0 →
      c.batchThresholdFixed = false → (c.adaptiveTick pendingCount t).ctrl.BatchInRange := by
  intro hclaim
  have hrange := hclaim _ (reachable_runOps shallowController_initial staysOffOps) 0
    ⟨4 * 10 ^ 9, 4 * 10 ^ 9, 4 * 10 ^ 9⟩ (by decide +kernel) (by decide +kernel) (by decide +kernel)
    (by decide +kernel)
  have hoff : ((shallowController.runOps staysOffOps).adaptiveTick 0
      ⟨4 * 10 ^ 9, 4 * 10 ^ 9, 4 * 10 ^ 9⟩).ctrl.currentBatchThreshold = BATCH_OFF := by
    decide +kernel
  have hle := hrange.2
  rw [hoff] at hle
  exact absurd hle (by decide)

end Controller

end Aura
