import Aura.Adaptive.Steps
import Aura.Lib.System

/-!
# Runs of the controller

The controller as a transition system: completions and submits are recorded, the tick thread ticks
and the public setters set, in any order (`ControllerOp`, `controllerSystem`). Only a processed tick
touches the state machine (`Controller.apply_untouched`). -/

namespace Aura

open Lib

/-- What can happen to a controller. -/
inductive ControllerOp
  | recordCompletion (latencyNs : ℤ) (bytes : UInt64)
  | recordSubmit (sqeCount : ℤ)
  | tick (pendingCount : ℤ) (t : TickClock)
  | setMinInFlight (minInFlight : ℤ)
  | setMaxP99Latency (latencyMs : ℚ)
  | setBatchThreshold (threshold : ℤ)

namespace Controller

/-- One step of the controller. -/
def apply (c : Controller) : ControllerOp → Controller
  | .recordCompletion latencyNs bytes => c.recordCompletion latencyNs bytes
  | .recordSubmit sqeCount => c.recordSubmit sqeCount
  | .tick pendingCount t => (c.adaptiveTick pendingCount t).ctrl
  | .setMinInFlight minInFlight => c.setMinInFlight minInFlight
  | .setMaxP99Latency latencyMs => c.setMaxP99Latency latencyMs
  | .setBatchThreshold threshold => c.setBatchThreshold threshold

/-- The controllers of new rings. -/
def Initial (c : Controller) : Prop := ∃ (o : TuningOptions) (now : ℤ), o.controller now = some c

end Controller

/-- The controller of a ring and everything that happens to it. -/
def controllerSystem : System Controller ControllerOp where
  init := Controller.Initial
  step c op c' := c' = c.apply op

/-! ## Steps that are not processed ticks -/

namespace Controller

/-- A step that is no processed tick leaves the state machine, its history of pending counts and the
windows alone; the setters of the limits are the exception. -/
structure Untouched (c c' : Controller) : Prop where
  phase : c'.phase = c.phase
  passthroughMode : c'.passthroughMode = c.passthroughMode
  limit : c'.currentInFlightLimit = c.currentInFlightLimit
  max : c'.maxQueueDepth = c.maxQueueDepth
  min : c'.minInFlight = c.minInFlight ∨ 1 ≤ c'.minInFlight ∧ c'.minInFlight ≤ c.maxQueueDepth
  initial : c'.aimdInitialInFlight = c.aimdInitialInFlight
  prevInFlightLimit : c'.prevInFlightLimit = c.prevInFlightLimit
  plateauCount : c'.plateauCount = c.plateauCount
  spikeCount : c'.spikeCount = c.spikeCount
  enteredViaBackoff : c'.enteredViaBackoff = c.enteredViaBackoff
  passthroughQualifyCount : c'.passthroughQualifyCount = c.passthroughQualifyCount
  pressureQualifyCount : c'.pressureQualifyCount = c.pressureQualifyCount
  prevPendingSnapshot : c'.prevPendingSnapshot = c.prevPendingSnapshot
  p99Window : c'.p99Window = c.p99Window
  throughputWindow : c'.throughputWindow = c.throughputWindow
  baselineWindow : c'.baselineWindow = c.baselineWindow

/-- Is the operation a tick that is processed? -/
def processes (c : Controller) : ControllerOp → Bool
  | .tick _ t => !c.skips t
  | _ => false

theorem apply_untouched (c : Controller) {op : ControllerOp} (h : c.processes op = false) :
    c.Untouched (c.apply op) := by
  cases op with
  | tick pendingCount t =>
      have hskip : c.skips t = true := by simpa [processes] using h
      rw [apply, adaptiveTick_skipped _ hskip]
      unfold checkClock
      split_ifs <;>
        exact ⟨rfl, rfl, rfl, rfl, .inl rfl, rfl, rfl, rfl, rfl, rfl, rfl, rfl, rfl, rfl, rfl, rfl⟩
  | setMinInFlight n =>
      change c.Untouched (c.setMinInFlight n)
      unfold setMinInFlight
      split_ifs with hn
      · exact ⟨rfl, rfl, rfl, rfl, .inl rfl, rfl, rfl, rfl, rfl, rfl, rfl, rfl, rfl, rfl, rfl, rfl⟩
      · refine ⟨rfl, rfl, rfl, rfl, .inr ?_, rfl, rfl, rfl, rfl, rfl, rfl, rfl, rfl, rfl, rfl, rfl⟩
        exact ⟨not_lt.mp (not_or.mp hn).1, not_lt.mp (not_or.mp hn).2⟩
  | recordCompletion latencyNs bytes =>
      exact ⟨rfl, rfl, rfl, rfl, .inl rfl, rfl, rfl, rfl, rfl, rfl, rfl, rfl, rfl, rfl, rfl, rfl⟩
  | recordSubmit n =>
      change c.Untouched (c.recordSubmit n)
      unfold recordSubmit
      split_ifs <;>
        exact ⟨rfl, rfl, rfl, rfl, .inl rfl, rfl, rfl, rfl, rfl, rfl, rfl, rfl, rfl, rfl, rfl, rfl⟩
  | setMaxP99Latency x =>
      change c.Untouched (c.setMaxP99Latency x)
      unfold setMaxP99Latency
      split_ifs <;>
        exact ⟨rfl, rfl, rfl, rfl, .inl rfl, rfl, rfl, rfl, rfl, rfl, rfl, rfl, rfl, rfl, rfl, rfl⟩
  | setBatchThreshold n =>
      change c.Untouched (c.setBatchThreshold n)
      unfold setBatchThreshold
      split_ifs <;>
        exact ⟨rfl, rfl, rfl, rfl, .inl rfl, rfl, rfl, rfl, rfl, rfl, rfl, rfl, rfl, rfl, rfl, rfl⟩

/-- A processed operation is a tick. -/
theorem processes_eq_true {c : Controller} {op : ControllerOp} (h : c.processes op = true) :
    ∃ pendingCount t, op = .tick pendingCount t ∧ c.skips t = false := by
  cases op with
  | tick pendingCount t => exact ⟨pendingCount, t, rfl, by simpa [processes] using h⟩
  | _ => cases h

end Controller

end Aura
