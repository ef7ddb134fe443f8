import Aura.Engine.Moves

/-!
# Reaping completions and handing out a slot, along the program text

`Reaping env cb K` is a property that programs of quiet moves and moves of rings have, and so do
the two operations on the completion side that matter: logging a completion and running the
callback `cb`. The lemmas walk through draining, polling and waiting on a ring. With the flushes
known they go on to the slot of a submission on a given ring (`submitBeginFast`,
`submitBeginLocked`).
-/

namespace Aura

open Lib Lib.Prog

/-- A property that programs of quiet moves and moves of rings have, and so do reaping a completion
and running a callback. -/
structure Reaping (env : Env) (cb : Callback) (K : ProgProp) : Prop extends RingMoving K where
  completion : ∀ i c, K Unit (logEvent fun w => .completion w.tls.callbackContextDepth i c)
  invoke : ∀ q res, K Unit (invokeCallback cb q res)

namespace Reaping

variable {env : Env} {cb : Callback} {K : ProgProp}

section

variable (h : Reaping env cb K)

include h

/-! ## Draining a ring -/

theorem processReaped (i : ℕ) (c : Cqe) : K _ (Aura.processReaped env cb i c) := by
  refine h.bind (h.rings.update fun w => ?_) fun p => ?_
  · exact .single ⟨i, _, .process (env.now w.clock) c.req c.res, rfl⟩
  · obtain ⟨e, q⟩ := p
    cases q with
    | none => exact h.pure _
    | some q => exact h.andThen (h.invoke q c.res) (h.pure _)

theorem processCqe (i : ℕ) (c : Cqe) : K _ (Aura.processCqe env cb i c) :=
  h.andThen (h.completion i c) (h.processReaped i c)

theorem processBatch (i : ℕ) (cs : List Cqe) : K _ (Aura.processBatch env cb i cs) := by
  induction cs with
  | nil => exact h.pure _
  | cons c cs ih => exact h.bind (h.processCqe i c) fun _ => h.bind ih fun _ => h.pure _

theorem drainLoop (i fuel n : ℕ) : K _ (Aura.drainLoop env cb i fuel n) := by
  induction fuel generalizing n with
  | zero => exact h.block
  | succ fuel ih =>
      refine h.bind (h.readRing i _) fun size => h.bind (h.ringCqLock i) fun cqSt => ?_
      refine h.bind (h.reapBatch i size) fun batch => h.andThen (h.ringCqUnlock i cqSt) ?_
      refine h.ite (h.pure _) (h.bind (h.processBatch i batch) fun entries => ?_)
      refine h.bind (h.ringLock i) fun st => h.andThen (h.onRing fun _ => .retireBatch entries) ?_
      exact h.andThen (h.ringUnlock i st) (ih _)

theorem ringDrainCqes (i : ℕ) : K _ (Aura.ringDrainCqes env cb i) := h.drainLoop i _ _

theorem drainFastLoop (i fuel n : ℕ) : K _ (Aura.drainFastLoop env cb i fuel n) := by
  induction fuel generalizing n with
  | zero => exact h.block
  | succ fuel ih =>
      refine h.bind (h.reapCqe i) fun c => ?_
      cases c with
      | none => exact h.pure _
      | some c =>
          exact h.bind (h.processCqe i c) fun e =>
            h.andThen (h.onRing fun _ => .retireInline e) (ih _)

theorem ringDrainCqesFast (i : ℕ) : K _ (Aura.ringDrainCqesFast env cb i) :=
  h.bind (h.readRing i _) fun _ => h.ite (h.pure _) (h.drainFastLoop i _ _)

/-! ## Polling and waiting on a ring -/

theorem ringPoll (i : ℕ) : K _ (Aura.ringPoll env cb i) :=
  h.bind (h.readRing i _) fun _ => h.ite (h.pure _)
    (h.ite (h.ringDrainCqesFast i) (h.ringDrainCqes i))

theorem ringWaitDrain (i : ℕ) (ret : ℤ) : K _ (Aura.ringWaitDrain env cb i ret) :=
  h.ite (h.andThen (h.setErrno _) (h.pure _))
    (h.bind (h.ringDrainCqes i) fun _ => h.pure _)

theorem ringWait (i : ℕ) (timeoutMs : ℤ) : K _ (Aura.ringWait env cb i timeoutMs) := by
  refine h.bind (h.readRing i _) fun r => ?_
  refine h.ite (h.andThen (h.setErrno _) (h.pure _)) (h.ite (h.pure _) (h.ite ?_ ?_))
  · exact h.bind (h.ite (h.ringDrainCqesFast i) (h.ringDrainCqes i)) fun _ => h.pure _
  · refine h.bind (h.ringCqLock i) fun cqSt => h.bind (h.peekCqe i) fun c => ?_
    refine h.andThen (h.ringCqUnlock i cqSt) (h.ite ?_ ?_)
    · exact h.bind (h.ringDrainCqes i) fun _ => h.pure _
    · exact h.bind (h.ite (h.waitForever i _) (h.waitCqe i)) fun ret => h.ringWaitDrain i ret

/-! ## The slot of a submission -/

theorem submitBeginFast {i : ℕ} (hfast : K ℤ (ringFlushFast env i)) :
    K _ (Aura.submitBeginFast env cb i) :=
  h.bind (h.readRing i _) fun _ => h.ite (h.takeSlotFast i)
    (h.andThen hfast (h.andThen (h.ringDrainCqesFast i) (h.retryFast i)))

theorem pollUnlocked (i : ℕ) (st : Bool) : K _ (Aura.pollUnlocked env cb i st) :=
  h.andThen (h.ringUnlock i st) (h.andThen (h.ringPoll i) (h.andThen h.setMark (h.ringLock i)))

theorem submitBeginRetry (allowPoll : Bool) (i : ℕ) (st : Bool) :
    K _ (Aura.submitBeginRetry env cb allowPoll i st) := by
  refine h.bind (h.ite (h.pollUnlocked i st) (h.pure _)) fun st => ?_
  refine h.bind (h.readRing i _) fun can => h.ite (h.takeSlotLocked i st) ?_
  exact h.andThen (h.ringUnlock i st) (h.andThen (h.setErrno _) (h.pure _))

theorem submitBeginLocked {i : ℕ} (hlatching : K FlushStatus (ringFlushLatching env i))
    (allowPoll : Bool) : K _ (Aura.submitBeginLocked env cb allowPoll i) := by
  refine h.bind (h.ringLock i) fun st => h.bind (h.readRing i _) fun can => ?_
  refine h.ite (h.takeSlotLocked i st) (h.bind hlatching fun status => ?_)
  cases status with
  | fatal => exact h.andThen (h.ringUnlock i st) (h.pure _)
  | retry => exact h.andThen (h.setErrno _) (h.submitBeginRetry allowPoll i st)
  | ok => exact h.submitBeginRetry allowPoll i st

end

end Reaping

end Aura
