import Aura.Engine.Drain
import Aura.Engine.Select

/-!
# The submission path

`submit_begin`, `submit_end` and `submit_abort` of `aura.c`, and the `ring_submit_*` call between
them.

`submit_begin` picks a ring (`pickRing`: the pinned ring of a link chain, else by the configured
mode) and takes a slot of it, either on the lockless path of a sole owner (`submitBeginFast`) or
under the ring lock (`submitBeginLocked`). Both make room on a ring at its in-flight limit by
flushing and reaping; each reap is followed by `setMark`.
-/

namespace Aura

open Lib

/-- `ring_can_submit`. -/
def RingCtx.canSubmit (r : RingCtx) : Bool :=
  r.adaptive.passthroughMode || r.pendingCount < r.adaptive.currentInFlightLimit

/-- `ring_should_flush`. -/
def RingCtx.shouldFlush (r : RingCtx) : Bool := r.adaptive.currentBatchThreshold ≤ r.queuedSqes

/-- `submit_ctx_t`. -/
structure SubmitCtx where
  ring : ℕ
  opIdx : ℕ
  lockSt : Bool
deriving DecidableEq, Repr

section

variable (env : Env) (cb : Callback)

/-! ## `submit_begin` -/

/-- `ring_get_request`, as a program. -/
def getRequest (i : ℕ) : AuraM (Option ℕ) :=
  Prog.update fun w =>
    match ringGetRequest (w.ring i) with
    | none => (none, w)
    | some (op, r) => (some op, w.setRing i r)

/-- Clear the link state of the thread. -/
def clearLink : AuraM Unit := onTls fun t => { t with linkRing := none, linkDepth := 0 }

/-- The ring of a submission: the pinned ring of a link chain, if its pointer belongs to this
engine, else the configured choice. A stale chain is forgotten. -/
def pickRing : AuraM ℕ := do
  let pinned ← Prog.read fun w => w.engine.ringOf w.tls w.tls.linkRing
  match pinned with
  | some i => pure i
  | none => do
      let linked ← Prog.read fun w => w.tls.linkRing
      Prog.when linked.isSome clearLink
      selectRing env

/-- The last step of the lockless path. -/
def takeSlotFast (i : ℕ) : AuraM (Option SubmitCtx) := do
  match ← getRequest i with
  | none => do
      setErrno ENOMEM
      pure none
  | some op => pure (some ⟨i, op, true⟩)

/-- The lockless path of `submit_begin` on a ring at its in-flight limit, after it flushed and
reaped. -/
def retryFast (i : ℕ) : AuraM (Option SubmitCtx) := do
  setMark
  let can ← readRing i RingCtx.canSubmit
  if can then takeSlotFast i
  else do
    setErrno EAGAIN
    pure none

/-- The lockless path of `submit_begin`. -/
def submitBeginFast (i : ℕ) : AuraM (Option SubmitCtx) := do
  let can ← readRing i RingCtx.canSubmit
  if can then takeSlotFast i
  else do
    let _ ← ringFlushFast env i
    let _ ← ringDrainCqesFast env cb i
    retryFast i

/-- The last step of the locked path. -/
def takeSlotLocked (i : ℕ) (st : Bool) : AuraM (Option SubmitCtx) := do
  match ← getRequest i with
  | none => do
      ringUnlock i st
      setErrno ENOMEM
      pure none
  | some op => pure (some ⟨i, op, st⟩)

/-- The poll of the locked path, which lets go of the lock meanwhile. -/
def pollUnlocked (i : ℕ) (st : Bool) : AuraM Bool := do
  ringUnlock i st
  let _ ← ringPoll env cb i
  setMark
  ringLock i

/-- The locked path of `submit_begin` on a ring at its in-flight limit, after its flush. -/
def submitBeginRetry (allowPoll : Bool) (i : ℕ) (st : Bool) : AuraM (Option SubmitCtx) := do
  let st ← (if allowPoll then pollUnlocked env cb i st else pure st)
  let can ← readRing i RingCtx.canSubmit
  if can then takeSlotLocked i st
  else do
    ringUnlock i st
    setErrno EAGAIN
    pure none

/-- The locked path of `submit_begin`. -/
def submitBeginLocked (allowPoll : Bool) (i : ℕ) : AuraM (Option SubmitCtx) := do
  let st ← ringLock i
  let can ← readRing i RingCtx.canSubmit
  if can then takeSlotLocked i st
  else
    match ← ringFlushLatching env i with
    | .fatal => do
        ringUnlock i st
        pure none
    | .retry => do
        setErrno 0
        submitBeginRetry env cb allowPoll i st
    | .ok => submitBeginRetry env cb allowPoll i st

/-- Does the submission path skip the ring lock? -/
def World.skipsLock (w : World) (i : ℕ) : Bool :=
  w.engine.ringIsSoleOwner i && w.tls.linkRing.isNone

/-- `submit_begin`. -/
def submitBegin (allowPoll : Bool) : AuraM (Option SubmitCtx) := do
  let fatal ← checkFatalSubmitErrno
  let shuttingDown ← Prog.read fun w => w.engine.shuttingDown
  if fatal then pure none
  else if shuttingDown then do
    setErrno ESHUTDOWN
    pure none
  else do
    let i ← pickRing env
    let fast ← Prog.read fun w => w.skipsLock i
    if fast then submitBeginFast env cb i else submitBeginLocked env cb allowPoll i

/-! ## `ring_submit_*` on a slot -/

/-- The position the next prepared entry gets among all entries ever prepared on the ring. -/
def RingCtx.nextPosition (r : RingCtx) : ℕ := r.handed.length + r.sq.length

/-- Write the fields of the request that was taken. -/
def fillRequest (ctx : SubmitCtx) (f : RingCtx → Request → Request) : AuraM Unit :=
  onRing ctx.ring fun r => r.setRequest ctx.opIdx (f r (r.requests ctx.opIdx))

/-- A `ring_submit_*` function on the request that was taken; it remembers the entry it prepared in
`tls_last_sqe`. -/
def submitRequest (f : RingSubmitFn) (ctx : SubmitCtx) : AuraM Bool := do
  let w ← Prog.read id
  match f (env.now w.clock) (w.ring ctx.ring) ctx.opIdx with
  | .error e => do
      setErrno e
      pure false
  | .ok r => do
      let old := w.ring ctx.ring
      logEvent fun w =>
        .prepared w.tls.callbackContextDepth ctx.ring old.nextPosition old.handed.length
      onRing ctx.ring fun _ => r
      onTls fun t => { t with lastSqe := some (ctx.ring, old.nextPosition % old.sqEntries) }
      pure true

/-! ## `submit_end` and `submit_abort` -/

/-- Remember the ring of the submission in `tls_last_ring`. -/
def rememberLastRing (i : ℕ) : AuraM Unit :=
  Prog.modify fun w => { w with tls := { w.tls with lastRing := some (w.engine.ringAddr i) } }

/-- `submit_end` inside a link chain: flush, leave the chain, release. A context without the mutex
acquires the ring lock first. -/
def submitEndChain (ctx : SubmitCtx) : AuraM Unit := do
  let st ← (if ctx.lockSt then ringLock ctx.ring else pure false)
  let _ ← ringFlushLatching env ctx.ring
  clearLink
  onTls fun t => { t with lastSqe := none }
  ringUnlock ctx.ring st

/-- `submit_end`. -/
def submitEnd (ctx : SubmitCtx) : AuraM Unit := do
  let q ← readRing ctx.ring fun r => r.requests ctx.opIdx
  Prog.when q.usesRegisteredFile
    (onRing ctx.ring fun r => { r with fixedFileInflight := r.fixedFileInflight + 1 })
  let w ← Prog.read id
  rememberLastRing ctx.ring
  if w.skipsLock ctx.ring then do
    let flush ← readRing ctx.ring RingCtx.shouldFlush
    Prog.when flush do
      let _ ← ringFlushFast env ctx.ring
      pure ()
  else if w.tls.linkRing.isSome then submitEndChain env ctx
  else do
    let flush ← readRing ctx.ring RingCtx.shouldFlush
    Prog.when flush do
      let _ ← ringFlushLatching env ctx.ring
      pure ()
    ringUnlock ctx.ring ctx.lockSt

/-- `submit_abort`. -/
def submitAbort (ctx : SubmitCtx) : AuraM Unit := do
  onRing ctx.ring (ringPutRequest · ctx.opIdx)
  let linked ← Prog.read fun w => w.tls.linkRing
  Prog.when linked.isSome do
    let _ ← ringFlush env .abort ctx.ring
    clearLink
  ringUnlock ctx.ring ctx.lockSt

end

/-! ## The three ways through `submit_begin` -/

section

variable (env : Env) (cb : Callback) (allowPoll : Bool) {w : World}

theorem submitBegin_of_fatal (h : w.engine.fatalSubmitErrno ≠ 0) :
    submitBegin env cb allowPoll w =
      .ret none { w with tls := { w.tls with errno := w.engine.fatalSubmitErrno } } := by
  simp [submitBegin, checkFatalSubmitErrno, h, setErrno, onTls]

theorem submitBegin_of_shuttingDown (h : w.engine.fatalSubmitErrno = 0)
    (hdown : w.engine.shuttingDown = true) :
    submitBegin env cb allowPoll w =
      .ret none { w with tls := { w.tls with errno := ESHUTDOWN } } := by
  simp [submitBegin, checkFatalSubmitErrno, h, hdown, setErrno, onTls]

theorem submitBegin_of_open (h : w.engine.fatalSubmitErrno = 0)
    (hdown : w.engine.shuttingDown = false) :
    submitBegin env cb allowPoll w = (pickRing env w).bind fun i w₁ =>
      if w₁.skipsLock i then submitBeginFast env cb i w₁
      else submitBeginLocked env cb allowPoll i w₁ := by
  simp [submitBegin, checkFatalSubmitErrno, h, hdown]

end

end Aura
