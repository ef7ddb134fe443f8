import Aura.Engine.Calls
import Aura.Engine.Registration

/-!
# Linking, cancelling and event processing

`aura_request_set_linked`, `aura_cancel`, `aura_flush`, `aura_poll`, `aura_wait` and `aura_drain`.
`auraPoll` and `auraWait` have three paths each, as in the source: a single ring that the thread
owns alone, the thread's own ring in thread-local mode, and the general loop over all rings.

`apiCall` dispatches over all library calls, and `callback` ties the knot: it runs the user's
program for a completed request, whose calls may again complete requests.
-/

namespace Aura

open Lib

/-! ## Linking -/

/-- Set the link flag of the entry in queue slot `slot` of the ring, if an entry the kernel has not
accepted lies there. -/
def RingCtx.linkSlot (r : RingCtx) (slot : ℕ) : RingCtx :=
  { r with sq := r.sq.mapIdx fun k sqe =>
      if (r.handed.length + k) % r.sqEntries = slot then { sqe with ioLink := true } else sqe }

/-- Set the link flag through `tls_last_sqe`. -/
def linkLastSqe : Option (ℕ × ℕ) → AuraM Unit
  | some (i, slot) => onRing i (·.linkSlot slot)
  | none => pure ()

/-- `aura_request_set_linked`. -/
def auraRequestSetLinked (req : Option ReqPtr) : AuraM ℤ := do
  let tls ← Prog.read fun w => w.tls
  match req, tls.engine with
  | some (i, op), some ⟨_, .threadLocal⟩ => do
      onRing i fun r => r.setRequest op { r.requests op with linked := true }
      linkLastSqe tls.lastSqe
      Prog.when tls.lastRing.isSome
        (onTls fun t => { t with linkRing := t.lastRing, linkDepth := t.linkDepth + 1 })
      pure 0
  | _, _ => do
      setErrno EINVAL
      pure (-1)

section

variable (env : Env) (cb : Callback)

/-! ## Cancelling and flushing -/

/-- The request of a cancel operation. -/
def Request.cancelling (q : Request) (ringIdx : ℤ) : Request :=
  { q with ringIdx, fd := -1, originalFd := -1, callback := none, userData := 0 }

/-- The end of `aura_cancel`: flush at once, and let go of the lock. -/
def cancelFlush (i : ℕ) (st : Bool) : AuraM ℤ := do
  match ← ringFlushLatching env i with
  | .ok => do
      ringUnlock i st
      pure 0
  | .retry => do
      setErrno 0
      ringUnlock i st
      pure 0
  | .fatal => do
      ringUnlock i st
      let fatal ← Prog.read fun w => w.engine.fatalSubmitErrno
      setErrno fatal
      pure (-1)

/-- `ring_submit_cancel` with the request in slot `op`. -/
def submitCancel (i target op : ℕ) : AuraM Bool := do
  let r ← readRing i id
  match ringSubmitCancel r op target with
  | .error e => do
      setErrno e
      pure false
  | .ok r' => do
      onRing i fun _ => r'
      onTls fun t => { t with lastSqe := none }
      pure true

/-- `ring_submit_cancel` from a slot just taken, and what follows it. -/
def cancelWith (i target op : ℕ) (st : Bool) : AuraM ℤ := do
  fillRequest ⟨i, op, st⟩ fun r q => q.cancelling r.ringIdx
  if ← submitCancel i target op then cancelFlush env i st
  else do
    onRing i (ringPutRequest · op)
    ringUnlock i st
    pure (-1)

/-- The part of `aura_cancel` under the ring lock. -/
def cancelLocked (i target : ℕ) (st : Bool) : AuraM ℤ := do
  let q ← readRing i fun r => r.requests target
  if !q.pending then do
    ringUnlock i st
    setErrno EALREADY
    pure (-1)
  else do
    match ← getRequest i with
    | none => do
        ringUnlock i st
        setErrno ENOMEM
        pure (-1)
    | some op => cancelWith env i target op st

/-- `aura_cancel`. The request is one of its ring's, as every handle the library gives out is. -/
def auraCancel (req : Option ReqPtr) : AuraM ℤ := do
  let e ← Prog.read fun w => w.engine
  match req with
  | none => do
      setErrno EINVAL
      pure (-1)
  | some (i, target) =>
      if e.shuttingDown then do
        setErrno ESHUTDOWN
        pure (-1)
      else if !((e.rings i).requests target).pending then do
        setErrno EALREADY
        pure (-1)
      else if e.ringCount ≤ i then do
        setErrno EINVAL
        pure (-1)
      else do
        let st ← ringLock i
        cancelLocked env i target st

/-- The locked flush of one ring in `aura_flush`; `true` if it failed fatally. -/
def flushLocked (i : ℕ) : AuraM Bool := do
  let st ← ringLock i
  let status ← ringFlushLatching env i
  ringUnlock i st
  pure (status = .fatal)

/-- Sum a quantity over the rings, in order. -/
def overRings (f : ℕ → AuraM ℕ) : List ℕ → AuraM ℕ
  | [] => pure 0
  | i :: is => do
      let n ← f i
      let m ← overRings f is
      pure (n + m)

/-- The indices of all rings. -/
def allRings : AuraM (List ℕ) := Prog.read fun w => List.range w.engine.ringCount

/-- `aura_flush`. -/
def auraFlush : AuraM ℤ := do
  let rings ← allRings
  let fatal ← overRings (fun i => do
    let f ← flushLocked env i
    pure f.toNat) rings
  if fatal ≠ 0 then do
    let err ← Prog.read fun w => w.engine.fatalSubmitErrno
    setErrno err
    pure (-1)
  else pure 0

/-! ## What `aura_poll` and `aura_wait` share -/

/-- The ring of the fast paths of `aura_poll` and `aura_wait`: the only ring, if the thread is its
sole owner, else the thread's own ring in thread-local mode. -/
def World.ownRing (w : World) : Option ℕ :=
  if w.engine.ringCount = 1 ∧ w.engine.ringIsSoleOwner 0 then some 0
  else if w.engine.ringSelect = .threadLocal then w.engine.ringOf w.tls w.tls.ownedRing
  else none

/-- The ring of the fast paths is one of the engine's. -/
theorem ownRing_lt {w : World} {i : ℕ} (h : w.ownRing = some i) : i < w.engine.ringCount := by
  unfold World.ownRing at h
  split at h
  · next hone =>
      cases h
      omega
  · split at h
    · unfold Engine.ringOf at h
      split at h
      · split at h
        · next hrange =>
            cases h
            omega
        · cases h
      · cases h
    · cases h

/-- The flush of the fast paths. -/
def flushOwn (i : ℕ) : AuraM Unit := do
  let st ← readRing i fun r => r.singleThread
  if st then do
    let _ ← ringFlushFast env i
    pure ()
  else do
    let st ← ringLock i
    let _ ← flushRingChecked env i
    ringUnlock i st

/-- The finalization of the fast paths, skipped when nothing is pending. -/
def finalizeOwn : AuraM Unit := do
  let e ← Prog.read fun w => w.engine
  Prog.when (e.buffersUnregPending || e.filesUnregPending) do
    let _ ← maybeFinalizeDeferredUnregistration
    pure ()

/-- The common beginning of the fast paths: flush, poll, finalize. -/
def pollOwn (i : ℕ) : AuraM ℕ := do
  flushOwn env i
  let n ← ringPoll env cb i
  finalizeOwn
  pure n

/-- `if (engine->eventfd_registered) drain_eventfd(engine)`. -/
def drainEventfdIfRegistered : AuraM Unit := do
  let e ← Prog.read fun w => w.engine
  Prog.when e.eventfdRegistered drainEventfd

/-! ## `aura_poll` -/

/-- The first pass of `aura_poll`: the fatal flag, the rings skipped, the completions. -/
def pollPass : List ℕ → AuraM (Bool × ℕ × ℕ)
  | [] => pure (false, 0, 0)
  | i :: is => do
      match ← ringTrylock i with
      | some st => do
          let fatal ← flushRingChecked env i
          ringUnlock i st
          let n ← ringPoll env cb i
          let (fatal', skipped, total) ← pollPass is
          pure (fatal || fatal', skipped, n + total)
      | none => do
          let (fatal', skipped, total) ← pollPass is
          pure (fatal', skipped + 1, total)

/-- The second pass of `aura_poll`: the fatal flag and the completions. -/
def pollPassBlocking : List ℕ → AuraM (Bool × ℕ)
  | [] => pure (false, 0)
  | i :: is => do
      let st ← ringLock i
      let fatal ← flushRingChecked env i
      ringUnlock i st
      let n ← ringPoll env cb i
      let (fatal', total) ← pollPassBlocking is
      pure (fatal || fatal', n + total)

/-- The end of `aura_poll`. -/
def pollResult (fatalLatched : Bool) (total : ℕ) : AuraM ℤ := do
  let fin ← maybeFinalizeDeferredUnregistration
  if fin ≠ 0 ∧ total = 0 then pure (-1)
  else if fatalLatched ∧ total = 0 then do
    let err ← Prog.read fun w => w.engine.fatalSubmitErrno
    setErrno err
    pure (-1)
  else pure total

/-- `aura_poll`. -/
def auraPoll : AuraM ℤ := do
  let own ← Prog.read World.ownRing
  match own with
  | some i => do
      let n ← pollOwn env cb i
      pure n
  | none => do
      let latched ← Prog.read fun w => w.engine.fatalSubmitErrno
      let fin ← maybeFinalizeDeferredUnregistration
      if fin ≠ 0 then pure (-1)
      else do
        drainEventfdIfRegistered
        let rings ← allRings
        let (fatal, skipped, total) ← pollPass env cb rings
        if skipped > 0 ∧ total = 0 then do
          let (fatal', total') ← pollPassBlocking env cb rings
          pollResult (latched ≠ 0 || fatal || fatal') total'
        else pollResult (latched ≠ 0 || fatal) total

/-! ## `aura_wait` -/

/-- The flush-and-poll pass of `aura_wait`: the fatal flag, the first ring that had operations
pending, the completions. -/
def waitPass : List ℕ → AuraM (Bool × Option ℕ × ℕ)
  | [] => pure (false, none, 0)
  | i :: is => do
      let st ← ringLock i
      let fatal ← flushRingChecked env i
      let pending ← readRing i fun r => r.pendingCount
      ringUnlock i st
      let n ← ringPoll env cb i
      let (fatal', first, total) ← waitPass is
      pure (fatal || fatal', if pending > 0 then some i else first, n + total)

/-- Return `n` completions, after a last finalization. -/
def waitReturn (n : ℕ) : AuraM ℤ := do
  let fin ← maybeFinalizeDeferredUnregistration
  if fin ≠ 0 then pure (-1) else pure n

/-- The end of `aura_wait` when operations were pending and none completed. -/
def waitTimedOut : AuraM ℤ := do
  let fin ← maybeFinalizeDeferredUnregistration
  if fin ≠ 0 then pure (-1)
  else do
    setErrno ETIMEDOUT
    pure (-1)

/-- How `poll` on the event descriptor returns. -/
inductive PollResult
  | ready | timeout
  | error (e : Errno)
deriving DecidableEq, Repr

/-- `poll` on the event descriptor: at once if it is readable, else as the surroundings say; without
a deadline it does not time out. -/
def pollEventfd (timeoutMs : ℤ) : AuraM PollResult := do
  kernelTurn env
  let w ← Prog.read id
  if w.engine.eventFd.getD 0 > 0 then pure .ready
  else
    match env.wait w.clock with
    | some e => do
        setErrno e
        pure (.error e)
    | none => if timeoutMs < 0 then Prog.block else pure .timeout

/-- The last look of `aura_wait` at all rings, without flushing. -/
def waitLastPoll : AuraM ℤ := do
  let rings ← allRings
  let completed ← overRings (ringPoll env cb) rings
  if completed > 0 then waitReturn completed else waitTimedOut

/-- Flush a ring under its lock and poll it. -/
def flushAndPoll (i : ℕ) : AuraM ℕ := do
  let st ← ringLock i
  let _ ← flushRingChecked env i
  ringUnlock i st
  ringPoll env cb i

/-- Blocking on the event descriptor. -/
def waitOnEventfd (timeoutMs : ℤ) : AuraM ℤ := do
  match ← pollEventfd env timeoutMs with
  | .ready => do
      drainEventfd
      let rings ← allRings
      let completed ← overRings (flushAndPoll env cb) rings
      let fin ← maybeFinalizeDeferredUnregistration
      if fin ≠ 0 then pure (-1)
      else if completed > 0 then pure completed
      else waitLastPoll env cb
  | .timeout => waitLastPoll env cb
  | .error e => if e.1 ≠ EINTR then pure (-1) else waitLastPoll env cb

/-- Blocking on the first pending ring, when there is no event descriptor. -/
def waitOnRing (first : ℕ) (timeoutMs : ℤ) : AuraM ℤ := do
  let completed ← ringWait env cb first timeoutMs
  if completed > 0 then do
    let rings ← allRings
    let more ← overRings (ringPoll env cb) (rings.filter (· ≠ first))
    waitReturn (completed.toNat + more)
  else if completed < 0 then pure (-1)
  else waitTimedOut

/-- Blocking for the first pending ring, if there is one. -/
def waitPending (timeoutMs : ℤ) : Option ℕ → AuraM ℤ
  | none => pure 0
  | some first => do
      let fd ← Prog.read fun w => w.engine.eventFd
      if fd.isSome then waitOnEventfd env cb timeoutMs else waitOnRing env cb first timeoutMs

/-- The general path of `aura_wait`. -/
def waitGeneral (timeoutMs : ℤ) : AuraM ℤ := do
  let latched ← Prog.read fun w => w.engine.fatalSubmitErrno
  let fin ← maybeFinalizeDeferredUnregistration
  if fin ≠ 0 then pure (-1)
  else do
    drainEventfdIfRegistered
    let rings ← allRings
    let (fatal, first, total) ← waitPass env cb rings
    if total > 0 then waitReturn total
    else if latched ≠ 0 || fatal then do
      let err ← Prog.read fun w => w.engine.fatalSubmitErrno
      setErrno err
      pure (-1)
    else waitPending env cb timeoutMs first

/-- The fast paths of `aura_wait`. -/
def waitOwn (i : ℕ) (timeoutMs : ℤ) : AuraM ℤ := do
  let n ← pollOwn env cb i
  if n > 0 then pure n else ringWait env cb i timeoutMs

/-- `aura_wait`. -/
def auraWait (timeoutMs : ℤ) : AuraM ℤ := do
  let own ← Prog.read World.ownRing
  match own with
  | some i => waitOwn env cb i timeoutMs
  | none => waitGeneral env cb timeoutMs

/-! ## `aura_drain` -/

/-- Some ring has operations pending. -/
def Engine.hasPending (e : Engine) : Bool :=
  (List.range e.ringCount).any fun i => (e.rings i).pendingCount > 0

/-- The wait of one drain iteration, in milliseconds: capped at 100, at least 1. -/
def drainWaitMs (remainingNs : ℤ) : ℤ :=
  let ms := Int.tdiv remainingNs 1000000
  let ms := if ms ≤ 0 then 1 else ms
  if ms > 100 then 100 else ms

/-- How one iteration of `aura_drain` ends: the drain returns, or goes on with a new total. -/
inductive DrainStep
  | finished (n : ℤ)
  | again (total : ℕ)
deriving DecidableEq, Repr

/-- The wait of one iteration of `aura_drain`: an error other than a time-out ends the drain. -/
def drainWait (waitMs : ℤ) (total : ℕ) : AuraM DrainStep := do
  let n ← auraWait env cb waitMs
  let err ← getErrno
  if n < 0 ∧ err ≠ ETIMEDOUT then pure (.finished (-1)) else pure (.again (total + n.toNat))

/-- One iteration of `aura_drain`. -/
def drainOnce (timeoutMs deadlineNs : ℤ) (total : ℕ) : AuraM DrainStep := do
  let fin ← maybeFinalizeDeferredUnregistration
  let w ← Prog.read id
  if fin ≠ 0 then pure (.finished (-1))
  else if !w.engine.hasPending then do
    let fin ← maybeFinalizeDeferredUnregistration
    if fin ≠ 0 then pure (.finished (-1)) else pure (.finished total)
  else if timeoutMs = 0 then do
    let n ← auraPoll env cb
    pure (.finished (if 0 ≤ n then total + n else if total > 0 then total else n))
  else if timeoutMs < 0 then drainWait env cb 100 total
  else if deadlineNs - env.now w.clock ≤ 0 then do
    setErrno ETIMEDOUT
    pure (.finished (-1))
  else drainWait env cb (drainWaitMs (deadlineNs - env.now w.clock)) total

/-- The loop of `aura_drain`. -/
def drainIterations (timeoutMs deadlineNs : ℤ) : ℕ → ℕ → AuraM ℤ
  | 0, _ => Prog.block
  | fuel + 1, total => do
      match ← drainOnce env cb timeoutMs deadlineNs total with
      | .finished n => pure n
      | .again total => drainIterations timeoutMs deadlineNs fuel total

/-- `aura_drain`. -/
def auraDrain (timeoutMs : ℤ) : AuraM ℤ := do
  let clock ← Prog.read fun w => w.clock
  let deadline := if timeoutMs > 0 then env.now clock + timeoutMs * 1000000 else 0
  drainIterations env cb timeoutMs deadline env.fuel 0

/-! ## All calls, and callbacks -/

/-- A library call. -/
def apiCall : ApiCall → AuraM ApiResult
  | .submit call args => do
      let r ← auraSubmit env cb call args
      pure (.req r)
  | .setLinked req => do
      let n ← auraRequestSetLinked req
      pure (.code n)
  | .cancel req => do
      let n ← auraCancel env req
      pure (.code n)
  | .flush => do
      let n ← auraFlush env
      pure (.code n)
  | .poll => do
      let n ← auraPoll env cb
      pure (.code n)
  | .wait timeoutMs => do
      let n ← auraWait env cb timeoutMs
      pure (.code n)
  | .drain timeoutMs => do
      let n ← auraDrain env cb timeoutMs
      pure (.code n)
  | .registerBuffers iovs => do
      let n ← auraRegisterBuffers env iovs
      pure (.code n)
  | .registerFiles fds => do
      let n ← auraRegisterFiles env fds
      pure (.code n)
  | .requestUnregister type => do
      let n ← auraRequestUnregister type
      pure (.code n)
  | .updateFile index fd => do
      let n ← auraUpdateFile env index fd
      pure (.code n)

/-- Run a user's program. -/
def runUser : UserProg → AuraM Unit
  | .done => pure ()
  | .call c next => do
      let r ← apiCall env cb c
      runUser (next r)

end

/-- Run the callback of a request, with callbacks nested at most `depth` deep. -/
def callback (env : Env) : ℕ → Callback
  | 0, _, _ => Prog.block
  | depth + 1, q, result =>
      match q.callback with
      | none => pure ()
      | some f => runUser env (callback env depth) (env.script f q.userData result)

end Aura
