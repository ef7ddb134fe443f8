import Aura.Engine.State

/-!
# Locks, flushes and the fatal-error latch

* `ringLock`, `ringUnlock`, … — the ring locks as programs: acquiring a held mutex never returns.
* `regRdlock`, `regWrlock`, … — the registration lock (`reg_lock`).
* `ringFlush`, `ringFlushFast` — the two flush helpers over `io_uring_submit`.
* `ringFlushLatching`, `flushRingChecked` — a flush whose caller looks at the error and latches it
  when it is fatal. `submit_begin`, `submit_end`, `aura_cancel`, `aura_flush`, `aura_poll` and
  `aura_wait` all contain this check; `ring_flush_fast` and `submit_abort` do without it.
-/

namespace Aura

open Lib

/-! ## Locks -/

/-- `ring_lock`. -/
def ringLock (i : ℕ) : AuraM Bool :=
  Prog.await fun w => ((w.ring i).lock).map fun (st, r) => (st, w.setRing i r)

/-- `ring_trylock`: the flag to release by, or `none` if the mutex is held. -/
def ringTrylock (i : ℕ) : AuraM (Option Bool) :=
  Prog.update fun w =>
    match (w.ring i).trylock with
    | none => (none, w)
    | some (st, r) => (some st, w.setRing i r)

/-- `ring_unlock`. -/
def ringUnlock (i : ℕ) (st : Bool) : AuraM Unit := onRing i (·.unlock st)

/-- `ring_cq_lock`. -/
def ringCqLock (i : ℕ) : AuraM Bool :=
  Prog.await fun w => ((w.ring i).cqLock).map fun (st, r) => (st, w.setRing i r)

/-- `ring_cq_unlock`. -/
def ringCqUnlock (i : ℕ) (st : Bool) : AuraM Unit := onRing i (·.cqUnlock st)

/-- `pthread_rwlock_rdlock` on `reg_lock`. -/
def regRdlock : AuraM Unit :=
  Prog.await fun w =>
    if w.engine.regWriter then none
    else some ((), { w with engine := { w.engine with regReaders := w.engine.regReaders + 1 } })

/-- `pthread_rwlock_wrlock` on `reg_lock`. -/
def regWrlock : AuraM Unit :=
  Prog.await fun w =>
    if w.engine.regWriter ∨ w.engine.regReaders ≠ 0 then none
    else some ((), { w with engine := { w.engine with regWriter := true } })

/-- `pthread_rwlock_unlock` by a reader. -/
def regRdunlock : AuraM Unit := onEngine fun e => { e with regReaders := e.regReaders - 1 }

/-- `pthread_rwlock_unlock` by the writer. -/
def regWrunlock : AuraM Unit := onEngine fun e => { e with regWriter := false }

/-! ## Flushing -/

/-- `io_uring_submit`: an error leaves the queue as it is, otherwise the kernel accepts entries from
its front. -/
def ioUringSubmit (env : Env) (site : FlushSite) (i : ℕ) : AuraM (Except Errno ℕ) := do
  kernelTurn env
  let clock ← Prog.read fun w => w.clock
  match env.submit site clock with
  | .error e => do
      logEvent fun _ => .submitFailed site e
      pure (.error e)
  | .ok k => do
      let prepared ← readRing i fun r => r.sq.length
      onRing i (·.kernelAccept (min k prepared))
      pure (.ok (min k prepared))

/-- The common body of `ring_flush` and `ring_flush_fast`. -/
def flushQueued (env : Env) (site : FlushSite) (i : ℕ) : AuraM ℤ := do
  let queued ← readRing i fun r => r.queuedSqes
  if queued = 0 then pure 0
  else do
    onTls fun t => { t with lastSqe := none }
    match ← ioUringSubmit env site i with
    | .error e => do
        setErrno e
        pure (-1)
    | .ok submitted => do
        onRing i (·.accountSubmit submitted)
        pure submitted

/-- `ring_flush`. -/
def ringFlush (env : Env) (site : FlushSite) (i : ℕ) : AuraM ℤ := do
  let initialized ← readRing i fun r => r.ringInitialized
  if !initialized then pure 0 else flushQueued env site i

/-- `ring_flush_fast`. -/
def ringFlushFast (env : Env) (i : ℕ) : AuraM ℤ := flushQueued env .fast i

/-! ## The fatal-error latch -/

/-- `flush_error_is_fatal`. -/
def flushErrorIsFatal (err : ℤ) : Bool := err ≠ EAGAIN ∧ err ≠ EBUSY ∧ err ≠ EINTR

/-- `latch_fatal_submit_errno`: the first fatal error stays, and wakes whoever waits on the event
descriptor. -/
def Engine.latch (e : Engine) (err : ℤ) : Engine :=
  if e.fatalSubmitErrno = 0 then
    { e with
      fatalSubmitErrno := if err ≤ 0 then EIO else err
      eventFd := e.eventFd.map (· + 1) }
  else e

/-- `latch_fatal_submit_errno`, as a program. -/
def latchFatalSubmitErrno (err : ℤ) : AuraM Unit := onEngine (·.latch err)

/-- `check_fatal_submit_errno`. -/
def checkFatalSubmitErrno : AuraM Bool := do
  let fatal ← Prog.read fun w => w.engine.fatalSubmitErrno
  if fatal ≠ 0 then do
    setErrno fatal
    pure true
  else pure false

/-- How a flush that is looked at went. -/
inductive FlushStatus
  | ok | retry | fatal
deriving DecidableEq, Repr

/-- A `ring_flush` followed by the check of its callers: a fatal error is latched. -/
def ringFlushLatching (env : Env) (i : ℕ) : AuraM FlushStatus := do
  let rc ← ringFlush env .checked i
  let err ← getErrno
  if 0 ≤ rc then pure .ok
  else if flushErrorIsFatal err then do
    latchFatalSubmitErrno err
    pure .fatal
  else pure .retry

/-- `flush_ring_checked`. -/
def flushRingChecked (env : Env) (i : ℕ) : AuraM Bool := do
  match ← ringFlushLatching env i with
  | .ok => pure false
  | .retry => do
      setErrno 0
      pure false
  | .fatal => pure true

/-! ## Flushes return -/

section

variable (env : Env) (site : FlushSite) (i : ℕ) (w : World)

theorem ioUringSubmit_returns : ∃ r w', ioUringSubmit env site i w = .ret r w' := by
  unfold ioUringSubmit kernelTurn
  simp only [Prog.bind_apply, Prog.modify_apply, Prog.read_apply, Outcome.bind_ret]
  cases env.submit site (w.turn env).clock with
  | error e => exact ⟨_, _, rfl⟩
  | ok k => exact ⟨_, _, rfl⟩

theorem flushQueued_returns : ∃ n w', flushQueued env site i w = .ret n w' := by
  unfold flushQueued
  simp only [readRing, Prog.bind_apply, Prog.read_apply, Outcome.bind_ret, Prog.ite_apply]
  split
  · exact ⟨_, _, rfl⟩
  · simp only [onTls, Prog.modify_apply, Outcome.bind_ret]
    obtain ⟨r, w', h⟩ := ioUringSubmit_returns env site i
      { w with tls := { w.tls with lastSqe := none } }
    rw [h]
    cases r with
    | error e => exact ⟨_, _, rfl⟩
    | ok k => exact ⟨_, _, rfl⟩

theorem ringFlush_returns : ∃ n w', ringFlush env site i w = .ret n w' := by
  unfold ringFlush
  simp only [readRing, Prog.bind_apply, Prog.read_apply, Outcome.bind_ret, Prog.ite_apply]
  split
  · exact ⟨_, _, rfl⟩
  · exact flushQueued_returns env site i w

end

/-- `drain_eventfd`. -/
def drainEventfd : AuraM Unit := onEngine fun e => { e with eventFd := e.eventFd.map fun _ => 0 }

end Aura
