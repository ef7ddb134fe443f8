import Aura.Engine.Flush

/-!
# Reaping completions

`process_completion` with its callback, the two drains `ring_drain_cqes` (batched, under the locks)
and `ring_drain_cqes_fast`, and `ring_poll` and `ring_wait` on top of them. Callbacks are run by
the parameter `cb` at callback depth one more than the code around them.

Every loop here waits for the kernel, so each is bounded by `Env.fuel`; a loop that exceeds the
bound hangs. The drains make at least one turn.
-/

namespace Aura

open Lib

section

variable (env : Env) (cb : Callback)

/-- `io_uring_peek_cqe`. -/
def peekCqe (i : ℕ) : AuraM (Option Cqe) := do
  kernelTurn env
  readRing i fun r => r.cq.head?

/-- `io_uring_peek_cqe` and, if there was a completion, `io_uring_cqe_seen`. -/
def reapCqe (i : ℕ) : AuraM (Option Cqe) := do
  let c ← peekCqe env i
  onRing i RingCtx.cqeSeen
  pure c

/-- The callback of a processed request, one level deeper in the callback context. -/
def invokeCallback (q : Request) (result : ℤ) : AuraM Unit := do
  let saved ← Prog.read fun w => w.tls.callbackContextDepth
  Prog.when q.callback.isSome do
    logEvent fun w => .callback w.tls.callbackContextDepth q result
    onTls fun t => { t with callbackContextDepth := saved + 1 }
    cb q result
    onTls fun t => { t with callbackContextDepth := saved }

/-- `process_completion` of a reaped completion of ring `i`. -/
def processReaped (i : ℕ) (c : Cqe) : AuraM RetireEntry := do
  let (e, q) ← Prog.update fun w =>
    let (e, q, r) := processCompletion (env.now w.clock) (w.ring i) c.req c.res
    ((e, q), w.setRing i r)
  match q with
  | none => pure e
  | some q => do
      invokeCallback cb q c.res
      pure e

/-- `process_completion`, with its log event. -/
def processCqe (i : ℕ) (c : Cqe) : AuraM RetireEntry := do
  logEvent fun w => .completion w.tls.callbackContextDepth i c
  processReaped env cb i c

/-! ## The batched drain -/

/-- The inner loop of `ring_drain_cqes`: reap up to `n` completions. -/
def reapBatch (i : ℕ) : ℕ → AuraM (List Cqe)
  | 0 => pure []
  | n + 1 => do
      match ← reapCqe env i with
      | none => pure []
      | some c => do
          let rest ← reapBatch i n
          pure (c :: rest)

/-- Process a batch in order. -/
def processBatch (i : ℕ) : List Cqe → AuraM (List RetireEntry)
  | [] => pure []
  | c :: cs => do
      let e ← processCqe env cb i c
      let es ← processBatch i cs
      pure (e :: es)

/-- The outer loop of `ring_drain_cqes`, with the completions counted so far. -/
def drainLoop (i : ℕ) : ℕ → ℕ → AuraM ℕ
  | 0, _ => Prog.block
  | fuel + 1, completed => do
      let size ← readRing i fun r => r.pollBatchSize
      let cqSt ← ringCqLock i
      let batch ← reapBatch env i size
      ringCqUnlock i cqSt
      if batch = [] then pure completed
      else do
        let entries ← processBatch env cb i batch
        let st ← ringLock i
        onRing i (ringRetireBatch · entries)
        ringUnlock i st
        drainLoop i fuel (completed + batch.length)

/-- `ring_drain_cqes`. -/
def ringDrainCqes (i : ℕ) : AuraM ℕ := drainLoop env cb i (env.fuel + 1) 0

/-! ## The fast drain -/

/-- The loop of `ring_drain_cqes_fast`. -/
def drainFastLoop (i : ℕ) : ℕ → ℕ → AuraM ℕ
  | 0, _ => Prog.block
  | fuel + 1, completed => do
      match ← reapCqe env i with
      | none => pure completed
      | some c => do
          let e ← processCqe env cb i c
          onRing i (ringRetireInline · e)
          drainFastLoop i fuel (completed + 1)

/-- `ring_drain_cqes_fast`. -/
def ringDrainCqesFast (i : ℕ) : AuraM ℕ := do
  let initialized ← readRing i fun r => r.ringInitialized
  if !initialized then pure 0 else drainFastLoop env cb i (env.fuel + 1) 0

/-! ## Polling and waiting on one ring -/

/-- `ring_poll`. -/
def ringPoll (i : ℕ) : AuraM ℕ := do
  let r ← readRing i id
  if !r.ringInitialized then pure 0
  else if r.singleThread then ringDrainCqesFast env cb i
  else ringDrainCqes env cb i

/-- `io_uring_wait_cqe_timeout` on ring `i`: `0` when a completion is there, `-ETIME` when the time
is up, else another negated error. -/
def waitCqe (i : ℕ) : AuraM ℤ := do
  let c ← peekCqe env i
  let clock ← Prog.read fun w => w.clock
  if c.isSome then pure 0
  else
    match env.wait clock with
    | none => pure (-ETIME)
    | some e => pure (-e)

/-- The waiting loop of `ring_wait` without a deadline: one-second chunks, until something else than
a time-out happens, nothing is pending any more, or the ring shuts down. -/
def waitForever (i : ℕ) : ℕ → AuraM ℤ
  | 0 => Prog.block
  | fuel + 1 => do
      let ret ← waitCqe env i
      let r ← readRing i id
      if ret ≠ -ETIME ∧ ret ≠ -EAGAIN then pure ret
      else if r.pendingCount = 0 then pure ret
      else if r.shuttingDown then pure ret
      else waitForever i fuel

/-- The part of `ring_wait` after its blocking wait returned `ret`. -/
def ringWaitDrain (i : ℕ) (ret : ℤ) : AuraM ℤ := do
  if ret < 0 ∧ ret ≠ -ETIME ∧ ret ≠ -EAGAIN ∧ ret ≠ -EINTR then do
    setErrno (-ret)
    pure (-1)
  else do
    let n ← ringDrainCqes env cb i
    pure n

/-- `ring_wait`. -/
def ringWait (i : ℕ) (timeoutMs : ℤ) : AuraM ℤ := do
  let r ← readRing i id
  if !r.ringInitialized then do
    setErrno EINVAL
    pure (-1)
  else if r.pendingCount = 0 then pure 0
  else if timeoutMs = 0 then do
    let n ← (if r.singleThread then ringDrainCqesFast env cb i else ringDrainCqes env cb i)
    pure n
  else do
    let cqSt ← ringCqLock i
    let c ← peekCqe env i
    ringCqUnlock i cqSt
    if c.isSome then do
      let n ← ringDrainCqes env cb i
      pure n
    else do
      let ret ← (if timeoutMs < 0 then waitForever env i env.fuel else waitCqe env i)
      ringWaitDrain env cb i ret

end

/-- A look at the completion queue. -/
theorem reapCqe_apply (env : Env) (i : ℕ) (w : World) : reapCqe env i w =
    .ret ((w.turn env).ring i).cq.head?
      ((w.turn env).setRing i ((w.turn env).ring i).cqeSeen) := rfl

end Aura
