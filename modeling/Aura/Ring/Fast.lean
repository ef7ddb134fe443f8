import Aura.Lib.Batching
import Aura.Ring.Complete
import Aura.Ring.Lock

/-!
# The unlocked variants of drain and flush

A ring with a single user thread is drained by `ring_drain_cqes_fast` and flushed by
`ring_flush_fast`, which take no lock, keep no batch and use plain stores. Here both variants of
both functions are written out over the ring, with everything else that they read or change next to
it:

* `DrainState` — the ring, the readings of the clock, and what callbacks do. Callbacks make no
  library calls: they change a state of their own.
* `drainCqes`, `drainCqesFast` — the two drains. A call that finds a held lock does not return.
* `FlushState.flush`, `FlushState.flushFast` — the two flushes, for a given answer of
  `io_uring_submit`.
* `fast_eq_slow` — they do the same.
-/

namespace Aura

open Lib

variable {σ : Type}

/-! ## Draining -/

/-- What a drain reads and changes. `reads` counts the calls of `get_time_ns`, `user` is what the
callbacks change, and `calls` lists the callbacks that were invoked: the callback depth, the request
and the result. -/
structure DrainState (σ : Type) where
  ring : RingCtx
  reads : ℕ := 0
  callbackContextDepth : ℕ := 0
  user : σ
  calls : List (ℕ × Request × ℤ) := []

/-- What a drain does not decide: the readings of the clock, and what a callback does. -/
structure DrainEnv (σ : Type) where
  now : ℕ → ℤ
  callback : Request → ℤ → σ → σ

namespace DrainState

variable (env : DrainEnv σ) (s : DrainState σ)

/-- Change the ring. -/
def onRing (f : RingCtx → RingCtx) : DrainState σ := { s with ring := f s.ring }

/-- The callback of a request, one level deeper in the callback context. -/
def invoke (q : Request) (result : ℤ) : DrainState σ :=
  if q.callback.isSome then
    { s with
      user := env.callback q result s.user
      calls := s.calls ++ [(s.callbackContextDepth + 1, q, result)] }
  else s

/-- `process_completion`: the clock is read for a sampled request only. -/
def process (c : Cqe) : RetireEntry × DrainState σ :=
  let p := processCompletion (env.now s.reads) s.ring c.req c.res
  let s := { s with ring := p.2.2 }
  match p.2.1 with
  | none => (p.1, s)
  | some q =>
      let s := { s with reads := if q.submitTimeNs ≠ 0 then s.reads + 1 else s.reads }
      (p.1, s.invoke env q c.res)

/-- Processing, and retirement of a single entry. -/
def retiring : Retiring (DrainState σ) Cqe RetireEntry where
  process c s := s.process env c
  retire e s := s.onRing (ringRetireInline · e)

/-! ### `ring_drain_cqes` -/

/-- The inner loop: `io_uring_peek_cqe` and `io_uring_cqe_seen` for up to `n` completions. -/
def reapBatch : ℕ → RingCtx → List Cqe × RingCtx
  | 0, r => ([], r)
  | n + 1, r =>
      match r.cq.head? with
      | none => ([], r)
      | some c =>
          let p := reapBatch n r.cqeSeen
          (c :: p.1, p.2)

/-- One batch under `cq_lock`. -/
def reapLocked (r : RingCtx) : Option (List Cqe × RingCtx) := do
  let (st, r) ← r.cqLock
  let (batch, r) := reapBatch r.pollBatchSize r
  pure (batch, r.cqUnlock st)

/-- `ring_retire_batch`: nothing to do without entries, otherwise under `lock`. -/
def retireLocked (entries : List RetireEntry) (r : RingCtx) : Option RingCtx :=
  if entries = [] then some r
  else do
    let (st, r) ← r.lock
    pure ((ringRetireBatch r entries).unlock st)

/-- The outer loop of `ring_drain_cqes`, with the completions counted so far. -/
def drainLoop : ℕ → ℕ → DrainState σ → Option (ℕ × DrainState σ)
  | 0, _, _ => none
  | fuel + 1, completed, s => do
      let (batch, r) ← reapLocked s.ring
      let s := s.onRing fun _ => r
      if batch = [] then pure (completed, s)
      else do
        let p := (retiring env).processAll batch s
        let r ← retireLocked p.1 p.2.ring
        drainLoop fuel (completed + batch.length) (p.2.onRing fun _ => r)

/-- `ring_drain_cqes`. -/
def drainCqes (fuel : ℕ) : Option (ℕ × DrainState σ) := drainLoop env fuel 0 s

/-! ### `ring_drain_cqes_fast` -/

/-- The loop of `ring_drain_cqes_fast`. -/
def drainFastLoop : ℕ → ℕ → DrainState σ → Option (ℕ × DrainState σ)
  | 0, _, _ => none
  | fuel + 1, completed, s =>
      match s.ring.cq.head? with
      | none => some (completed, s)
      | some c =>
          let (e, s) := (s.onRing RingCtx.cqeSeen).process env c
          drainFastLoop fuel (completed + 1) (s.onRing (ringRetireInline · e))

/-- `ring_drain_cqes_fast`. -/
def drainCqesFast (fuel : ℕ) : Option (ℕ × DrainState σ) :=
  if !s.ring.ringInitialized then some (0, s) else drainFastLoop env fuel 0 s

end DrainState

/-! ## Flushing -/

/-- What a flush reads and changes: the ring, and the `errno` and `tls_last_sqe` of the thread. -/
structure FlushState where
  ring : RingCtx
  errno : ℤ := 0
  lastSqe : Option (ℕ × ℕ) := none

/-- The compare-and-swap loop of `ring_flush` on a counter that stays at `queued`: the exchange
fails spuriously a number of times, each of which loads the counter again. -/
def casLoop (submitted queued : ℤ) : ℕ → ℤ → ℤ
  | 0, old =>
      let sub := if submitted < old then submitted else old
      old - sub
  | spurious + 1, _ => casLoop submitted queued spurious queued

namespace FlushState

variable (s : FlushState) (answer : ℤ)

/-- Change the ring. -/
def onRing (f : RingCtx → RingCtx) : FlushState := { s with ring := f s.ring }

/-- `io_uring_submit`: the negative of an error, or the number of entries the kernel accepts. -/
def ioUringSubmit : FlushState := s.onRing (·.kernelAccept answer.toNat)

/-- `ring_flush`. -/
def flush (spurious : ℕ) : ℤ × FlushState :=
  if !s.ring.ringInitialized then (0, s)
  else if s.ring.queuedSqes = 0 then (0, s)
  else
    let s := { s with lastSqe := none }.ioUringSubmit answer
    if answer < 0 then (-1, { s with errno := -answer })
    else
      let s := s.onRing fun r => { r with adaptive := r.adaptive.recordSubmit answer }
      if answer > 0 then
        (answer, s.onRing fun r =>
          { r with queuedSqes := casLoop answer r.queuedSqes spurious r.queuedSqes })
      else (answer, s)

/-- `ring_flush_fast`. -/
def flushFast : ℤ × FlushState :=
  if s.ring.queuedSqes = 0 then (0, s)
  else
    let s := { s with lastSqe := none }.ioUringSubmit answer
    if answer < 0 then (-1, { s with errno := -answer })
    else
      let s := s.onRing fun r => { r with adaptive := r.adaptive.recordSubmit answer }
      if answer > 0 then
        (answer, s.onRing fun r =>
          let sub := if answer < r.queuedSqes then answer else r.queuedSqes
          { r with queuedSqes := r.queuedSqes - sub })
      else (answer, s)

end FlushState

/-! ## What processing and retirement leave alone -/

/-- The queue of completions and the locks of `x`. -/
def RingCtx.framed (x r : RingCtx) : RingCtx :=
  { r with
    cq := x.cq, lockHeld := x.lockHeld, cqLockHeld := x.cqLockHeld, stUsers := x.stUsers
    stCqUsers := x.stCqUsers }

theorem processCompletion_framed (x r : RingCtx) (now : ℤ) (req : Option ℕ) (res : ℤ) :
    processCompletion now (x.framed r) req res =
      ((processCompletion now r req res).1, (processCompletion now r req res).2.1,
        x.framed (processCompletion now r req res).2.2) := by
  cases req with
  | none => rfl
  | some i =>
      cases hpend : (r.requests i).pending with
      | false =>
          rw [processCompletion_of_not_pending hpend,
            processCompletion_of_not_pending (r := x.framed r) hpend]
      | true =>
          rw [processCompletion_of_pending hpend,
            processCompletion_of_pending (r := x.framed r) hpend]
          rfl

theorem ringRetireInline_framed (x r : RingCtx) (e : RetireEntry) :
    ringRetireInline (x.framed r) e = x.framed (ringRetireInline r e) := by
  have hcount : countCompleted (x.framed r) e = x.framed (countCompleted r e) := by
    unfold countCompleted
    split <;> rfl
  have hput (r : RingCtx) (i : ℕ) :
      ringPutRequest (x.framed r) i = x.framed (ringPutRequest r i) := by
    unfold ringPutRequest RingCtx.framed
    dsimp only
    split_ifs <;> rfl
  unfold ringRetireInline retireEntry
  cases e.opIdx with
  | none => rfl
  | some i =>
      dsimp only
      rw [hcount, hput]
      rfl

/-! ## Retirement commutes with processing -/

/-- The operations that an entry counts for. -/
def RetireEntry.ops (e : RetireEntry) : ℤ := if e.opType = .cancel then 0 else 1

/-- The bytes that an entry counts for. -/
def RetireEntry.bytes (e : RetireEntry) : ℤ :=
  if e.opType ≠ .cancel ∧ e.result > 0 ∧ e.opType.isDataTransfer then e.result else 0

/-- What counting a completion makes of the ring. -/
theorem countCompleted_counters (r : RingCtx) (e : RetireEntry) : countCompleted r e =
    { r with
      opsCompleted := r.opsCompleted + e.ops, bytesCompleted := r.bytesCompleted + e.bytes } := by
  unfold countCompleted RetireEntry.ops RetireEntry.bytes
  by_cases hcancel : e.opType = .cancel
  · simp [hcancel]
  · by_cases hdata : e.result > 0 ∧ e.opType.isDataTransfer = true
    · simp [hcancel, hdata]
    · rw [if_neg hcancel, if_neg hdata, if_neg hcancel, if_neg fun h => hdata h.2, Int.add_zero]

variable {r : RingCtx} {e : RetireEntry} {i j : ℕ}

/-- Retirement of a slot that `ring_put_request` refuses. -/
theorem ringRetireInline_of_guard (hidx : e.opIdx = some i)
    (h : r.maxRequests ≤ i ∨ (r.requests i).inPool = true ∨ (r.requests i).pending = true) :
    ringRetireInline r e = { r with
      opsCompleted := r.opsCompleted + e.ops, bytesCompleted := r.bytesCompleted + e.bytes
      pendingCount := r.pendingCount - 1 } := by
  have hput : ringPutRequest (countCompleted r e) i = countCompleted r e := by
    refine ringPutRequest_of_guard ?_
    rw [countCompleted_counters]
    exact h
  unfold ringRetireInline retireEntry
  rw [hidx]
  dsimp only
  rw [hput, countCompleted_counters]

/-- Retirement of a slot that goes back on the stack. -/
theorem ringRetireInline_of_not_guard (hidx : e.opIdx = some i)
    (h : ¬ (r.maxRequests ≤ i ∨ (r.requests i).inPool = true ∨ (r.requests i).pending = true)) :
    ringRetireInline r e = ({ r with
      opsCompleted := r.opsCompleted + e.ops, bytesCompleted := r.bytesCompleted + e.bytes
      pendingCount := r.pendingCount - 1
      freeRequestStack := i :: r.freeRequestStack }).setRequest i
        { r.requests i with inPool := true } := by
  rw [not_or, not_or] at h
  have hput : ringPutRequest (countCompleted r e) i =
      ({ countCompleted r e with freeRequestStack := i :: r.freeRequestStack }).setRequest i
        { r.requests i with inPool := true } := by
    rw [countCompleted_counters]
    exact ringPutRequest_of_idle (not_le.mp h.1) (Bool.eq_false_of_not_eq_true h.2.1)
      (Bool.eq_false_of_not_eq_true h.2.2)
  unfold ringRetireInline retireEntry
  rw [hidx]
  dsimp only
  rw [hput, countCompleted_counters]
  rfl

/-- Retirement of a slot leaves the other slots alone. -/
theorem ringRetireInline_of_ne (hidx : e.opIdx = some i) (hij : j ≠ i) :
    (ringRetireInline r e).requests j = r.requests j := by
  by_cases hguard : r.maxRequests ≤ i ∨ (r.requests i).inPool = true ∨ (r.requests i).pending = true
  · rw [ringRetireInline_of_guard hidx hguard]
  · rw [ringRetireInline_of_not_guard hidx hguard, RingCtx.setRequest_of_ne _ _ _ hij]

/-- Retirement changes neither the pending flag of a slot nor its number. -/
theorem ringRetireInline_same (r : RingCtx) (e : RetireEntry) (j : ℕ) :
    ((ringRetireInline r e).requests j).pending = (r.requests j).pending ∧
      ((ringRetireInline r e).requests j).opIdx = (r.requests j).opIdx := by
  cases hidx : e.opIdx with
  | none =>
      rw [ringRetireInline, hidx]
      exact ⟨rfl, rfl⟩
  | some i =>
      by_cases hij : j = i
      · subst hij
        by_cases hguard :
            r.maxRequests ≤ j ∨ (r.requests j).inPool = true ∨ (r.requests j).pending = true
        · rw [ringRetireInline_of_guard hidx hguard]
          exact ⟨rfl, rfl⟩
        · rw [ringRetireInline_of_not_guard hidx hguard, RingCtx.setRequest_self]
          exact ⟨rfl, rfl⟩
      · rw [ringRetireInline_of_ne hidx hij]
        exact ⟨rfl, rfl⟩

/-- Processing changes the pending flag of its own slot only, and clears it. -/
theorem processCompletion_same (now : ℤ) (r : RingCtx) (req : Option ℕ) (res : ℤ) (j : ℕ) :
    ((processCompletion now r req res).2.2.requests j).opIdx = (r.requests j).opIdx ∧
      (((r.requests j).pending = false ∨ req = some j) →
        ((processCompletion now r req res).2.2.requests j).pending = false) := by
  cases req with
  | none => exact ⟨rfl, fun h => h.resolve_right (fun heq => nomatch heq)⟩
  | some i =>
      cases hpend : (r.requests i).pending with
      | false =>
          rw [processCompletion_of_not_pending hpend]
          refine ⟨rfl, fun h => ?_⟩
          rcases h with h | h
          · exact h
          · obtain rfl := Option.some.inj h
            exact hpend
      | true =>
          rw [processCompletion_of_pending hpend]
          dsimp only
          by_cases hij : j = i
          · subst hij
            rw [RingCtx.setRequest_self]
            exact ⟨rfl, fun _ => rfl⟩
          · rw [RingCtx.setRequest_of_ne _ _ _ hij]
            exact ⟨rfl, fun h => h.resolve_right fun heq => hij (Option.some.inj heq).symm⟩

/-- A processed slot may be retired before or after another completion is processed. -/
theorem ringRetireInline_comm (hidx : e.opIdx = some i) (hidle : (r.requests i).pending = false)
    (now : ℤ) (req : Option ℕ) (res : ℤ) :
    processCompletion now (ringRetireInline r e) req res =
      ((processCompletion now r req res).1, (processCompletion now r req res).2.1,
        ringRetireInline (processCompletion now r req res).2.2 e) := by
  cases req with
  | none => rfl
  | some j =>
      cases hpend : (r.requests j).pending with
      | false =>
          rw [processCompletion_of_not_pending hpend, processCompletion_of_not_pending
            ((ringRetireInline_same r e j).1.trans hpend)]
      | true =>
          have hij : j ≠ i := by
            rintro rfl
            rw [hidle] at hpend
            cases hpend
          have hsame : (ringRetireInline r e).requests j = r.requests j :=
            ringRetireInline_of_ne hidx hij
          rw [processCompletion_of_pending hpend,
            processCompletion_of_pending (by rw [hsame, hpend]), hsame]
          refine Prod.ext rfl (Prod.ext rfl ?_)
          dsimp only
          by_cases hguard :
              r.maxRequests ≤ i ∨ (r.requests i).inPool = true ∨ (r.requests i).pending = true
          · rw [ringRetireInline_of_guard hidx hguard, ringRetireInline_of_guard hidx
              (by rw [RingCtx.setRequest_of_ne _ _ _ hij.symm]; exact hguard)]
            rfl
          · rw [ringRetireInline_of_not_guard hidx hguard, ringRetireInline_of_not_guard hidx
              (by rw [RingCtx.setRequest_of_ne _ _ _ hij.symm]; exact hguard),
              RingCtx.setRequest_of_ne _ _ _ hij.symm]
            unfold RingCtx.setRequest
            dsimp only
            rw [Function.update_comm hij]

/-! ## A ring of one thread -/

/-- **A ring that only one thread uses**, between two library calls: slots know their numbers, no
lock is held, and batches are not empty. -/
structure RingCtx.Solo (r : RingCtx) : Prop where
  opIdx : ∀ i, (r.requests i).opIdx = i
  unlocked : r.singleThread = true ∨ (r.lockHeld = false ∧ r.cqLockHeld = false)
  batch : 0 < r.pollBatchSize

/-- `ring_init` sets up such a ring. -/
theorem solo_ringInit (queueDepth sqEntries : ℕ) (ringIdx : ℤ) (needsEnable : Bool) :
    (ringInit queueDepth sqEntries ringIdx needsEnable).Solo := by
  refine ⟨fun _ => rfl, Or.inr ⟨rfl, rfl⟩, ?_⟩
  change 0 < min (max (queueDepth / 4) 16) 128
  omega

/-- Replace the queue of completions. -/
def RingCtx.withCq (l : List Cqe) (r : RingCtx) : RingCtx := { r with cq := l }

theorem RingCtx.Solo.withCq (h : r.Solo) (l : List Cqe) : (r.withCq l).Solo :=
  ⟨h.opIdx, h.unlocked, h.batch⟩

theorem RingCtx.Solo.process (h : r.Solo) (now : ℤ) (req : Option ℕ) (res : ℤ) :
    (processCompletion now r req res).2.2.Solo := by
  have hidx (j : ℕ) : ((processCompletion now r req res).2.2.requests j).opIdx = j :=
    (processCompletion_same now r req res j).1.trans (h.opIdx j)
  obtain ⟨a, b, f, reqs, heq⟩ := processCompletion_eq now r req res
  refine ⟨hidx, ?_, ?_⟩
  · rw [heq]
    exact h.unlocked
  · rw [heq]
    exact h.batch

theorem RingCtx.Solo.retire (h : r.Solo) (e : RetireEntry) : (ringRetireInline r e).Solo := by
  have hidx (j : ℕ) : ((ringRetireInline r e).requests j).opIdx = j :=
    (ringRetireInline_same r e j).2.trans (h.opIdx j)
  obtain ⟨stack, reqs, ops, bytes, pending, heq⟩ := ringRetireBatch_eq r [e]
  rw [← ringRetireInline_eq_batch] at heq
  refine ⟨hidx, ?_, ?_⟩
  · rw [heq]
    exact h.unlocked
  · rw [heq]
    exact h.batch

/-- Neither processing nor retirement looks at the queue of completions. -/
theorem processCompletion_withCq (l : List Cqe) (now : ℤ) (r : RingCtx) (req : Option ℕ) (res : ℤ) :
    processCompletion now (r.withCq l) req res =
      ((processCompletion now r req res).1, (processCompletion now r req res).2.1,
        (processCompletion now r req res).2.2.withCq l) := by
  have hself : (processCompletion now r req res).2.2 =
      r.framed (processCompletion now r req res).2.2 :=
    congrArg (·.2.2) (processCompletion_framed r r now req res)
  have hcq : (r.withCq l).framed (processCompletion now r req res).2.2 =
      (r.framed (processCompletion now r req res).2.2).withCq l := rfl
  rw [← hself] at hcq
  rw [← hcq]
  exact processCompletion_framed (r.withCq l) r now req res

theorem ringRetireInline_withCq (l : List Cqe) (r : RingCtx) (e : RetireEntry) :
    ringRetireInline (r.withCq l) e = (ringRetireInline r e).withCq l := by
  have hself : ringRetireInline r e = r.framed (ringRetireInline r e) :=
    ringRetireInline_framed r r e
  have hcq : (r.withCq l).framed (ringRetireInline r e) =
      (r.framed (ringRetireInline r e)).withCq l := rfl
  rw [← hself] at hcq
  rw [← hcq]
  exact ringRetireInline_framed (r.withCq l) r e

/-- A batch is retired entry by entry. -/
theorem ringRetireBatch_eq_foldl (r : RingCtx) (es : List RetireEntry) :
    ringRetireBatch r es = es.foldl ringRetireInline r := by
  induction es generalizing r with
  | nil => simp [ringRetireBatch]
  | cons e es ih => rw [ringRetireBatch_cons, List.foldl_cons, ih]

theorem ringRetireBatch_framed (x r : RingCtx) (es : List RetireEntry) :
    ringRetireBatch (x.framed r) es = x.framed (ringRetireBatch r es) := by
  induction es generalizing r with
  | nil => rw [ringRetireBatch_eq_foldl, ringRetireBatch_eq_foldl]; rfl
  | cons e es ih => rw [ringRetireBatch_cons, ringRetireBatch_cons, ringRetireInline_framed, ih]

/-- Under the lock the ring is what it was but for the lock. -/
theorem RingCtx.unlock_framed {r' : RingCtx} {st : Bool} (h : r.lock = some (st, r'))
    (y : RingCtx) : (r'.framed y).unlock st = r.framed y := by
  rcases RingCtx.lock_eq_some.mp h with ⟨-, rfl, rfl⟩ | ⟨-, hfree, rfl, rfl⟩
  · simp [RingCtx.unlock, RingCtx.framed]
  · simp [RingCtx.unlock, RingCtx.framed, hfree]

theorem RingCtx.Solo.exists_lock (h : r.Solo) :
    ∃ st r', r.lock = some (st, r') ∧ r' = r'.framed r := by
  rcases h.unlocked with hst | ⟨hfree, -⟩
  · exact ⟨true, _, RingCtx.lock_eq_some.mpr (Or.inl ⟨hst, rfl, rfl⟩), rfl⟩
  · cases hst : r.singleThread with
    | true => exact ⟨true, _, RingCtx.lock_eq_some.mpr (Or.inl ⟨hst, rfl, rfl⟩), rfl⟩
    | false => exact ⟨false, _, RingCtx.lock_eq_some.mpr (Or.inr ⟨hst, hfree, rfl, rfl⟩), rfl⟩

namespace DrainState

variable {env : DrainEnv σ} {s : DrainState σ}

/-- Retirement under the lock is retirement. -/
theorem retireLocked_eq (h : r.Solo) (es : List RetireEntry) :
    retireLocked es r = some (es.foldl ringRetireInline r) := by
  unfold retireLocked
  by_cases hes : es = []
  · rw [if_pos hes, hes]
    rfl
  · obtain ⟨st, r', hlock, hframe⟩ := h.exists_lock
    have hself : ringRetireBatch r es = r.framed (ringRetireBatch r es) :=
      ringRetireBatch_framed r r es
    rw [if_neg hes, hlock]
    change some ((ringRetireBatch r' es).unlock st) = _
    rw [hframe, ringRetireBatch_framed, RingCtx.unlock_framed hlock, ← hself,
      ringRetireBatch_eq_foldl]

theorem reapBatch_eq (n : ℕ) (r : RingCtx) :
    reapBatch n r = (r.cq.take n, r.withCq (r.cq.drop n)) := by
  induction n generalizing r with
  | zero => rfl
  | succ n ih =>
      unfold reapBatch
      cases hcq : r.cq with
      | nil =>
          have hself : r = r.withCq [] := by rw [← hcq]; rfl
          exact congrArg (Prod.mk []) hself
      | cons c l =>
          dsimp only [List.head?_cons]
          rw [ih, RingCtx.cqeSeen]
          dsimp only
          rw [hcq]
          rfl

/-- A batch under `cq_lock` is the front of the queue. -/
theorem reapLocked_eq (h : r.Solo) : reapLocked r =
    some (r.cq.take r.pollBatchSize, r.withCq (r.cq.drop r.pollBatchSize)) := by
  unfold reapLocked RingCtx.cqLock
  by_cases hst : r.singleThread = true
  · rw [if_pos hst]
    simp [reapBatch_eq, RingCtx.cqUnlock, RingCtx.withCq]
  · have hfree : r.cqLockHeld = false := (h.unlocked.resolve_left hst).2
    rw [if_neg hst, if_neg (by rw [hfree]; exact Bool.false_ne_true)]
    simp [reapBatch_eq, RingCtx.cqUnlock, RingCtx.withCq, hfree]

/-! ### The loops -/

theorem process_ring (c : Cqe) : (s.process env c).2.ring =
    (processCompletion (env.now s.reads) s.ring c.req c.res).2.2 := by
  unfold process
  dsimp only
  cases (processCompletion (env.now s.reads) s.ring c.req c.res).2.1 with
  | none => rfl
  | some q =>
      unfold invoke
      dsimp only
      split <;> rfl

/-- A change of the ring that commutes with `process_completion` commutes with the callback too. -/
theorem process_onRing {f : RingCtx → RingCtx} {c : Cqe}
    (hf : processCompletion (env.now s.reads) (f s.ring) c.req c.res =
      ((processCompletion (env.now s.reads) s.ring c.req c.res).1,
        (processCompletion (env.now s.reads) s.ring c.req c.res).2.1,
        f (processCompletion (env.now s.reads) s.ring c.req c.res).2.2)) :
    (s.onRing f).process env c = ((s.process env c).1, (s.process env c).2.onRing f) := by
  unfold process onRing
  dsimp only
  rw [hf]
  dsimp only
  cases (processCompletion (env.now s.reads) s.ring c.req c.res).2.1 with
  | none => rfl
  | some q =>
      unfold invoke
      dsimp only
      by_cases hq : q.callback.isSome = true
      · rw [if_pos hq, if_pos hq]
      · rw [if_neg hq, if_neg hq]

theorem process_withCq (l : List Cqe) (c : Cqe) :
    (s.onRing (RingCtx.withCq l)).process env c =
      ((s.process env c).1, (s.process env c).2.onRing (RingCtx.withCq l)) :=
  process_onRing (processCompletion_withCq l _ _ _ _)

/-- An entry is done once the slot that it names is not pending. -/
def Done (e : RetireEntry) (s : DrainState σ) : Prop :=
  ∀ i, e.opIdx = some i → (s.ring.requests i).pending = false

/-- The entry of a completion is done once it is processed. -/
theorem done_process (h : s.ring.Solo) (c : Cqe) :
    Done (s.process env c).1 (s.process env c).2 := by
  intro i hidx
  have hentry : (s.process env c).1 =
      (processCompletion (env.now s.reads) s.ring c.req c.res).1 := by
    unfold process
    dsimp only
    cases (processCompletion (env.now s.reads) s.ring c.req c.res).2.1 <;> rfl
  rw [hentry] at hidx
  rw [process_ring]
  refine (processCompletion_same _ _ _ _ i).2 (Or.inr ?_)
  cases hreq : c.req with
  | none =>
      rw [hreq, processCompletion_none] at hidx
      cases hidx
  | some j =>
      cases hpend : (s.ring.requests j).pending with
      | false =>
          rw [hreq, processCompletion_of_not_pending hpend] at hidx
          cases hidx
      | true =>
          rw [hreq, processCompletion_of_pending hpend, h.opIdx j] at hidx
          exact hidx

variable (env) in
/-- **Retirement commutes with processing** on a ring of one thread. -/
theorem retiring_commutes : (retiring env).Commutes (fun s => s.ring.Solo) Done where
  good_process c s h := by
    have hsolo := h.process (env.now s.reads) c.req c.res
    rw [← process_ring] at hsolo
    exact hsolo
  good_retire e s h := h.retire e
  done c s h := done_process h c
  done_process c e s _ hdone i hidx := by
    have hidle := (processCompletion_same (env.now s.reads) s.ring c.req c.res i).2
      (Or.inl (hdone i hidx))
    rw [← process_ring] at hidle
    exact hidle
  comm c e s _ hdone := by
    refine process_onRing (f := (ringRetireInline · e)) ?_
    cases hidx : e.opIdx with
    | none =>
        have hsame (r : RingCtx) : ringRetireInline r e = r := by rw [ringRetireInline, hidx]
        rw [hsame, hsame]
    | some i => exact ringRetireInline_comm hidx (hdone i hidx) _ _ _

theorem retire_withCq (env : DrainEnv σ) (l : List Cqe) (e : RetireEntry) (s : DrainState σ) :
    (retiring env).retire e (s.onRing (RingCtx.withCq l)) =
      ((retiring env).retire e s).onRing (RingCtx.withCq l) :=
  congrArg (fun r => { s with ring := r }) (ringRetireInline_withCq l s.ring e)

theorem inline_withCq (l : List Cqe) (cs : List Cqe) (s : DrainState σ) :
    (retiring env).inline cs (s.onRing (RingCtx.withCq l)) =
      ((retiring env).inline cs s).onRing (RingCtx.withCq l) :=
  Retiring.inline_frame (retiring env) (f := (·.onRing (RingCtx.withCq l)))
    (fun c _ => process_withCq l c) (fun e s => retire_withCq env l e s) cs s

theorem retireAll_eq (es : List RetireEntry) (s : DrainState σ) :
    (retiring env).retireAll es s = s.onRing (es.foldl ringRetireInline ·) := by
  induction es generalizing s with
  | nil => rfl
  | cons e es ih => exact ih _

/-- What both drains do: process and retire everything that is ready, one completion after the
other. -/
def drained (env : DrainEnv σ) (s : DrainState σ) : DrainState σ :=
  (retiring env).inline s.ring.cq (s.onRing (RingCtx.withCq []))

/-- With an empty queue there is nothing to do. -/
theorem drained_of_nil (h : s.ring.cq = []) : s.drained env = s := by
  have hself : s.onRing (RingCtx.withCq []) = s := by
    unfold onRing RingCtx.withCq
    rw [← h]
  unfold drained
  rw [h, hself]
  rfl

/-- The first completion, and the others. -/
theorem drained_of_cons {c : Cqe} {l : List Cqe} (hcq : s.ring.cq = c :: l) : s.drained env =
    (((retiring env).retire (s.process env c).1 (s.process env c).2).onRing
      (RingCtx.withCq l)).drained env := by
  obtain ⟨t, ht⟩ : ∃ t, t = (retiring env).retire (s.process env c).1 (s.process env c).2 :=
    ⟨_, rfl⟩
  have hfirst : (retiring env).inline (c :: l) (s.onRing (RingCtx.withCq [])) =
      (retiring env).inline l ((retiring env).retire
        ((s.onRing (RingCtx.withCq [])).process env c).1
        ((s.onRing (RingCtx.withCq [])).process env c).2) := rfl
  rw [process_withCq, retire_withCq, ← ht] at hfirst
  rw [← ht, drained, hcq, hfirst]
  rfl

/-- **The fast drain**, with enough fuel. -/
theorem drainFastLoop_eq {fuel : ℕ} (completed : ℕ) (h : s.ring.cq.length < fuel) :
    drainFastLoop env fuel completed s = some (completed + s.ring.cq.length, s.drained env) := by
  induction fuel generalizing s completed with
  | zero => exact absurd h (Nat.not_lt_zero _)
  | succ fuel ih =>
      unfold drainFastLoop
      cases hcq : s.ring.cq with
      | nil =>
          dsimp only [List.head?_nil]
          rw [drained_of_nil hcq]
          rfl
      | cons c l =>
          rw [hcq, List.length_cons, Nat.succ_lt_succ_iff] at h
          have hseen : s.onRing RingCtx.cqeSeen = s.onRing (RingCtx.withCq l) := by
            unfold onRing RingCtx.cqeSeen RingCtx.withCq
            rw [hcq]
            rfl
          have hnext : ((s.onRing RingCtx.cqeSeen).process env c).2.onRing
              (ringRetireInline · ((s.onRing RingCtx.cqeSeen).process env c).1) =
                ((retiring env).retire (s.process env c).1 (s.process env c).2).onRing
                  (RingCtx.withCq l) := by
            rw [hseen, process_withCq]
            exact retire_withCq env l _ _
          dsimp only [List.head?_cons]
          rw [hnext, ih (completed + 1) h, ← drained_of_cons hcq, List.length_cons,
            Nat.add_comm l.length 1, ← Nat.add_assoc]
          rfl

/-- A batch, and what is left in the queue. -/
theorem drained_of_append {batch rest : List Cqe} (hcq : s.ring.cq = batch ++ rest) :
    s.drained env =
      ((retiring env).inline batch (s.onRing (RingCtx.withCq rest))).drained env := by
  have hleft : ((retiring env).inline batch (s.onRing (RingCtx.withCq rest))).ring.cq = rest := by
    rw [inline_withCq]
    rfl
  have hempty : ((retiring env).inline batch (s.onRing (RingCtx.withCq rest))).onRing
      (RingCtx.withCq []) = (retiring env).inline batch (s.onRing (RingCtx.withCq [])) := by
    rw [inline_withCq, inline_withCq]
    rfl
  rw [drained, hcq, Retiring.inline_append, drained, hleft, hempty]

/-- **The batched drain**, with enough fuel. -/
theorem drainLoop_eq {fuel : ℕ} (completed : ℕ) (hs : s.ring.Solo)
    (h : s.ring.cq.length < fuel) :
    drainLoop env fuel completed s = some (completed + s.ring.cq.length, s.drained env) := by
  induction fuel generalizing s completed with
  | zero => exact absurd h (Nat.not_lt_zero _)
  | succ fuel ih =>
      obtain ⟨batch, hbatch⟩ : ∃ b, b = s.ring.cq.take s.ring.pollBatchSize := ⟨_, rfl⟩
      obtain ⟨rest, hrest⟩ : ∃ l, l = s.ring.cq.drop s.ring.pollBatchSize := ⟨_, rfl⟩
      have happend : s.ring.cq = batch ++ rest := by
        rw [hbatch, hrest, List.take_append_drop]
      unfold drainLoop
      rw [reapLocked_eq hs, ← hbatch, ← hrest]
      dsimp only [Option.bind_eq_bind, Option.bind_some]
      by_cases hnil : batch = []
      · have hcq : s.ring.cq = [] := by
          rw [hbatch, List.take_eq_nil_iff] at hnil
          exact hnil.resolve_left hs.batch.ne'
        have hstay : s.onRing (RingCtx.withCq rest) = s := by
          unfold onRing RingCtx.withCq
          rw [hrest, hcq, List.drop_nil, ← hcq]
        rw [if_pos hnil, hcq, drained_of_nil hcq]
        exact congrArg (fun t => some (completed, t)) hstay
      · have hsolo : (s.onRing (RingCtx.withCq rest)).ring.Solo := hs.withCq rest
        have hcomm := retiring_commutes env
        have hdone := hcomm.batch_eq_inline batch hsolo
        have hprocessed := hcomm.good_processAll batch hsolo
        have hgood := hcomm.good_inline batch hsolo
        have hleft : ((retiring env).inline batch
            (s.onRing (RingCtx.withCq rest))).ring.cq = rest := by
          rw [inline_withCq]
          rfl
        have hlength : s.ring.cq.length = batch.length + rest.length := by
          rw [happend, List.length_append]
        have hpos : 0 < batch.length := List.length_pos_iff.mpr hnil
        rw [retireAll_eq] at hdone
        rw [if_neg hnil]
        change (retireLocked ((retiring env).processAll batch (s.onRing (RingCtx.withCq rest))).1
          ((retiring env).processAll batch (s.onRing (RingCtx.withCq rest))).2.ring).bind _ = _
        rw [retireLocked_eq hprocessed, Option.bind_some]
        change drainLoop env fuel _ (DrainState.onRing _ (List.foldl ringRetireInline · _)) = _
        rw [hdone, ih _ hgood (by rw [hleft]; omega), hleft, ← drained_of_append happend, hlength,
          Nat.add_assoc]

end DrainState

/-! ## Flushes -/

/-- However often the exchange fails, the loop subtracts what was submitted, or everything. -/
theorem casLoop_eq (submitted queued : ℤ) (spurious : ℕ) :
    casLoop submitted queued spurious queued = queued - min submitted queued := by
  induction spurious with
  | zero =>
      unfold casLoop
      dsimp only
      split_ifs <;> omega
  | succ n ih => exact ih

/-- **The two flushes agree.** -/
theorem FlushState.flushFast_eq (s : FlushState) (h : s.ring.ringInitialized = true) (answer : ℤ)
    (spurious : ℕ) : s.flushFast answer = s.flush answer spurious := by
  unfold flush flushFast
  rw [h, Bool.not_true, if_neg Bool.false_ne_true]
  dsimp only
  by_cases hqueued : s.ring.queuedSqes = 0
  · rw [if_pos hqueued, if_pos hqueued]
  · rw [if_neg hqueued, if_neg hqueued]
    by_cases herr : answer < 0
    · rw [if_pos herr, if_pos herr]
    · rw [if_neg herr, if_neg herr]
      by_cases hpos : answer > 0
      · have hsub (queued : ℤ) : (if answer < queued then answer else queued) =
            min answer queued := by split_ifs <;> omega
        rw [if_pos hpos, if_pos hpos]
        simp only [casLoop_eq, hsub]
      · rw [if_neg hpos, if_neg hpos]

/-- **The unlocked variants do what the locked ones do.** On an initialised ring that only one
thread uses, with whatever completions are ready, both drains return, count the same completions,
invoke the same callbacks in the same order, and leave the same ring; and both flushes return the
same value and leave the same state, whatever the kernel answers. -/
theorem fast_eq_slow (env : DrainEnv σ) (s : DrainState σ) (hs : s.ring.Solo)
    (hinit : s.ring.ringInitialized = true) :
    (∀ fuel, s.ring.cq.length < fuel → ∃ t,
      s.drainCqesFast env fuel = some (s.ring.cq.length, t) ∧
        s.drainCqes env fuel = some (s.ring.cq.length, t)) ∧
    ∀ errno lastSqe answer spurious,
      FlushState.flushFast ⟨s.ring, errno, lastSqe⟩ answer =
        FlushState.flush ⟨s.ring, errno, lastSqe⟩ answer spurious := by
  refine ⟨fun fuel hfuel => ⟨s.drained env, ?_, ?_⟩, fun errno lastSqe answer spurious =>
    FlushState.flushFast_eq _ hinit answer spurious⟩
  · unfold DrainState.drainCqesFast
    rw [hinit, Bool.not_true, if_neg Bool.false_ne_true, DrainState.drainFastLoop_eq 0 hfuel,
      Nat.zero_add]
  · unfold DrainState.drainCqes
    rw [DrainState.drainLoop_eq 0 hs hfuel, Nat.zero_add]

/-- Two requests of which one was completed twice, drained in batches of two, with an unknown
request between them. -/
def twoReady : DrainState ℕ where
  ring :=
    let r := ringInit 4 4 0 false
    { r with
      pollBatchSize := 2
      freeRequestStack := [3, 2]
      pendingCount := 2
      queuedSqes := 0
      requests i := { r.requests i with
        opType := .read, callback := some 7, pending := decide (i < 2), inPool := decide (2 ≤ i) }
      cq := [⟨some 1, 10⟩, ⟨none, 0⟩, ⟨some 1, -5⟩, ⟨some 0, 20⟩] }
  user := 0

/-- Both drains reap four completions, retire two requests, and invoke two callbacks. -/
theorem fast_eq_slow_two : ∃ t,
    (twoReady.drainCqesFast ⟨fun _ => 0, fun _ res n => n + res.toNat⟩ 5 =
    some (4, t) ∧ twoReady.drainCqes ⟨fun _ => 0, fun _ res n => n + res.toNat⟩ 5 = some (4, t)) ∧
    t.user = 30 ∧ t.ring.freeRequestStack = [0, 1, 3, 2] ∧ t.ring.pendingCount = 0 := by
  have hsolo : twoReady.ring.Solo := ⟨fun _ => rfl, Or.inr ⟨rfl, rfl⟩, by decide⟩
  obtain ⟨t, hfast, hslow⟩ :=
    (fast_eq_slow ⟨fun _ => 0, fun _ res n => n + res.toNat⟩ twoReady hsolo rfl).1 5 (by decide)
  refine ⟨t, ⟨hfast, hslow⟩, ?_⟩
  have hrun : (twoReady.drainCqesFast ⟨fun _ => 0, fun _ res n => n + res.toNat⟩ 5).map (fun p =>
      (p.2.user, p.2.ring.freeRequestStack, p.2.ring.pendingCount)) =
        some (30, [0, 1, 3, 2], 0) := by decide +kernel
  rw [hfast, Option.map_some, Option.some.injEq, Prod.mk.injEq, Prod.mk.injEq] at hrun
  exact hrun

end Aura
