import Aura.Ring.Submit

/-!
# The kernel's side and completion processing

What the kernel does to a ring (accept prepared entries, post completions), the bookkeeping of
`ring_flush` around an accepted submit, and the two halves of completion processing in
`adaptive_ring.c`: `process_completion`, which clears the pending flag and hands the request to its
callback, and the retirement of processed slots (`ring_retire_batch`, or inline in
`ring_drain_cqes_fast`). Locks, the thread's `errno` and the callbacks themselves belong to the
callers (`Aura.Engine.Drain`).
-/

namespace Aura

/-! ## The kernel -/

namespace RingCtx

/-- The kernel accepts the first `k` prepared entries. -/
def kernelAccept (r : RingCtx) (k : ℕ) : RingCtx :=
  { r with
    sq := r.sq.drop k
    inKernel := r.inKernel ++ r.sq.take k
    handed := r.handed ++ r.sq.take k }

/-- The kernel completes the `k`-th entry it holds with result `res`. An accepted entry leaves
`inKernel` with its completion, so it gets exactly one. -/
def kernelPost (r : RingCtx) (k : ℕ) (res : ℤ) : RingCtx :=
  match r.inKernel[k]? with
  | none => r
  | some sqe =>
      { r with
        inKernel := r.inKernel.eraseIdx k
        cq := r.cq ++ [{ req := some sqe.userData, res }] }

/-- `io_uring_cqe_seen` of the first completion, if there is one. -/
def cqeSeen (r : RingCtx) : RingCtx := { r with cq := r.cq.tail }

/-- `ring_flush` after `io_uring_submit` accepted `submitted` entries: record the submit for the
batch optimizer and lower `queued_sqes`, clamped at zero. -/
def accountSubmit (r : RingCtx) (submitted : ℤ) : RingCtx :=
  { r with
    adaptive := r.adaptive.recordSubmit submitted
    queuedSqes := if submitted > 0 then r.queuedSqes - min submitted r.queuedSqes
      else r.queuedSqes }

end RingCtx

/-! ## `process_completion` -/

/-- `retire_entry_t`; `opIdx` is `none` where the source has `-1`. -/
structure RetireEntry where
  opIdx : Option ℕ
  result : ℤ
  opType : OpType
deriving DecidableEq, Repr

/-- The adaptive sample of a completion: only sampled requests with a positive latency count. -/
def recordSample (a : Adaptive) (q : Request) (now result : ℤ) : Adaptive :=
  if q.submitTimeNs ≠ 0 ∧ now - q.submitTimeNs > 0 then
    a.recordCompletion (now - q.submitTimeNs) (if result > 0 then result.toNat else 0)
  else a

/-- `process_completion` up to the callback. A `NULL` request or one that is not pending (a
duplicate completion) is dropped; otherwise the slot stops being pending, the sample and the
registered-resource counters are updated, and the request is returned for its callback. -/
def processCompletion (now : ℤ) (r : RingCtx) (req : Option ℕ) (result : ℤ) :
    RetireEntry × Option Request × RingCtx :=
  let dropped : RetireEntry := { opIdx := none, result, opType := .cancel }
  match req with
  | none => (dropped, none, r)
  | some i =>
      let q := r.requests i
      if !q.pending then (dropped, none, r)
      else
        ({ opIdx := some q.opIdx, result, opType := q.opType }, some q,
          ({ r with
              adaptive := recordSample r.adaptive q now result
              fixedBufInflight :=
                if q.usesRegisteredBuffer then r.fixedBufInflight - 1 else r.fixedBufInflight
              fixedFileInflight :=
                if q.usesRegisteredFile then r.fixedFileInflight - 1
                else r.fixedFileInflight }).setRequest i { q with pending := false })

/-! ## Retirement -/

/-- The completion counters of one retired request: cancels are not counted, and only data
transfers add bytes. -/
def countCompleted (r : RingCtx) (e : RetireEntry) : RingCtx :=
  if e.opType = .cancel then r
  else
    { r with
      opsCompleted := r.opsCompleted + 1
      bytesCompleted := if e.result > 0 ∧ e.opType.isDataTransfer then
        r.bytesCompleted + e.result else r.bytesCompleted }

/-- One iteration of the retirement loop: count the operation and return its slot. -/
def retireEntry (r : RingCtx) (e : RetireEntry) : RingCtx :=
  match e.opIdx with
  | none => r
  | some i => ringPutRequest (countCompleted r e) i

/-- `ring_retire_batch`, under the ring lock: retire every entry, then lower `pending_count` once by
the number of entries that had a request. -/
def ringRetireBatch (r : RingCtx) (entries : List RetireEntry) : RingCtx :=
  let r' := entries.foldl retireEntry r
  { r' with pendingCount := r'.pendingCount - (entries.filter (·.opIdx.isSome)).length }

/-- The inline retirement of `ring_drain_cqes_fast`. -/
def ringRetireInline (r : RingCtx) (e : RetireEntry) : RingCtx :=
  match e.opIdx with
  | none => r
  | some _ =>
      let r' := retireEntry r e
      { r' with pendingCount := r'.pendingCount - 1 }

/-- Inline retirement is a batch of one. -/
theorem ringRetireInline_eq_batch (r : RingCtx) (e : RetireEntry) :
    ringRetireInline r e = ringRetireBatch r [e] := by
  unfold ringRetireInline ringRetireBatch
  cases h : e.opIdx with
  | none => simp [retireEntry, h]
  | some i => simp [h]

/-- Retirement does not look at `pending_count`. -/
theorem retireEntry_pendingCount (r : RingCtx) (c : ℤ) (e : RetireEntry) :
    retireEntry { r with pendingCount := c } e = { retireEntry r e with pendingCount := c } := by
  unfold retireEntry
  cases e.opIdx with
  | none => rfl
  | some i =>
      have hcount : countCompleted { r with pendingCount := c } e =
          { countCompleted r e with pendingCount := c } := by
        unfold countCompleted
        split <;> rfl
      have hput : ∀ q : RingCtx, ringPutRequest { q with pendingCount := c } i =
          { ringPutRequest q i with pendingCount := c } := by
        intro q
        unfold ringPutRequest
        dsimp only
        split_ifs <;> rfl
      simp only [hcount, hput]

theorem foldl_retireEntry_pendingCount (r : RingCtx) (c : ℤ) (es : List RetireEntry) :
    es.foldl retireEntry { r with pendingCount := c } =
      { es.foldl retireEntry r with pendingCount := c } := by
  induction es generalizing r with
  | nil => rfl
  | cons e es ih => rw [List.foldl_cons, List.foldl_cons, retireEntry_pendingCount, ih]

theorem foldl_retireEntry_pendingCount_eq (r : RingCtx) (es : List RetireEntry) :
    (es.foldl retireEntry r).pendingCount = r.pendingCount := by
  have := congrArg RingCtx.pendingCount (foldl_retireEntry_pendingCount r r.pendingCount es)
  simpa using this

/-- A batch retires its entries one after the other. -/
theorem ringRetireBatch_cons (r : RingCtx) (e : RetireEntry) (es : List RetireEntry) :
    ringRetireBatch r (e :: es) = ringRetireBatch (ringRetireInline r e) es := by
  cases h : e.opIdx with
  | none =>
      have hr : retireEntry r e = r := by simp [retireEntry, h]
      simp [ringRetireBatch, ringRetireInline, h, hr]
  | some i =>
      have hp : (es.foldl retireEntry (retireEntry r e)).pendingCount =
          (retireEntry r e).pendingCount := foldl_retireEntry_pendingCount_eq _ _
      simp only [ringRetireBatch, ringRetireInline, h, List.foldl_cons,
        foldl_retireEntry_pendingCount, List.filter_cons, Option.isSome_some, if_true,
        List.length_cons, hp]
      congr 1
      push_cast
      omega

/-! ## What one completion does -/

section spec

variable {r : RingCtx} {now res : ℤ} {i : ℕ}

theorem processCompletion_of_pending (h : (r.requests i).pending = true) :
    processCompletion now r (some i) res =
      ({ opIdx := some (r.requests i).opIdx, result := res, opType := (r.requests i).opType },
        some (r.requests i),
        ({ r with
            adaptive := recordSample r.adaptive (r.requests i) now res
            fixedBufInflight := if (r.requests i).usesRegisteredBuffer then
              r.fixedBufInflight - 1 else r.fixedBufInflight
            fixedFileInflight := if (r.requests i).usesRegisteredFile then
              r.fixedFileInflight - 1 else r.fixedFileInflight }).setRequest i
          { r.requests i with pending := false }) := by
  simp [processCompletion, h]

theorem processCompletion_of_not_pending (h : (r.requests i).pending = false) :
    processCompletion now r (some i) res =
      ({ opIdx := none, result := res, opType := .cancel }, none, r) := by
  simp [processCompletion, h]

@[simp] theorem processCompletion_none :
    processCompletion now r none res =
      ({ opIdx := none, result := res, opType := .cancel }, none, r) := rfl

/-- The completion counters are all that `countCompleted` changes. -/
theorem countCompleted_eq (r : RingCtx) (e : RetireEntry) :
    ∃ ops bytes, countCompleted r e = { r with opsCompleted := ops, bytesCompleted := bytes } := by
  unfold countCompleted
  split
  · exact ⟨r.opsCompleted, r.bytesCompleted, rfl⟩
  · exact ⟨_, _, rfl⟩

/-- What processing a completion may touch. -/
theorem processCompletion_eq (now : ℤ) (r : RingCtx) (req : Option ℕ) (res : ℤ) :
    ∃ a b f reqs, (processCompletion now r req res).2.2 =
      { r with
        adaptive := a, fixedBufInflight := b, fixedFileInflight := f, requests := reqs } := by
  have hsame : ∃ a b f reqs, r =
      { r with adaptive := a, fixedBufInflight := b, fixedFileInflight := f, requests := reqs } :=
    ⟨r.adaptive, r.fixedBufInflight, r.fixedFileInflight, r.requests, rfl⟩
  cases req with
  | none => exact hsame
  | some i =>
      cases hpend : (r.requests i).pending with
      | false => rwa [processCompletion_of_not_pending hpend]
      | true =>
          rw [processCompletion_of_pending hpend]
          exact ⟨_, _, _, _, rfl⟩

/-- What retiring a slot may touch. -/
theorem retireEntry_eq (r : RingCtx) (e : RetireEntry) :
    ∃ stack reqs ops bytes, retireEntry r e =
      { r with
        freeRequestStack := stack, requests := reqs, opsCompleted := ops,
        bytesCompleted := bytes } := by
  unfold retireEntry
  cases e.opIdx with
  | none => exact ⟨r.freeRequestStack, r.requests, r.opsCompleted, r.bytesCompleted, rfl⟩
  | some i =>
      obtain ⟨ops, bytes, hcount⟩ := countCompleted_eq r e
      obtain ⟨stack, reqs, hput⟩ := ringPutRequest_eq (countCompleted r e) i
      refine ⟨stack, reqs, ops, bytes, ?_⟩
      dsimp only
      rw [hput, hcount]

/-- What retiring a batch may touch. -/
theorem ringRetireBatch_eq (r : RingCtx) (es : List RetireEntry) :
    ∃ stack reqs ops bytes pending, ringRetireBatch r es =
      { r with
        freeRequestStack := stack, requests := reqs, opsCompleted := ops, bytesCompleted := bytes
        pendingCount := pending } := by
  have hfold : ∃ stack reqs ops bytes, es.foldl retireEntry r =
      { r with
        freeRequestStack := stack, requests := reqs, opsCompleted := ops
        bytesCompleted := bytes } := by
    induction es generalizing r with
    | nil => exact ⟨r.freeRequestStack, r.requests, r.opsCompleted, r.bytesCompleted, rfl⟩
    | cons e es ih =>
        obtain ⟨stack, reqs, ops, bytes, he⟩ := retireEntry_eq r e
        obtain ⟨stack', reqs', ops', bytes', hes⟩ := ih (retireEntry r e)
        refine ⟨stack', reqs', ops', bytes', ?_⟩
        rw [List.foldl_cons, hes, he]
  obtain ⟨stack, reqs, ops, bytes, h⟩ := hfold
  exact ⟨stack, reqs, ops, bytes, _, by rw [ringRetireBatch, h]⟩

/-- Retiring a processed slot: it goes back on the stack and `pending_count` drops by one. -/
theorem ringRetireInline_of_idle {e : RetireEntry} (hidx : e.opIdx = some i)
    (hlt : i < r.maxRequests) (hpool : (r.requests i).inPool = false)
    (hpend : (r.requests i).pending = false) :
    ∃ ops bytes, ringRetireInline r e =
      ({ r with
          freeRequestStack := i :: r.freeRequestStack
          pendingCount := r.pendingCount - 1
          opsCompleted := ops
          bytesCompleted := bytes }).setRequest i { r.requests i with inPool := true } := by
  obtain ⟨ops, bytes, hcount⟩ := countCompleted_eq r e
  have hput := ringPutRequest_of_idle (r := countCompleted r e) (i := i) (by rw [hcount]; exact hlt)
    (by rw [hcount]; exact hpool) (by rw [hcount]; exact hpend)
  refine ⟨ops, bytes, ?_⟩
  have hretire : retireEntry r e = ringPutRequest (countCompleted r e) i := by
    simp only [retireEntry, hidx]
  rw [hput, hcount] at hretire
  simp only [ringRetireInline, hidx, hretire]
  rfl

end spec

end Aura
