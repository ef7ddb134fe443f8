import Aura.Ring.Slots

/-!
# Preparing submissions

The `ring_submit_*` family of `adaptive_ring.c`. Every member validates its request, asks for a
submission queue entry (`submit_get_sqe`), fills it, and runs one of two postambles
(`data_finish`, `meta_finish`), which mark the slot pending and count it in `queued_sqes` and
`pending_count`. A member that fails returns an `errno` and leaves the ring alone.

The thread-local `tls_last_sqe` that the macros also set belongs to the calling thread and is
written by the callers of this file (`Aura.Engine.Submit`).
-/

namespace Aura

/-- `submit_get_sqe`: is there a submission queue entry to be had? -/
def submitGetSqe (r : RingCtx) : Except ℤ Unit :=
  if !r.ringInitialized then .error EINVAL
  else if r.shuttingDown then .error ESHUTDOWN
  else if r.sqEntries ≤ r.sq.length then .error EBUSY
  else .ok ()

/-- The `io_uring_prep_*` call of an operation: the entry's fields, read from the request. -/
def prepSqe (op : OpType) (q : Request) (slot : ℕ) : Sqe :=
  match op with
  | .read | .write =>
      { op, fd := q.fd, addr := q.buffer, len := q.len, offset := q.offset, userData := slot }
  | .readv | .writev =>
      { op, fd := q.fd, addr := q.iov, len := q.iovcnt.toNat, offset := q.offset, userData := slot }
  | .readFixed | .writeFixed =>
      { op, fd := q.fd, addr := q.buffer, len := q.len, offset := q.offset,
        bufIndex := q.bufIndex, userData := slot }
  | .fsync | .fdatasync | .close => { op, fd := q.fd, userData := slot }
  | .openat | .statx => { op, fd := q.fd, opMeta := q.opMeta, userData := slot }
  | .fallocate | .syncFileRange =>
      { op, fd := q.fd, len := q.len, offset := q.offset, opMeta := q.opMeta, userData := slot }
  | .ftruncate => { op, fd := q.fd, len := q.len, userData := slot }
  | .cancel => { op, userData := slot }

/-- `data_finish`: the postamble of data transfers, which samples the submission time. -/
def dataFinish (now : ℤ) (r : RingCtx) (i : ℕ) (op : OpType) : RingCtx :=
  let mask := if r.adaptive.passthroughMode then PASSTHROUGH_SAMPLE_MASK
    else RING_LATENCY_SAMPLE_MASK
  let sc := r.sampleCounter
  ({ r with
      sampleCounter := (sc + 1) % 2 ^ 32
      queuedSqes := r.queuedSqes + 1
      pendingCount := r.pendingCount + 1 }).setRequest i
    { r.requests i with
      opType := op, submitTimeNs := if sc &&& mask = 0 then now else 0, pending := true }

/-- `meta_finish`: the postamble of metadata operations and cancels, without sampling. -/
def metaFinish (r : RingCtx) (i : ℕ) (op : OpType) : RingCtx :=
  ({ r with
      queuedSqes := r.queuedSqes + 1
      pendingCount := r.pendingCount + 1 }).setRequest i
    { r.requests i with opType := op, submitTimeNs := 0, pending := true }

/-- `RING_SUBMIT_DATA_OP`. -/
def ringSubmitDataOp (op : OpType) (now : ℤ) (r : RingCtx) (i : ℕ) : Except ℤ RingCtx :=
  match submitGetSqe r with
  | .error e => .error e
  | .ok () =>
      let q := r.requests i
      let sqe := { prepSqe op q i with fixedFile := q.usesRegisteredFile, ioLink := q.linked }
      .ok (dataFinish now { r with sq := r.sq ++ [sqe] } i op)

/-- `RING_SUBMIT_META_OP` and `RING_SUBMIT_META_OP_FIXED`; `fixed` tells them apart. -/
def ringSubmitMetaOp (fixed : Bool) (op : OpType) (r : RingCtx) (i : ℕ) : Except ℤ RingCtx :=
  match submitGetSqe r with
  | .error e => .error e
  | .ok () =>
      let q := r.requests i
      let sqe := { prepSqe op q i with
        fixedFile := fixed && q.usesRegisteredFile, ioLink := q.linked }
      .ok (metaFinish { r with sq := r.sq ++ [sqe] } i op)

/-! ## The members of the family -/

/-- A `ring_submit_*` function: the clock, the ring and the slot of the request. -/
abbrev RingSubmitFn := ℤ → RingCtx → ℕ → Except ℤ RingCtx

/-- Data transfers of a single buffer: the length must fit the entry's 32-bit field. -/
def ringSubmitBuffer (op : OpType) : RingSubmitFn := fun now r i =>
  if (r.requests i).len > UINT_MAX then .error EINVAL else ringSubmitDataOp op now r i

/-- Vectored transfers: a non-empty vector of at most `IOV_MAX` segments. -/
def ringSubmitVectored (op : OpType) : RingSubmitFn := fun now r i =>
  if (r.requests i).iov = none ∨ (r.requests i).iovcnt ≤ 0 ∨ (r.requests i).iovcnt > IOV_MAX then
    .error EINVAL
  else ringSubmitDataOp op now r i

/-- `ring_submit_read`. -/
def ringSubmitRead : RingSubmitFn := ringSubmitBuffer .read
/-- `ring_submit_write`. -/
def ringSubmitWrite : RingSubmitFn := ringSubmitBuffer .write
/-- `ring_submit_read_fixed`. -/
def ringSubmitReadFixed : RingSubmitFn := ringSubmitBuffer .readFixed
/-- `ring_submit_write_fixed`. -/
def ringSubmitWriteFixed : RingSubmitFn := ringSubmitBuffer .writeFixed
/-- `ring_submit_readv`. -/
def ringSubmitReadv : RingSubmitFn := ringSubmitVectored .readv
/-- `ring_submit_writev`. -/
def ringSubmitWritev : RingSubmitFn := ringSubmitVectored .writev
/-- `ring_submit_fsync`. -/
def ringSubmitFsync : RingSubmitFn := fun _ => ringSubmitMetaOp true .fsync
/-- `ring_submit_fdatasync`. -/
def ringSubmitFdatasync : RingSubmitFn := fun _ => ringSubmitMetaOp true .fdatasync
/-- `ring_submit_openat`. -/
def ringSubmitOpenat : RingSubmitFn := fun _ => ringSubmitMetaOp false .openat
/-- `ring_submit_close`. -/
def ringSubmitClose : RingSubmitFn := fun _ => ringSubmitMetaOp false .close
/-- `ring_submit_statx`. -/
def ringSubmitStatx : RingSubmitFn := fun _ => ringSubmitMetaOp false .statx

/-- `ring_submit_fallocate`. -/
def ringSubmitFallocate : RingSubmitFn := fun _ r i =>
  if (r.requests i).len > INT64_MAX then .error EOVERFLOW else ringSubmitMetaOp true .fallocate r i

/-- `ring_submit_ftruncate`; `supported` is the build's `HAVE_FTRUNCATE_SUPPORT`. -/
def ringSubmitFtruncate (supported : Bool) : RingSubmitFn := fun _ r i =>
  if (r.requests i).len > INT64_MAX then .error EOVERFLOW
  else if supported then ringSubmitMetaOp true .ftruncate r i
  else .error ENOSYS

/-- `ring_submit_sync_file_range`. -/
def ringSubmitSyncFileRange : RingSubmitFn := fun _ r i =>
  if (r.requests i).len > UINT_MAX then .error EINVAL
  else ringSubmitMetaOp true .syncFileRange r i

/-- `ring_submit_cancel`: cancel `target` with the request in slot `i`. The entry is neither linked
nor a fixed-file one. -/
def ringSubmitCancel (r : RingCtx) (i target : ℕ) : Except ℤ RingCtx :=
  if !(r.requests target).pending then .error EALREADY
  else
    match submitGetSqe r with
    | .error e => .error e
    | .ok () =>
        let sqe := { prepSqe .cancel (r.requests i) i with addr := some target }
        .ok (metaFinish { r with sq := r.sq ++ [sqe] } i .cancel)

/-! ## What a successful submission does -/

/-- The ring after the request in slot `i` was prepared as `sqe`: the entry is at the end of the
submission queue, the slot is pending, and both counters went up by one. -/
def RingCtx.prepared (r : RingCtx) (i : ℕ) (sqe : Sqe) (op : OpType) (t : ℤ) (sc : ℕ) : RingCtx :=
  ({ r with
      sq := r.sq ++ [sqe]
      sampleCounter := sc
      queuedSqes := r.queuedSqes + 1
      pendingCount := r.pendingCount + 1 }).setRequest i
    { r.requests i with opType := op, submitTimeNs := t, pending := true }

/-- `r'` is `r` after one successful `ring_submit_*` of slot `i`. -/
def Submitted (r : RingCtx) (i : ℕ) (r' : RingCtx) : Prop :=
  ∃ sqe op t sc, sqe.userData = i ∧ submitGetSqe r = .ok () ∧ r' = r.prepared i sqe op t sc

/-- A function that prepares, for every request it accepts, one entry carrying the request's own
link flag. -/
def RingSubmitFn.Submits (f : RingSubmitFn) : Prop :=
  ∀ now r i r', f now r i = .ok r' →
    ∃ sqe op t sc, sqe.userData = i ∧ sqe.ioLink = (r.requests i).linked ∧
      submitGetSqe r = .ok () ∧ r' = r.prepared i sqe op t sc

section spec

variable {r r' : RingCtx} {i : ℕ} {op : OpType} {now : ℤ}

@[simp] theorem prepSqe_userData (op : OpType) (q : Request) (i : ℕ) :
    (prepSqe op q i).userData = i := by
  cases op <;> rfl

theorem ringSubmitDataOp_spec (h : ringSubmitDataOp op now r i = .ok r') :
    ∃ sqe op t sc, sqe.userData = i ∧ sqe.ioLink = (r.requests i).linked ∧
      submitGetSqe r = .ok () ∧ r' = r.prepared i sqe op t sc := by
  unfold ringSubmitDataOp at h
  split at h
  · cases h
  · next hsqe =>
      cases h
      exact ⟨_, _, _, _, by simp, rfl, hsqe, rfl⟩

theorem ringSubmitMetaOp_spec {fixed : Bool} (h : ringSubmitMetaOp fixed op r i = .ok r') :
    ∃ sqe op t sc, sqe.userData = i ∧ sqe.ioLink = (r.requests i).linked ∧
      submitGetSqe r = .ok () ∧ r' = r.prepared i sqe op t sc := by
  unfold ringSubmitMetaOp at h
  split at h
  · cases h
  · next hsqe =>
      cases h
      exact ⟨_, _, 0, r.sampleCounter, by simp, rfl, hsqe, rfl⟩

theorem submits_buffer (op : OpType) : RingSubmitFn.Submits (ringSubmitBuffer op) := by
  intro now r i r' h
  unfold ringSubmitBuffer at h
  split at h
  · cases h
  · exact ringSubmitDataOp_spec h

theorem submits_vectored (op : OpType) : RingSubmitFn.Submits (ringSubmitVectored op) := by
  intro now r i r' h
  unfold ringSubmitVectored at h
  split at h
  · cases h
  · exact ringSubmitDataOp_spec h

theorem submits_meta (fixed : Bool) (op : OpType) :
    RingSubmitFn.Submits (fun _ => ringSubmitMetaOp fixed op) :=
  fun _ _ _ _ h => ringSubmitMetaOp_spec h

theorem submits_fallocate : RingSubmitFn.Submits ringSubmitFallocate := by
  intro now r i r' h
  unfold ringSubmitFallocate at h
  split at h
  · cases h
  · exact ringSubmitMetaOp_spec h

theorem submits_ftruncate (supported : Bool) :
    RingSubmitFn.Submits (ringSubmitFtruncate supported) := by
  intro now r i r' h
  unfold ringSubmitFtruncate at h
  split at h
  · cases h
  · split at h
    · exact ringSubmitMetaOp_spec h
    · cases h

theorem submits_syncFileRange : RingSubmitFn.Submits ringSubmitSyncFileRange := by
  intro now r i r' h
  unfold ringSubmitSyncFileRange at h
  split at h
  · cases h
  · exact ringSubmitMetaOp_spec h

/-- A cancel that was accepted found its target pending and was submitted like any other. -/
theorem ringSubmitCancel_spec {target : ℕ} (h : ringSubmitCancel r i target = .ok r') :
    (r.requests target).pending = true ∧ Submitted r i r' := by
  unfold ringSubmitCancel at h
  split at h
  · cases h
  · next hpend =>
      split at h
      · cases h
      · next hsqe =>
          cases h
          exact ⟨by simpa using hpend, _, .cancel, 0, r.sampleCounter, by simp, hsqe, rfl⟩

theorem RingSubmitFn.Submits.submitted {f : RingSubmitFn} (hf : f.Submits)
    (h : f now r i = .ok r') : Submitted r i r' := by
  obtain ⟨sqe, op, t, sc, hdata, -, hsqe, rfl⟩ := hf now r i r' h
  exact ⟨sqe, op, t, sc, hdata, hsqe, rfl⟩

end spec

end Aura
