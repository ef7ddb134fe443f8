import Mathlib.Logic.Function.Basic
import Mathlib.Data.UInt
import Mathlib.Algebra.Order.Ring.Int

/-!
# The ring context

The data model of `adaptive_ring.h`: request slots (`aura_request`), the queue entries exchanged
with the kernel, and the ring context (`ring_ctx_t`).

Choices that a reader checking against the source needs:

* `free_request_stack` with its count is a list with the top of the stack first.
* The request array is a function from slot index to `Request`; only indices below
  `max_requests` are ever used.
* C `int` counters are integers, the two `uint32_t` in-flight counters are `UInt32`.
* The kernel side of the `io_uring` instance is three lists: `sq` (prepared entries the kernel has
  not accepted), `inKernel` (accepted entries without a completion yet) and `cq` (completions
  ready to be reaped). `handed` remembers every entry ever accepted, in order; nothing reads it
  but the specifications.
* A pointer is a natural number, `none` where the source has `NULL`.
-/

namespace Aura

/-! ## Error numbers -/

/-- `ENOENT`. -/
abbrev ENOENT : ℤ := 2
/-- `EINTR`. -/
abbrev EINTR : ℤ := 4
/-- `EIO`. -/
abbrev EIO : ℤ := 5
/-- `EAGAIN`. -/
abbrev EAGAIN : ℤ := 11
/-- `ENOMEM`. -/
abbrev ENOMEM : ℤ := 12
/-- `EBUSY`. -/
abbrev EBUSY : ℤ := 16
/-- `EINVAL`. -/
abbrev EINVAL : ℤ := 22
/-- `ENOSYS`. -/
abbrev ENOSYS : ℤ := 38
/-- `ETIME`. -/
abbrev ETIME : ℤ := 62
/-- `EOVERFLOW`. -/
abbrev EOVERFLOW : ℤ := 75
/-- `ESHUTDOWN`. -/
abbrev ESHUTDOWN : ℤ := 108
/-- `ETIMEDOUT`. -/
abbrev ETIMEDOUT : ℤ := 110
/-- `EALREADY`. -/
abbrev EALREADY : ℤ := 114

/-- `UINT_MAX`. -/
abbrev UINT_MAX : ℕ := 4294967295
/-- `INT64_MAX`. -/
abbrev INT64_MAX : ℕ := 9223372036854775807
/-- `INT_MAX`. -/
abbrev INT_MAX : ℤ := 2147483647
/-- `IOV_MAX`. -/
abbrev IOV_MAX : ℤ := 1024

/-! ## Requests -/

/-- `aura_op_type_t`. -/
inductive OpType
  | read | write | readv | writev | fsync | fdatasync | cancel | readFixed | writeFixed
  | openat | close | statx | fallocate | ftruncate | syncFileRange
deriving DecidableEq, Repr

/-- `op_is_data_transfer`: the completion result of these operations is a byte count. -/
def OpType.isDataTransfer : OpType → Bool
  | .read | .write | .readv | .writev | .readFixed | .writeFixed => true
  | _ => false

/-- The `meta` union of `aura_request`: parameters of the metadata operations. -/
inductive RequestMeta
  | none
  | openAt (pathname : ℕ) (flags : ℤ) (mode : ℕ)
  | statx (pathname : ℕ) (buf : ℕ) (flags : ℤ) (mask : ℕ)
  | fallocate (mode : ℤ)
  | syncRange (flags : ℕ)
deriving DecidableEq, Repr

/-- `struct aura_request`: a request slot. -/
structure Request where
  opType : OpType := .read
  fd : ℤ := 0
  offset : ℤ := 0
  buffer : Option ℕ := none
  len : ℕ := 0
  bufIndex : ℤ := 0
  iovcnt : ℤ := 0
  bufOffset : ℕ := 0
  iov : Option ℕ := none
  callback : Option ℕ := none
  userData : ℕ := 0
  submitTimeNs : ℤ := 0
  ringIdx : ℤ := 0
  opIdx : ℕ := 0
  usesRegisteredBuffer : Bool := false
  usesRegisteredFile : Bool := false
  pending : Bool := false
  originalFd : ℤ := 0
  opMeta : RequestMeta := .none
  inPool : Bool := false
  linked : Bool := false
deriving DecidableEq, Repr

/-! ## Entries exchanged with the kernel -/

/-- A prepared submission queue entry. `userData` is the slot whose request pointer the entry
carries; `fixedFile` and `ioLink` are the `IOSQE_FIXED_FILE` and `IOSQE_IO_LINK` flags. -/
structure Sqe where
  op : OpType
  fd : ℤ := -1
  addr : Option ℕ := none
  len : ℕ := 0
  offset : ℤ := 0
  bufIndex : ℤ := 0
  opMeta : RequestMeta := .none
  userData : ℕ
  fixedFile : Bool := false
  ioLink : Bool := false
deriving DecidableEq, Repr

/-- A completion queue entry: the request pointer it carries (`none` for `NULL`) and `res`. -/
structure Cqe where
  req : Option ℕ
  res : ℤ
deriving DecidableEq, Repr

/-- The part of `adaptive_controller_t` that the ring reads and writes. `recorded` holds the
`(latency_ns, bytes)` pairs passed to `adaptive_record_completion`, oldest first. -/
structure Adaptive where
  passthroughMode : Bool := true
  currentInFlightLimit : ℤ := 0
  currentBatchThreshold : ℤ := 2
  submitCalls : ℤ := 0
  sqesSubmitted : ℤ := 0
  recorded : List (ℤ × ℕ) := []
deriving DecidableEq, Repr

/-- `adaptive_record_submit`. -/
def Adaptive.recordSubmit (a : Adaptive) (sqeCount : ℤ) : Adaptive :=
  if sqeCount ≤ 0 then a
  else { a with submitCalls := a.submitCalls + 1, sqesSubmitted := a.sqesSubmitted + sqeCount }

/-- `adaptive_record_completion`. -/
def Adaptive.recordCompletion (a : Adaptive) (latencyNs : ℤ) (bytes : ℕ) : Adaptive :=
  { a with recorded := a.recorded ++ [(latencyNs, bytes)] }

/-! ## The ring context -/

/-- `ring_ctx_t`. -/
structure RingCtx where
  ringInitialized : Bool := true
  shuttingDown : Bool := false
  ringIdx : ℤ := 0
  /-- `lock` is held. -/
  lockHeld : Bool := false
  /-- `cq_lock` is held. -/
  cqLockHeld : Bool := false
  requests : ℕ → Request
  freeRequestStack : List ℕ
  maxRequests : ℕ
  pendingCount : ℤ := 0
  adaptive : Adaptive := {}
  queuedSqes : ℤ := 0
  sampleCounter : ℕ := 0
  bytesCompleted : ℤ := 0
  opsCompleted : ℤ := 0
  fixedBufInflight : UInt32 := 0
  fixedFileInflight : UInt32 := 0
  pollBatchSize : ℕ := 16
  singleThread : Bool := false
  stUsers : ℤ := 0
  stCqUsers : ℤ := 0
  ownerCount : ℤ := 0
  needsEnable : Bool := false
  /-- Entries in the submission ring (a power of two, at least the queue depth). -/
  sqEntries : ℕ
  sq : List Sqe := []
  inKernel : List Sqe := []
  cq : List Cqe := []
  handed : List Sqe := []

namespace RingCtx

/-- Overwrite one request slot. -/
def setRequest (r : RingCtx) (i : ℕ) (q : Request) : RingCtx :=
  { r with requests := Function.update r.requests i q }

variable (r : RingCtx) (i : ℕ) (q : Request)

@[simp] theorem setRequest_self : (r.setRequest i q).requests i = q := by simp [setRequest]

theorem setRequest_of_ne {j : ℕ} (h : j ≠ i) : (r.setRequest i q).requests j = r.requests j := by
  simp [setRequest, h]

end RingCtx

/-- `RING_MIN_POLL_BATCH`. -/
abbrev RING_MIN_POLL_BATCH : ℕ := 16
/-- `RING_MAX_POLL_BATCH`. -/
abbrev RING_MAX_POLL_BATCH : ℕ := 128
/-- `RING_LATENCY_SAMPLE_MASK`. -/
abbrev RING_LATENCY_SAMPLE_MASK : ℕ := 7
/-- `PASSTHROUGH_SAMPLE_MASK`. -/
abbrev PASSTHROUGH_SAMPLE_MASK : ℕ := 63

/-- `ring_init` for a `queue_depth`, once the kernel has set up a ring of `sqEntries` entries and
every allocation has succeeded: all slots free, the adaptive controller in passthrough. -/
def ringInit (queueDepth sqEntries : ℕ) (ringIdx : ℤ) (needsEnable : Bool) : RingCtx where
  ringIdx := ringIdx
  requests i := { opIdx := i, inPool := decide (i < queueDepth) }
  freeRequestStack := (List.range queueDepth).reverse
  maxRequests := queueDepth
  adaptive := { currentInFlightLimit := queueDepth }
  pollBatchSize := min (max (queueDepth / 4) RING_MIN_POLL_BATCH) RING_MAX_POLL_BATCH
  needsEnable := needsEnable
  sqEntries := sqEntries

end Aura
