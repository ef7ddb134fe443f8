import Mathlib.Algebra.Order.Ring.Int
import Aura.Lib.System

/-!
# The workers of sspa

A test of sspa runs one of the `workloads` on a file with some threads. `assignThreadRole` gives
each of them its role, and `worker_run` keeps a pipeline of operations full: each free slot gets
another `submitOne`, in the first fill, in the callback of the operation that had the slot, or in
the retry after a wait.

* `SspaWorker.submitOne` — the choice of the next operation, before the engine takes or refuses it;
* `SspaRun.step` — the steps of one worker, with what the engine and the other threads do;
* `sspaSystem` — all workers of a test, in any order of their steps.

Offsets and sizes are natural numbers: `sspa_fits` is about the range of `off_t`. What the workers
measure has no part in what they submit and is left out, as are the buffers.
-/

namespace Aura

open Lib

/-! ## Workloads -/

/-- `pattern_t`. -/
inductive SspaPattern
  | PATTERN_SEQ_WRITE
  | PATTERN_SEQ_READ
  | PATTERN_RAND_RW
  | PATTERN_RAND_READ
  | PATTERN_MULTI_SEQ_WRITE
  | PATTERN_KV_STORE
  | PATTERN_TRAINING
  | PATTERN_LAKEHOUSE
  deriving DecidableEq

open SspaPattern

/-- `workload_t`, without its texts. -/
structure Workload where
  pattern : SspaPattern
  ioSize : ℕ
  readPct : ℕ
  /-- `0` for one thread per CPU. -/
  threads : ℕ
  deriving DecidableEq

/-- `workloads`. -/
def workloads : List Workload :=
  [⟨PATTERN_SEQ_WRITE, 512 * 1024, 0, 1⟩,
    ⟨PATTERN_SEQ_READ, 512 * 1024, 100, 1⟩,
    ⟨PATTERN_RAND_RW, 4096, 70, 0⟩,
    ⟨PATTERN_RAND_READ, 4096, 100, 0⟩,
    ⟨PATTERN_MULTI_SEQ_WRITE, 4096, 0, 4⟩,
    ⟨PATTERN_KV_STORE, 65536, 80, 0⟩,
    ⟨PATTERN_TRAINING, 256 * 1024, 100, 2⟩,
    ⟨PATTERN_LAKEHOUSE, 1024 * 1024, 60, 0⟩]

/-- `MIN_TEST_SIZE`. -/
def MIN_TEST_SIZE : ℕ := 256 * 1024 * 1024

/-- `MAX_WORKERS`. -/
def MAX_WORKERS : ℕ := 64

/-- `PIPELINE_DEPTH`. -/
def PIPELINE_DEPTH : ℕ := 32

/-- `max_io_size`, as the loop of `main` finds it. -/
def maxIoSize : ℕ := workloads.foldl (fun m w => if w.ioSize > m then w.ioSize else m) 0

/-- The test size, aligned down to the largest I/O size. -/
def alignTestSize (testSize : ℕ) : ℕ := testSize / maxIoSize * maxIoSize

/-- `get_num_cpus`, from what `sysconf` returns. -/
def getNumCpus (online : ℤ) : ℕ :=
  let n := if online < 1 then 1 else online
  (if n > MAX_WORKERS then (MAX_WORKERS : ℤ) else n).toNat

/-- The threads that `main` gives to a workload, if it does not skip it. -/
def threadCount (w : Workload) (numCpus : ℕ) : Option ℕ :=
  let threads := if w.threads ≠ 0 then w.threads else numCpus
  let threads := if threads < 1 then 1 else threads
  if w.pattern = PATTERN_LAKEHOUSE ∧ numCpus < 3 then none else some threads

/-! ## Random numbers -/

/-- `rng_next`: the next state, which is also what is returned. -/
def rngNext (rng : UInt64) : UInt64 :=
  let x := rng
  let x := x ^^^ x <<< 13
  let x := x ^^^ x >>> 7
  x ^^^ x <<< 17

/-- `rng_offset`, with the state after it. -/
def rngOffset (rng : UInt64) (fileSize ioSize : ℕ) : ℕ × UInt64 :=
  if ioSize ≥ fileSize then (0, rng)
  else
    let numBlocks := fileSize / ioSize
    ((rngNext rng).toNat % numBlocks * ioSize, rngNext rng)

/-! ## The worker context -/

/-- The fields of `io_slot_t` that the worker reads back. -/
structure SspaSlot where
  isWrite : Bool := false
  /-- `SLOT_INFLIGHT`. -/
  inflight : Bool := false

/-- `worker_ctx_t`, with the random numbers of the thread. -/
structure SspaWorker where
  workerId : ℕ
  fileSize : ℕ
  ioSize : ℕ
  workload : Workload
  forceRead : Bool := false
  forceWrite : Bool := false
  sequential : Bool := false
  seqOffset : ℕ := 0
  seqRegionStart : ℕ := 0
  seqRegionEnd : ℕ := 0
  stopping : Bool := false
  error : ℕ := 0
  activeOps : ℤ := 0
  slots : ℕ → SspaSlot := fun _ => {}
  rng : UInt64

/-- An operation that a worker submits. -/
structure SspaIo where
  offset : ℕ
  size : ℕ
  isWrite : Bool

namespace SspaWorker

variable (s : SspaWorker)

/-- A sequential role over the whole file, from a random block on. -/
def wholeFile : SspaWorker :=
  let r := rngOffset s.rng s.fileSize s.ioSize
  { s with
    sequential := true
    seqOffset := r.1
    seqRegionStart := 0
    seqRegionEnd := s.fileSize
    rng := r.2 }

/-- A sequential role over the part of the file of one of `totalThreads` threads. -/
def ownRegion (threadId totalThreads : ℕ) : SspaWorker :=
  let region := s.fileSize / totalThreads / s.ioSize * s.ioSize
  let region := if region < s.ioSize then s.ioSize else region
  let seqOffset := region * threadId
  let seqRegionEnd := seqOffset + region
  { s with
    sequential := true
    seqOffset := seqOffset
    seqRegionStart := seqOffset
    seqRegionEnd := if seqRegionEnd > s.fileSize then s.fileSize else seqRegionEnd }

end SspaWorker

/-- `assign_thread_role`, on a context that is zero but for the file size. `rng` is the state that
`rng_seed` takes from the clock. -/
def assignThreadRole (fileSize threadId totalThreads : ℕ) (w : Workload) (rng : UInt64) :
    SspaWorker :=
  let s : SspaWorker :=
    { workerId := threadId, fileSize := fileSize, ioSize := w.ioSize, workload := w, rng := rng }
  match w.pattern with
  | PATTERN_SEQ_WRITE => { s.wholeFile with forceWrite := true }
  | PATTERN_SEQ_READ => { s.wholeFile with forceRead := true }
  | PATTERN_RAND_RW => s
  | PATTERN_RAND_READ => { s with forceRead := true }
  | PATTERN_MULTI_SEQ_WRITE => { s.ownRegion threadId totalThreads with forceWrite := true }
  | PATTERN_KV_STORE =>
    if threadId = 0 then { s.wholeFile with forceWrite := true } else { s with forceRead := true }
  | PATTERN_TRAINING =>
    if threadId = 0 then { s.wholeFile with forceRead := true } else { s with forceRead := true }
  | PATTERN_LAKEHOUSE =>
    if threadId < (totalThreads * 4 + 9) / 10 ∨ totalThreads = 1 then
      { s.ownRegion threadId totalThreads with forceRead := true }
    else if threadId < (totalThreads * 7 + 9) / 10 then
      { s.ownRegion threadId totalThreads with forceWrite := true }
    else { s with forceRead := true, ioSize := 4096 }

/-! ## Submissions and completions -/

/-- `EAGAIN`. -/
def sspaEAGAIN : ℕ := 11

/-- `EBUSY`. -/
def sspaEBUSY : ℕ := 16

/-- `ENOMEM`. -/
def sspaENOMEM : ℕ := 12

namespace SspaWorker

variable (s : SspaWorker)

/-- Read or write. -/
def decideWrite : Bool × SspaWorker :=
  if s.forceWrite then (true, s)
  else if s.forceRead then (false, s)
  else
    (decide ((rngNext s.rng % 100).toNat ≥ s.workload.readPct), { s with rng := rngNext s.rng })

/-- The offset of the next operation. -/
def nextOffset : ℕ × SspaWorker :=
  if s.sequential then
    let next := s.seqOffset + s.ioSize
    (s.seqOffset,
      { s with
        seqOffset := if next + s.ioSize > s.seqRegionEnd then s.seqRegionStart else next })
  else
    let r := rngOffset s.rng s.fileSize s.ioSize
    (r.1, { s with rng := r.2 })

/-- What becomes of a slot. -/
def setSlot (k : ℕ) (slot : SspaSlot) : SspaWorker :=
  { s with slots := Function.update s.slots k slot }

/-- `submit_one` on slot `k` up to the call of `aura_read` or `aura_write`: the operation, and the
context in which the engine is called. -/
def submitOne (k : ℕ) : SspaIo × SspaWorker :=
  let w := s.decideWrite
  let o := w.2.nextOffset
  (⟨o.1, s.ioSize, w.1⟩, o.2.setSlot k ⟨w.1, true⟩)

/-- The rest of `submit_one`: the engine has taken the operation, or has refused it with an error
number. -/
def answered (k : ℕ) : Option ℕ → SspaWorker
  | none => { s with activeOps := s.activeOps + 1 }
  | some errno =>
    let s' := s.setSlot k { s.slots k with inflight := false }
    if errno ≠ sspaEAGAIN ∧ errno ≠ sspaEBUSY ∧ s.error = 0 then { s' with error := errno } else s'

/-- The part of `on_complete` before the slot is used again. -/
def finish (k : ℕ) (result : ℤ) : SspaWorker :=
  let s' := { s.setSlot k { s.slots k with inflight := false } with activeOps := s.activeOps - 1 }
  if result < 0 ∧ -result ≠ sspaEBUSY ∧ s.error = 0 then { s' with error := (-result).toNat }
  else s'

/-- Whether `on_complete` uses the slot again: after a success and after `EBUSY`, unless the worker
is to stop. -/
def resubmits (result : ℤ) : Bool :=
  (result ≥ 0 || -result = sspaEBUSY) && !s.stopping && s.error = 0

end SspaWorker

/-! ## The steps of a worker -/

/-- Where `worker_run` is. -/
inductive SspaPc
  /-- Before the allocation of the buffer of a slot. -/
  | buffers (i : ℕ)
  /-- In the first fill of the pipeline. -/
  | fill (i : ℕ)
  /-- At the test of the event loop. -/
  | test
  /-- In `aura_wait`. -/
  | wait
  /-- In the loop over the free slots. -/
  | retry (i : ℕ)
  /-- In `aura_drain`. -/
  | drain
  /-- After it. -/
  | done

/-- What happens to a worker. -/
inductive SspaEvent
  /-- A buffer is allocated, or not. -/
  | alloc (ok : Bool)
  /-- The next round of a loop over the slots, or its end in the first fill. -/
  | round
  /-- The test of the event loop, with `g_interrupted`. -/
  | look (interrupted : Bool)
  /-- `aura_wait` returns, with an error that ends the loop or without. -/
  | waited (fatal : Bool)
  /-- The clock is read after the loop over the free slots. -/
  | clock (elapsed : Bool)
  /-- `aura_drain` returns. -/
  | drained
  /-- `aura_read` or `aura_write` returns; `refused` is the error number when it returns no
  request. -/
  | answer (refused : Option ℕ)
  /-- The engine runs the callback of the operation of slot `k`. -/
  | complete (k : ℕ) (result : ℤ)
  /-- Another thread sets `stopping`. -/
  | stop

/-- A worker in its run. `calls` are the slots whose `submit_one` is in a call of the engine, the
innermost first; `submitted` is specification state, the operations of all these calls. -/
structure SspaRun where
  pc : SspaPc := .buffers 0
  ctx : SspaWorker
  calls : List ℕ := []
  submitted : List SspaIo := []

namespace SspaRun

/-- The start of `worker_run`. `rng` is the state that `rng_seed` takes from the clock. -/
def start (ctx : SspaWorker) (rng : UInt64) : SspaRun := { ctx := { ctx with rng := rng } }

/-- A call of `submit_one`, into the engine. -/
def submit (r : SspaRun) (k : ℕ) : SspaRun :=
  let o := r.ctx.submitOne k
  { r with ctx := o.2, calls := k :: r.calls, submitted := r.submitted ++ [o.1] }

/-- The end of the event loop. -/
def leave (r : SspaRun) : SspaRun := { r with pc := .drain, ctx := { r.ctx with stopping := true } }

/-- `on_complete` for the operation of slot `k`. -/
def onComplete (r : SspaRun) (k : ℕ) (result : ℤ) : SspaRun :=
  let r' := { r with ctx := r.ctx.finish k result }
  if r'.ctx.resubmits result then r'.submit k else r'

/-- Whether the worker is in a call of the engine that may run callbacks. -/
def inEngine (r : SspaRun) : Bool :=
  !r.calls.isEmpty ||
    match r.pc with
    | .wait | .drain => true
    | .buffers _ | .fill _ | .test | .retry _ | .done => false

/-- A step of `worker_run` itself. -/
def loopStep (r : SspaRun) (e : SspaEvent) : Option SspaRun :=
  match r.pc, e with
  | .buffers i, .alloc true =>
    -- The buffer is filled with random numbers.
    let rng := rngNext^[r.ctx.ioSize / 8] r.ctx.rng
    some { r with
      pc := if i + 1 < PIPELINE_DEPTH then .buffers (i + 1) else .fill 0
      ctx := { r.ctx with rng := rng } }
  | .buffers _, .alloc false =>
    some { r with pc := .done, ctx := { r.ctx with error := sspaENOMEM } }
  | .fill i, .round =>
    if i < PIPELINE_DEPTH ∧ r.ctx.error = 0 then some { r.submit i with pc := .fill (i + 1) }
    else some { r with pc := .test }
  | .test, .look interrupted =>
    if !r.ctx.stopping ∧ r.ctx.error = 0 ∧ !interrupted then some { r with pc := .wait }
    else some r.leave
  | .wait, .waited fatal => some (if fatal then r.leave else { r with pc := .retry 0 })
  | .retry i, .round =>
    if i < PIPELINE_DEPTH ∧ r.ctx.error = 0 ∧ !r.ctx.stopping then
      if (r.ctx.slots i).inflight then some { r with pc := .retry (i + 1) }
      else some { r.submit i with pc := .retry (i + 1) }
    else none
  | .retry i, .clock elapsed =>
    if i < PIPELINE_DEPTH ∧ r.ctx.error = 0 ∧ !r.ctx.stopping then none
    else some (if elapsed then r.leave else { r with pc := .test })
  | .drain, .drained => some { r with pc := .done }
  | _, _ => none

/-- A step of a worker. The engine may run callbacks in every call of it, those of `submit_one`
included. -/
def step (r : SspaRun) : SspaEvent → Option SspaRun
  | .stop => some { r with ctx := { r.ctx with stopping := true } }
  | .answer refused =>
    match r.calls with
    | k :: calls => some { r with ctx := r.ctx.answered k refused, calls := calls }
    | [] => none
  | .complete k result =>
    if r.inEngine ∧ k < PIPELINE_DEPTH ∧ (r.ctx.slots k).inflight then some (r.onComplete k result)
    else none
  | e => if r.calls = [] then r.loopStep e else none

end SspaRun

/-- `run_test`: workload `w` with `n` threads on a file of size `fileSize`. Whatever the clock
seeds, at the assignment of the roles and again on the threads. -/
def sspaSystem (w : Workload) (fileSize n : ℕ) : System (ℕ → SspaRun) (ℕ × SspaEvent) where
  init ss := ∀ i < n, ∃ rng rng',
    ss i = SspaRun.start (assignThreadRole fileSize i n w rng) rng'
  step ss e ss' := e.1 < n ∧ ∃ r, (ss e.1).step e.2 = some r ∧ ss' = Function.update ss e.1 r

end Aura
