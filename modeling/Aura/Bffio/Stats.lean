import Aura.Adaptive.Histogram
import Aura.Lib.System

/-!
# The statistics of BFFIO

The workers of `workload.c` share one engine. Each has its own `thread_stats_t`, but the callback of
an operation runs on whichever worker reaps it, and submissions and callbacks update a counter with
a load and a store of their own.

* `StatsUpdate` — an update of a counter; `callbackUpdates` lists those of `io_callback` and
  `fsync_callback`.
* `BffioState.step` — submissions, callbacks, the resets of the main thread and the final drain, one
  atomic load or store at a time.

Counters are integers. `completed` is specification state: the completions of a worker since its
last reset. -/

namespace Aura

open Lib

/-- `LAT_HIST_BUCKETS`. -/
abbrev LAT_HIST_BUCKETS : ℤ := 200
/-- `LAT_HIST_BUCKET_US`. -/
abbrev LAT_HIST_BUCKET_US : ℕ := 50

/-! ## Counters -/

/-- The atomic fields of `thread_stats_t`. -/
inductive StatsCounter
  | readOps | writeOps | readBytes | writeBytes | errors | inflight
  | latHist (bucket : ℤ)
  | latOverflow | latMinNs | latMaxNs | latSumNs | latCount
deriving DecidableEq

/-- An update of a counter: the value that is loaded decides what is stored. -/
inductive StatsUpdate
  | add (k : StatsCounter) (n : ℤ)
  | lowerMin (v : ℤ)
  | raiseMax (v : ℤ)
deriving DecidableEq

namespace StatsUpdate

/-- The counter of an update. -/
def counter : StatsUpdate → StatsCounter
  | add k _ => k
  | lowerMin _ => .latMinNs
  | raiseMax _ => .latMaxNs

/-- What is stored after `x` was loaded, if anything. -/
def store (x : ℤ) : StatsUpdate → Option ℤ
  | add _ n => some (x + n)
  | lowerMin v => if v < x then some v else none
  | raiseMax v => if x < v then some v else none

end StatsUpdate

/-! ## Operations and their callbacks -/

/-- `io_ctx_t` of a submitted operation. `submitTimeNs` is 0 when the latency is not sampled. -/
structure BffioOp where
  owner : ℕ
  fsync : Bool := false
  ioSize : ℕ
  isWrite : Bool
  submitTimeNs : UInt64 := 0
deriving DecidableEq

/-- The bucket of a latency, an `int`. -/
def latencyBucket (latencyNs : ℕ) : ℤ := toInt32 (latencyNs / 1000 / LAT_HIST_BUCKET_US : ℕ)

/-- `stats_record_io_count_fast`. -/
def statsRecordIoCountFast (bytes : ℕ) (isWrite : Bool) : List StatsUpdate :=
  if isWrite then [.add .writeOps 1, .add .writeBytes bytes]
  else [.add .readOps 1, .add .readBytes bytes]

/-- `stats_record_io_fast`. -/
def statsRecordIoFast (latencyNs bytes : ℕ) (isWrite : Bool) : List StatsUpdate :=
  let bucket := latencyBucket latencyNs
  statsRecordIoCountFast bytes isWrite ++
    [if bucket ≥ LAT_HIST_BUCKETS then .add .latOverflow 1 else .add (.latHist bucket) 1,
      .lowerMin latencyNs, .raiseMax latencyNs, .add .latSumNs latencyNs,
      .add .latCount 1]

/-- A completed operation: its result, the time its callback takes for the completion, and whether
the callback found the ramp period over. -/
structure Completion where
  op : BffioOp
  result : ℤ
  completionNs : UInt64
  counted : Bool
deriving DecidableEq

namespace Completion

variable (c : Completion)

/-- What is counted as bytes. -/
def bytes : ℕ := if c.op.fsync then 0 else c.op.ioSize

/-- What is counted as a write. -/
def isWrite : Bool := c.op.fsync || c.op.isWrite

/-- Is the latency recorded? -/
def sampled : Bool := c.op.submitTimeNs ≠ 0

/-- The latency. -/
def latencyNs : ℕ := (c.completionNs - c.op.submitTimeNs).toNat

/-- The updates of `io_callback` and `fsync_callback`, after `ramping` was loaded. -/
def callbackUpdates : List StatsUpdate :=
  (if c.counted then
    if c.sampled then statsRecordIoFast c.latencyNs c.bytes c.isWrite
    else statsRecordIoCountFast c.bytes c.isWrite
  else []) ++
  (if c.result < 0 then [.add .errors 1] else []) ++ [.add .inflight (-1)]

end Completion

/-! ## Threads -/

/-- What a thread is updating counters for: an operation that it is about to submit, one that the
engine refused, or the callback of one. -/
inductive Purpose
  | enter (op : BffioOp)
  | leave
  | callback
deriving DecidableEq

/-- Updates in progress of the counters of worker `owner`: the remaining ones, and the value that
was loaded for the first of them. -/
structure Updating where
  owner : ℕ
  purpose : Purpose
  updates : List StatsUpdate
  loaded : Option ℤ := none
deriving DecidableEq

/-- Where a worker is: in its main loop, in its final drain, or done. -/
inductive WorkerPhase
  | running | draining | finished
deriving DecidableEq

/-- A worker thread. `calling` is the operation of an `aura_read`, `aura_write` or `aura_fsync` that
is in progress; such a call may run callbacks, as `aura_poll` and `aura_wait` do. -/
structure WorkerThread where
  phase : WorkerPhase := .running
  calling : Option BffioOp := none
  updating : Option Updating := none

/-- The stores of `stats_reset`. -/
def statsReset : List (StatsCounter × ℤ) :=
  [(.readOps, 0), (.writeOps, 0), (.readBytes, 0), (.writeBytes, 0), (.errors, 0)] ++
    (List.range 200).map (fun i => (.latHist i, 0)) ++
    [(.latOverflow, 0), (.latMinNs, 2 ^ 64 - 1), (.latMaxNs, 0), (.latSumNs, 0), (.latCount, 0)]

/-- The state of a job. `pendingResets` are the workers that the main thread has still to reset, at
the end of the ramp period if `rampResets`, and `reset` is the worker it is resetting, with the
remaining stores. -/
structure BffioState where
  stats : ℕ → StatsCounter → ℤ := fun _ k => if k = .latMinNs then 2 ^ 64 - 1 else 0
  ramping : Bool
  threads : ℕ → WorkerThread := fun _ => {}
  outstanding : List BffioOp := []
  pendingResets : List ℕ := []
  rampResets : Bool := false
  reset : Option (ℕ × List (StatsCounter × ℤ)) := none
  completed : ℕ → List Completion := fun _ => []

/-- The steps of worker `t`, and of the main thread. -/
inductive BffioStep
  | submit (t : ℕ) (op : BffioOp)
  | accept (t : ℕ)
  | refuse (t : ℕ)
  | callback (t : ℕ) (op : BffioOp) (result : ℤ) (completionNs : UInt64)
  | load (t : ℕ)
  | store (t : ℕ)
  | stop (t : ℕ)
  | drainTest (t : ℕ)
  | endRamp
  | converged
  | resetWorker
  | resetCounter

namespace BffioState

variable (s : BffioState)

def setThread (t : ℕ) (th : WorkerThread) : BffioState :=
  { s with threads := Function.update s.threads t th }

/-- A counter of worker `w` gets a value. -/
def setCounter (w : ℕ) (k : StatsCounter) (v : ℤ) : BffioState :=
  { s with stats := Function.update s.stats w (Function.update (s.stats w) k v) }

/-- The thread once the first of its updates is done. -/
def advance (th : WorkerThread) (u : Updating) : WorkerThread :=
  match u.updates with
  | _ :: rest@(_ :: _) => { th with updating := some { u with updates := rest, loaded := none } }
  | _ =>
      match u.purpose with
      | .enter op => { th with updating := none, calling := some op }
      | _ => { th with updating := none }

/-- Begin to submit an operation: `inflight` goes up first. -/
def submit (t : ℕ) (op : BffioOp) : BffioState :=
  s.setThread t { s.threads t with
    updating := some { owner := t, purpose := .enter op, updates := [.add .inflight 1] } }

/-- The engine takes the operation. -/
def accept (t : ℕ) (op : BffioOp) : BffioState :=
  { s.setThread t { s.threads t with calling := none } with outstanding := op :: s.outstanding }

/-- The engine refuses it: `inflight` goes down again. -/
def refuse (t : ℕ) : BffioState :=
  s.setThread t { s.threads t with
    calling := none
    updating := some { owner := t, purpose := .leave, updates := [.add .inflight (-1)] } }

/-- The callback of an operation begins. -/
def beginCallback (t : ℕ) (c : Completion) : BffioState :=
  { s.setThread t { s.threads t with
      updating := some
        { owner := c.op.owner, purpose := .callback, updates := c.callbackUpdates } } with
    outstanding := s.outstanding.erase c.op
    completed := Function.update s.completed c.op.owner (s.completed c.op.owner ++ [c]) }

/-- The load of the first update. -/
def load (t : ℕ) (u : Updating) (k : StatsCounter) : BffioState :=
  s.setThread t { s.threads t with updating := some { u with loaded := some (s.stats u.owner k) } }

/-- Its store, if there is one, after `x` was loaded. -/
def storeUpdate (t : ℕ) (u : Updating) (up : StatsUpdate) (x : ℤ) : BffioState :=
  let s := s.setThread t (advance (s.threads t) u)
  match up.store x with
  | some v => s.setCounter u.owner up.counter v
  | none => s

/-- One step of a job with `n` workers. -/
def step (n : ℕ) : BffioStep → Option BffioState
  | .submit t op =>
      if t < n ∧ op.owner = t ∧ (s.threads t).phase = .running ∧ (s.threads t).calling = none ∧
          (s.threads t).updating = none then some (s.submit t op)
      else none
  | .accept t =>
      match (s.threads t).calling, (s.threads t).updating with
      | some op, none => some (s.accept t op)
      | _, _ => none
  | .refuse t =>
      match (s.threads t).calling, (s.threads t).updating with
      | some _, none => some (s.refuse t)
      | _, _ => none
  | .callback t op result completionNs =>
      if t < n ∧ op ∈ s.outstanding ∧ (s.threads t).phase ≠ .finished ∧
          (s.threads t).updating = none then
        some (s.beginCallback t { op, result, completionNs, counted := !s.ramping })
      else none
  | .load t =>
      match (s.threads t).updating with
      | some ⟨owner, purpose, up :: ups, none⟩ =>
          some (s.load t ⟨owner, purpose, up :: ups, none⟩ up.counter)
      | _ => none
  | .store t =>
      match (s.threads t).updating with
      | some ⟨owner, purpose, up :: ups, some x⟩ =>
          some (s.storeUpdate t ⟨owner, purpose, up :: ups, some x⟩ up x)
      | _ => none
  | .stop t =>
      if t < n ∧ (s.threads t).phase = .running ∧ (s.threads t).calling = none ∧
          (s.threads t).updating = none then
        some (s.setThread t { s.threads t with phase := .draining })
      else none
  | .drainTest t =>
      if t < n ∧ (s.threads t).phase = .draining ∧ (s.threads t).updating = none ∧
          ¬ 0 < s.stats t .inflight then
        some (s.setThread t { s.threads t with phase := .finished })
      else none
  | .endRamp =>
      if s.ramping ∧ s.pendingResets = [] ∧ s.reset = none then
        some { s with ramping := false, pendingResets := List.range n, rampResets := true }
      else none
  | .converged =>
      if s.ramping = false ∧ s.pendingResets = [] ∧ s.reset = none then
        some { s with pendingResets := List.range n, rampResets := false }
      else none
  | .resetWorker =>
      match s.reset, s.pendingResets with
      | none, w :: ws =>
          some { s with
            reset := some (w, statsReset), pendingResets := ws
            completed := Function.update s.completed w [] }
      | _, _ => none
  | .resetCounter =>
      match s.reset with
      | some (w, (k, v) :: rest) =>
          some { s.setCounter w k v with reset := if rest = [] then none else some (w, rest) }
      | _ => none

end BffioState

/-- A job with `n` workers that share an engine; `ramping` at first if there is a ramp period. -/
def bffioSystem (n : ℕ) : System BffioState BffioStep :=
  System.ofFn (fun s => ∃ ramping, s = { ramping }) (BffioState.step · n)

end Aura
