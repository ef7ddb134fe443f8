import Aura.Bffio.JobConfig
import Aura.Bffio.Offsets
import Aura.Lib.System

/-!
# A worker of BFFIO

`worker_thread` of `workload.c`: batches of submissions up to the depth, each followed by a poll,
and a final drain. The engine may run callbacks during every call into it, that is during
submissions as well as in `aura_poll` and `aura_wait`, for any operation that it has accepted.

* `OffsetGen` — the generator of files and offsets, with the random numbers.
* `WorkerState.step` — the steps of one worker; the clock does not go back.

The context pool is a list, as `contextPool_lossless` allows. Callbacks are those of the worker's
own operations. `recorded` is specification state: submission and completion time of each latency
that went into the statistics. -/

namespace Aura

open Lib

/-! ## Configuration -/

/-- What a worker is given by `workload_run`: `job` was accepted by `job_config_validate`. -/
structure WorkerConfig where
  job : JobConfig
  perFileSize : UInt64
  threadId : ℕ
  fdCount : ℕ
  effectiveDepth : ℕ
  buffersRegistered : Bool

/-- `pattern_is_random`. -/
def RwPattern.isRandom : RwPattern → Bool
  | .RW_RANDREAD | .RW_RANDWRITE | .RW_RANDRW => true
  | _ => false

/-- `is_mixed`. -/
def RwPattern.isMixed : RwPattern → Bool
  | .RW_RANDRW | .RW_READWRITE => true
  | _ => false

/-- `is_write_only`. -/
def RwPattern.isWriteOnly : RwPattern → Bool
  | .RW_WRITE | .RW_RANDWRITE => true
  | _ => false

namespace WorkerConfig

variable (w : WorkerConfig)

/-- `num_threads`. -/
def numThreads : UInt64 := UInt64.ofInt (if w.job.numjobs > 0 then w.job.numjobs else 1)

/-- `per_thread_size`. -/
def perThreadSize : UInt64 := w.job.size / w.numThreads

/-- `file_ios_limit`. -/
def fileIosLimit : UInt64 :=
  if w.perFileSize > w.job.bs then w.perFileSize / w.job.bs else 1

/-- The seed of the generator, from the nanoseconds of the clock. -/
def seed (tvNsec : UInt64) : UInt64 :=
  let rng := UInt64.ofNat (w.threadId + 1) * 2654435761 ^^^ tvNsec
  if rng = 0 then 1 else rng

end WorkerConfig

/-! ## Files and offsets -/

/-- The random numbers, and the fields of `thread_ctx_t` that decide about the next offset. -/
structure OffsetGen where
  rng : UInt64
  seqOffsets : ℕ → UInt64
  currentFileIdx : ℕ
  fileIosDone : UInt64 := 0

namespace OffsetGen

variable (w : WorkerConfig) (g : OffsetGen)

/-- The generator at the start of a worker. -/
def start (tvNsec : UInt64) : OffsetGen where
  rng := w.seed tvNsec
  seqOffsets _ := seqStart w.perFileSize w.job.bs w.numThreads (UInt64.ofNat w.threadId)
  currentFileIdx := w.threadId % w.fdCount

/-- A random number. -/
def draw : UInt64 × OffsetGen := (xorshift64 g.rng, { g with rng := xorshift64 g.rng })

/-- `select_file`. -/
def selectFile : ℕ × OffsetGen :=
  if w.fdCount ≤ 1 then (0, g)
  else
    match w.job.fileServiceType with
    | .FST_ROUNDROBIN =>
        (g.currentFileIdx, { g with currentFileIdx := (g.currentFileIdx + 1) % w.fdCount })
    | .FST_SEQUENTIAL =>
        if g.fileIosDone + 1 ≥ w.fileIosLimit then
          (g.currentFileIdx,
            { g with fileIosDone := 0, currentFileIdx := (g.currentFileIdx + 1) % w.fdCount })
        else (g.currentFileIdx, { g with fileIosDone := g.fileIosDone + 1 })
    | .FST_RANDOM => ((g.draw.1 % UInt64.ofNat w.fdCount).toNat, g.draw.2)

/-- The offset within a file. -/
def nextOffset (fileIdx : ℕ) : UInt64 × OffsetGen :=
  if w.job.rw.isRandom then
    if maxOffset w.perFileSize w.job.bs > 0 then
      (randomOffset w.perFileSize w.job.bs g.draw.1, g.draw.2)
    else (0, g)
  else
    let step := seqStep w.perFileSize w.job.bs (g.seqOffsets fileIdx)
    (step.1, { g with seqOffsets := Function.update g.seqOffsets fileIdx step.2 })

/-- Read or write. -/
def decideWrite : Bool × OffsetGen :=
  if w.job.rw.isMixed then (decide (((g.draw.1 % 100).toNat : ℤ) ≥ w.job.rwmixread), g.draw.2)
  else (w.job.rw.isWriteOnly, g)

/-- Is the latency sampled? -/
def decideSample (interval : UInt32) : Bool × OffsetGen :=
  if interval ≤ 1 then (true, g) else (decide (g.draw.1 % interval.toUInt64 = 0), g.draw.2)

end OffsetGen

/-- The fields of `thread_ctx_t` for the sampling of latencies. -/
structure Sampler where
  interval : UInt32 := 1
  calibNs : UInt64
  ioCount : UInt64 := 0

/-- Another operation is counted, and the interval is calibrated every 65536 of them. -/
def Sampler.count (s : Sampler) (calNow : UInt64) : Sampler :=
  let ioCount := s.ioCount + 1
  if ioCount &&& 0xFFFF = 0 then
    let elapsed := calNow - s.calibNs
    let iopsEst := 65536 * 1000000000 / elapsed
    { interval :=
        if elapsed > 0 then if iopsEst > 100000 then (iopsEst / 100000).toUInt32 else 1
        else s.interval
      calibNs := calNow
      ioCount }
  else { s with ioCount }

/-! ## States -/

/-- `io_ctx_t`. The buffers of a worker are numbered; `none` is the null pointer. -/
structure IoCtx where
  buffer : Option ℕ
  regBufIndex : ℤ
  submitTimeNs : UInt64 := 0
  ioSize : UInt64 := 0
  isWrite : Bool := false
deriving DecidableEq

/-- `aura_buf_t`: a registered buffer, or a pointer. -/
inductive AuraBuf
  | fixed (index : ℤ)
  | ptr (buffer : Option ℕ)
deriving DecidableEq

/-- A call of `aura_read` or `aura_write`. -/
structure WorkerIo where
  slot : ℕ
  fileIdx : ℕ
  offset : UInt64
  write : Bool
  abuf : AuraBuf
  sampled : Bool
deriving DecidableEq

/-- Where a worker is: at the test of the main or of the inner loop, in a call of the engine, at the
test of the drain, or done. -/
inductive WorkloadPc
  | head
  | fill
  | submitting (io : WorkerIo)
  | syncing (slot : ℕ)
  | polling
  | drain
  | waiting
  | finished
deriving DecidableEq

/-- A worker, with its context pool, its `inflight` counter, `tls_completion_ns`, and the slots of
the operations that the engine has accepted. -/
structure WorkerState where
  pc : WorkloadPc := .head
  gen : OffsetGen
  sampler : Sampler
  totalBytes : UInt64 := 0
  writesSinceFsync : ℤ := 0
  batchSubmitNs : UInt64 := 0
  pool : List ℕ
  slots : ℕ → IoCtx
  inflight : ℤ := 0
  tlsCompletionNs : UInt64 := 0
  clock : UInt64
  outstanding : List ℕ := []
  recorded : List (UInt64 × UInt64) := []

/-- The steps of a worker, with the loads of `running` and `ramping` and the readings of the clock
that they may need. -/
inductive WorkerStep
  | head (running : Bool)
  | fill (running : Bool) (calNow batchNow : UInt64)
  | accept
  | refuse
  | callback (slot : ℕ) (ramping : Bool) (now : UInt64)
  | pollReturn
  | drainTest
  | waitReturn

/-! ## Steps -/

namespace WorkerState

variable (w : WorkerConfig) (s : WorkerState)

/-- Has the worker submitted its share? -/
def sizeReached : Bool :=
  w.job.timeBased = 0 && w.perThreadSize > 0 && s.totalBytes ≥ w.perThreadSize

/-- The inner loop ends: the completion time is reset, and the engine polled. -/
def endBatch : WorkerState := { s with pc := .polling, tlsCompletionNs := 0 }

/-- `io_ctx_pool_put`, and `inflight` goes down. -/
def putBack (slot : ℕ) : WorkerState :=
  { s with pool := slot :: s.pool, inflight := s.inflight - 1 }

/-- One operation is prepared, with the slot taken from the pool. -/
def prepare (slot : ℕ) (rest : List ℕ) (calNow batchNow : UInt64) : WorkerState :=
  let ctx := s.slots slot
  let file := s.gen.selectFile w
  let offset := file.2.nextOffset w file.1
  let write := offset.2.decideWrite w
  let sampler := s.sampler.count calNow
  let sample := write.2.decideSample sampler.interval
  let batchSubmitNs :=
    if sample.1 ∧ s.batchSubmitNs = 0 then batchNow else s.batchSubmitNs
  let ctx : IoCtx := { ctx with
    submitTimeNs := if sample.1 then batchSubmitNs else 0
    ioSize := w.job.bs
    isWrite := write.1 }
  { s with
    pc := .submitting
      { slot, fileIdx := file.1, offset := offset.1, write := write.1
        abuf := if ctx.regBufIndex ≥ 0 then .fixed ctx.regBufIndex else .ptr ctx.buffer
        sampled := sample.1 }
    gen := sample.2
    sampler
    batchSubmitNs
    pool := rest
    slots := Function.update s.slots slot ctx
    inflight := s.inflight + 1
    clock := batchNow }

/-- The inner loop. -/
def fill (running : Bool) (calNow batchNow : UInt64) : WorkerState :=
  if s.inflight < w.effectiveDepth ∧ running ∧ ¬ s.sizeReached w then
    match s.pool with
    | slot :: rest => s.prepare w slot rest calNow batchNow
    | [] => s.endBatch
  else s.endBatch

/-- Is an `fsync` due after an operation? -/
def fsyncDue (io : WorkerIo) : Bool :=
  io.write && w.job.fsyncFreq > 0 && s.writesSinceFsync + 1 ≥ w.job.fsyncFreq

/-- The engine has accepted an operation. -/
def accepted (io : WorkerIo) (writesSinceFsync : ℤ) : WorkerState :=
  { s with
    pc := .fill
    totalBytes := s.totalBytes + w.job.bs
    writesSinceFsync
    outstanding := io.slot :: s.outstanding }

/-- A periodic `fsync` is begun, with the slot taken from the pool. -/
def beginFsync (io : WorkerIo) (slot : ℕ) (rest : List ℕ) : WorkerState :=
  { s with
    pc := .syncing slot
    pool := rest
    slots := Function.update s.slots slot { s.slots slot with
      buffer := none
      submitTimeNs := if io.sampled then s.batchSubmitNs else 0
      ioSize := 0
      isWrite := true }
    inflight := s.inflight + 1 }

/-- The engine has accepted an operation, and an `fsync` follows if it is due and there is a slot.
-/
def accept (io : WorkerIo) : WorkerState :=
  if s.fsyncDue w io then
    match s.pool with
    | slot :: rest => (s.accepted w io 0).beginFsync io slot rest
    | [] => s.accepted w io 0
  else if io.write ∧ w.job.fsyncFreq > 0 then s.accepted w io (s.writesSinceFsync + 1)
  else s.accepted w io s.writesSinceFsync

/-- The time that a callback takes for the completion. -/
def completionNs (now : UInt64) : UInt64 :=
  if s.tlsCompletionNs = 0 then now else s.tlsCompletionNs

/-- `io_callback` and `fsync_callback`, up to the counters that they update. -/
def callback (slot : ℕ) (ramping : Bool) (now : UInt64) : WorkerState :=
  let s' := { s.putBack slot with outstanding := s.outstanding.erase slot, clock := now }
  if ramping = false ∧ (s.slots slot).submitTimeNs ≠ 0 then
    { s' with
      tlsCompletionNs := s.completionNs now
      recorded := s.recorded ++ [((s.slots slot).submitTimeNs, s.completionNs now)] }
  else s'

/-- Is the worker in a call of the engine? -/
def inEngine : Bool :=
  match s.pc with
  | .submitting _ | .syncing _ | .polling | .waiting => true
  | _ => false

/-- One step of a worker. -/
def step : WorkerStep → Option WorkerState
  | .head running =>
      if s.pc = .head then
        if running ∧ ¬ s.sizeReached w then some { s with pc := .fill, batchSubmitNs := 0 }
        else some { s with pc := .drain }
      else none
  | .fill running calNow batchNow =>
      if s.pc = .fill ∧ s.clock ≤ calNow ∧ calNow ≤ batchNow then
        some (s.fill w running calNow batchNow)
      else none
  | .accept =>
      match s.pc with
      | .submitting io => some (s.accept w io)
      | .syncing slot => some { s with pc := .fill, outstanding := slot :: s.outstanding }
      | _ => none
  | .refuse =>
      match s.pc with
      | .submitting io => some (s.putBack io.slot).endBatch
      | .syncing slot => some { s.putBack slot with pc := .fill }
      | _ => none
  | .callback slot ramping now =>
      if s.inEngine ∧ slot ∈ s.outstanding ∧ s.clock ≤ now then some (s.callback slot ramping now)
      else none
  | .pollReturn => if s.pc = .polling then some { s with pc := .head } else none
  | .drainTest =>
      if s.pc = .drain then
        if s.inflight > 0 then some { s with pc := .waiting, tlsCompletionNs := 0 }
        else some { s with pc := .finished }
      else none
  | .waitReturn => if s.pc = .waiting then some { s with pc := .drain } else none

/-- A worker at its start. -/
def start (tvNsec now : UInt64) : WorkerState where
  gen := OffsetGen.start w tvNsec
  sampler := { calibNs := now }
  pool := (List.range w.effectiveDepth).reverse
  slots i :=
    { buffer := some i
      regBufIndex := if w.buffersRegistered then w.threadId * w.effectiveDepth + i else -1 }
  clock := now

end WorkerState

/-- The runs of a worker, from any time. -/
def workerSystem (w : WorkerConfig) : System WorkerState WorkerStep :=
  System.ofFn (fun s => ∃ tvNsec now, s = WorkerState.start w tvNsec now) fun s => s.step w

/-! ## What a step can be -/

namespace WorkerState

/-- The moves of a worker: what each step can be, with its guards. -/
inductive Moves (w : WorkerConfig) (s : WorkerState) : WorkerStep → WorkerState → Prop
  | begin (hpc : s.pc = .head) :
      Moves w s (.head true) { s with pc := .fill, batchSubmitNs := 0 }
  | stop (running : Bool) (hpc : s.pc = .head) : Moves w s (.head running) { s with pc := .drain }
  | prepare (slot : ℕ) (rest : List ℕ) (calNow batchNow : UInt64) (hpc : s.pc = .fill)
      (hpool : s.pool = slot :: rest) (hcal : s.clock ≤ calNow) (hbatch : calNow ≤ batchNow) :
      Moves w s (.fill true calNow batchNow) (s.prepare w slot rest calNow batchNow)
  | endBatch (running : Bool) (calNow batchNow : UInt64) (hpc : s.pc = .fill) :
      Moves w s (.fill running calNow batchNow) s.endBatch
  | accept (io : WorkerIo) (writes : ℤ) (hpc : s.pc = .submitting io)
      (hno : s.fsyncDue w io = true → s.pool = []) : Moves w s .accept (s.accepted w io writes)
  | beginFsync (io : WorkerIo) (slot : ℕ) (rest : List ℕ) (hpc : s.pc = .submitting io)
      (hdue : s.fsyncDue w io = true) (hpool : s.pool = slot :: rest) :
      Moves w s .accept ((s.accepted w io 0).beginFsync io slot rest)
  | acceptFsync (slot : ℕ) (hpc : s.pc = .syncing slot) :
      Moves w s .accept { s with pc := .fill, outstanding := slot :: s.outstanding }
  | refuse (io : WorkerIo) (hpc : s.pc = .submitting io) :
      Moves w s .refuse (s.putBack io.slot).endBatch
  | refuseFsync (slot : ℕ) (hpc : s.pc = .syncing slot) :
      Moves w s .refuse { s.putBack slot with pc := .fill }
  | callback (slot : ℕ) (ramping : Bool) (now : UInt64) (hpc : s.inEngine = true)
      (hslot : slot ∈ s.outstanding) (hnow : s.clock ≤ now) :
      Moves w s (.callback slot ramping now) (s.callback slot ramping now)
  | pollReturn (hpc : s.pc = .polling) : Moves w s .pollReturn { s with pc := .head }
  | wait (hpc : s.pc = .drain) (hinflight : s.inflight > 0) :
      Moves w s .drainTest { s with pc := .waiting, tlsCompletionNs := 0 }
  | finish (hpc : s.pc = .drain) (hinflight : ¬ s.inflight > 0) :
      Moves w s .drainTest { s with pc := .finished }
  | waitReturn (hpc : s.pc = .waiting) : Moves w s .waitReturn { s with pc := .drain }

variable {w : WorkerConfig} {s s' : WorkerState} {l : WorkerStep} {slot : ℕ} {ramping : Bool}
  {now : UInt64}

/-- Preparing an operation leaves the buffers where they are. -/
theorem prepare_buffer (rest : List ℕ) (calNow batchNow : UInt64) (i : ℕ) :
    ((s.prepare w slot rest calNow batchNow).slots i).buffer = (s.slots i).buffer := by
  unfold prepare
  dsimp only
  by_cases hi : i = slot
  · rw [hi, Function.update_self]
  · rw [Function.update_of_ne hi]

theorem callback_pc : (s.callback slot ramping now).pc = s.pc := by
  unfold callback
  split_ifs <;> rfl

theorem callback_gen : (s.callback slot ramping now).gen = s.gen := by
  unfold callback
  split_ifs <;> rfl

theorem callback_slots : (s.callback slot ramping now).slots = s.slots := by
  unfold callback
  split_ifs <;> rfl

theorem callback_pool : (s.callback slot ramping now).pool = slot :: s.pool := by
  unfold callback
  split_ifs <;> rfl

theorem callback_outstanding :
    (s.callback slot ramping now).outstanding = s.outstanding.erase slot := by
  unfold callback
  split_ifs <;> rfl

theorem callback_batchSubmitNs : (s.callback slot ramping now).batchSubmitNs = s.batchSubmitNs := by
  unfold callback
  split_ifs <;> rfl

theorem callback_clock : (s.callback slot ramping now).clock = now := by
  unfold callback
  split_ifs <;> rfl

/-- **Every step is one of the moves.** -/
theorem moves_of_step (h : s.step w l = some s') : Moves w s l s' := by
  cases l with
  | head running =>
      simp only [step] at h
      split_ifs at h with hpc hgo
      · obtain rfl := Option.some.inj h
        obtain rfl : running = true := hgo.1
        exact .begin hpc
      · obtain rfl := Option.some.inj h
        exact .stop running hpc
  | fill running calNow batchNow =>
      simp only [step] at h
      split_ifs at h with hguard
      obtain rfl := Option.some.inj h
      obtain ⟨hpc, hcal, hbatch⟩ := hguard
      unfold fill
      by_cases hgo : s.inflight < w.effectiveDepth ∧ running ∧ ¬ s.sizeReached w
      · rw [if_pos hgo]
        obtain rfl : running = true := hgo.2.1
        cases hpool : s.pool with
        | nil => exact .endBatch true calNow batchNow hpc
        | cons slot rest => exact .prepare slot rest calNow batchNow hpc hpool hcal hbatch
      · rw [if_neg hgo]
        exact .endBatch running calNow batchNow hpc
  | accept =>
      simp only [step] at h
      split at h
      · rename_i io hpc
        obtain rfl := Option.some.inj h
        unfold accept
        by_cases hdue : s.fsyncDue w io = true
        · rw [if_pos hdue]
          cases hpool : s.pool with
          | nil => exact .accept io 0 hpc fun _ => hpool
          | cons slot rest => exact .beginFsync io slot rest hpc hdue hpool
        · rw [if_neg hdue]
          split_ifs
          · exact .accept io _ hpc fun h => absurd h hdue
          · exact .accept io _ hpc fun h => absurd h hdue
      · rename_i slot hpc
        obtain rfl := Option.some.inj h
        exact .acceptFsync slot hpc
      · cases h
  | refuse =>
      simp only [step] at h
      split at h
      · rename_i io hpc
        obtain rfl := Option.some.inj h
        exact .refuse io hpc
      · rename_i slot hpc
        obtain rfl := Option.some.inj h
        exact .refuseFsync slot hpc
      · cases h
  | callback slot ramping now =>
      simp only [step] at h
      split_ifs at h with hguard
      obtain rfl := Option.some.inj h
      exact .callback slot ramping now hguard.1 hguard.2.1 hguard.2.2
  | pollReturn =>
      simp only [step] at h
      split_ifs at h with hpc
      obtain rfl := Option.some.inj h
      exact .pollReturn hpc
  | drainTest =>
      simp only [step] at h
      split_ifs at h with hpc hinflight
      · obtain rfl := Option.some.inj h
        exact .wait hpc hinflight
      · obtain rfl := Option.some.inj h
        exact .finish hpc hinflight
  | waitReturn =>
      simp only [step] at h
      split_ifs at h with hpc
      obtain rfl := Option.some.inj h
      exact .waitReturn hpc

end WorkerState

end Aura
