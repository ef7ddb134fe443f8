import Mathlib.Data.Multiset.Count
import Mathlib.Data.Multiset.MapFold
import Mathlib.Data.UInt
import Mathlib.Logic.Function.Basic
import Mathlib.Tactic.SplitIfs
import Aura.Lib.ByteFile
import Aura.Lib.Pipeline

/-!
# The pipeline of aura-hash

The functions of the tool under their names: `submitNextRead`, `onReadComplete`, `drainCompleted`,
`finalizeTask`, `allTasksDone`. A digest context is the list of the bytes it was fed, and a file has
the list of the digests that were printed for it, each as the bytes that went into it. Reads in
flight are kept in a multiset until their callback runs, and what the kernel does with a read
happens right before its callback. `hashPipeline` puts the functions into the loop of
`Aura.Lib.Pipeline`.

A callback that finds no task in its slot dereferences a null pointer, and the program has
`crashed`. -/

namespace Aura

open Lib

/-- The options of the pipeline, with what `parse_args` checks. -/
structure HashConfig where
  chunkSize : ℕ
  pipelineDepth : ℕ
  chunk_pos : 0 < chunkSize
  depth_range : 1 ≤ pipelineDepth ∧ pipelineDepth ≤ 64

/-- `file_task_t`, with the inode its path leads to, and what was printed for it. `isOpen` says that
`fd` is not -1, `fed` is what `md_ctx` was updated with. -/
structure HashTask where
  file : ℕ
  fileSize : ℕ
  isOpen : Bool := false
  readOffset : ℕ := 0
  hashOffset : ℕ := 0
  activeOps : ℤ := 0
  readsDone : Bool := false
  done : Bool := false
  fed : List UInt8 := []
  bytesHashed : ℕ := 0
  digests : List (List UInt8) := []

/-- `buf_state_t`. -/
inductive ChunkState
  | free
  | reading
  | done
deriving DecidableEq

/-- `buf_slot_t`; the task is its place in the queue. -/
structure HashSlot where
  buf : ℕ → UInt8 := fun _ => 0
  offset : ℕ := 0
  bytes : ℕ := 0
  state : ChunkState := .free
  task : Option ℕ := none

/-- The bytes of a slot, as they are fed to a digest. -/
def HashSlot.data (slot : HashSlot) : List UInt8 := (List.range slot.bytes).map slot.buf

/-- A read in flight. -/
structure HashOp where
  slot : ℕ
  task : ℕ
  offset : ℕ
  len : ℕ
deriving DecidableEq

/-- `hash_ctx_t` with its queue and slots, the files, and the reads in flight. `current` is the
place of the next task needing reads, `totalFiles` where it is null. -/
structure HashCtx where
  config : HashConfig
  files : ℕ → ByteFile UInt8
  totalFiles : ℕ
  tasks : ℕ → HashTask
  current : ℕ := 0
  completedFiles : ℕ := 0
  bytesRead : ℕ := 0
  slots : ℕ → HashSlot := fun _ => {}
  activeOps : ℤ := 0
  error : ℤ := 0
  inFlight : Multiset HashOp := 0
  crashed : Bool := false

/-- What the calls of one step return: whether files open, and the `errno` of `aura_read`, 0 where
it succeeds. -/
structure HashAnswer where
  opens : ℕ → Bool := fun _ => true
  read : ℕ := 0

namespace HashCtx

/-- A change to one task. -/
def modifyTask (ctx : HashCtx) (t : ℕ) (f : HashTask → HashTask) : HashCtx :=
  { ctx with tasks := Function.update ctx.tasks t (f (ctx.tasks t)) }

/-- A change to one slot. -/
def modifySlot (ctx : HashCtx) (i : ℕ) (f : HashSlot → HashSlot) : HashCtx :=
  { ctx with slots := Function.update ctx.slots i (f (ctx.slots i)) }

/-- `if (ctx->error == 0) ctx->error = e`. -/
def setError (ctx : HashCtx) (e : ℤ) : HashCtx :=
  if ctx.error = 0 then { ctx with error := e } else ctx

/-- The slot is given back. -/
def freeSlot (ctx : HashCtx) (i : ℕ) : HashCtx :=
  ctx.modifySlot i fun slot => { slot with state := .free, task := none }

/-- The slot is given back, and its read no longer counts as active, neither for the pipeline nor
for the task. -/
def release (ctx : HashCtx) (i t : ℕ) : HashCtx :=
  { (ctx.freeSlot i).modifyTask t fun task => { task with activeOps := task.activeOps - 1 } with
    activeOps := ctx.activeOps - 1 }

/-! ## Hashing -/

/-- `finalize_task`: the digest of what was fed is printed. -/
def finalizeTask (ctx : HashCtx) (t : ℕ) : HashCtx :=
  ctx.modifyTask t fun task => { task with digests := task.digests ++ [task.fed] }

/-- A file is over: its digest is printed, its descriptor closed. -/
def closeTask (ctx : HashCtx) (t : ℕ) : HashCtx :=
  { (ctx.finalizeTask t).modifyTask t fun task => { task with isOpen := false, done := true } with
    completedFiles := ctx.completedFiles + 1 }

/-- The body of the loop in `drain_completed`: the slot is fed to the digest and given back. -/
def feed (ctx : HashCtx) (t i : ℕ) : HashCtx :=
  { (ctx.modifyTask t fun task =>
      { task with
        fed := task.fed ++ (ctx.slots i).data
        bytesHashed := task.bytesHashed + (ctx.slots i).bytes
        hashOffset := task.hashOffset + (ctx.slots i).bytes }).release i t with
    bytesRead := ctx.bytesRead + (ctx.slots i).bytes }

/-- Whether the slot holds the next bytes of the task. -/
def holdsNext (ctx : HashCtx) (t i : ℕ) : Bool :=
  decide ((ctx.slots i).state = .done ∧ (ctx.slots i).task = some t ∧
    (ctx.slots i).offset = (ctx.tasks t).hashOffset)

/-- The loop of `drain_completed`, from slot 0 on again after each slot fed. A slot that was fed is
free, so there are at most as many rounds as slots. -/
def drainLoop : (n : ℕ) → (ctx : HashCtx) → (t : ℕ) → HashCtx
  | 0, ctx, _ => ctx
  | n + 1, ctx, t =>
      match (List.range ctx.config.pipelineDepth).find? (ctx.holdsNext t) with
      | none => ctx
      | some i => drainLoop n (ctx.feed t i) t

/-- The end of `drain_completed`: a file that is fully hashed. -/
def finishTask (ctx : HashCtx) (t : ℕ) : HashCtx :=
  if (ctx.tasks t).readsDone = true ∧ (ctx.tasks t).activeOps = 0 ∧ (ctx.tasks t).done = false then
    ctx.closeTask t
  else ctx

/-- `drain_completed`. -/
def drainCompleted (ctx : HashCtx) (t : ℕ) : HashCtx :=
  (drainLoop ctx.config.pipelineDepth ctx t).finishTask t

/-- `on_read_complete`. -/
def onReadComplete (i : ℕ) (result : ℤ) (ctx : HashCtx) : HashCtx :=
  match (ctx.slots i).task with
  | none => { ctx with crashed := true }
  | some t =>
      if result ≤ 0 then (if result < 0 then ctx.setError result else ctx).release i t
      else (ctx.modifySlot i fun slot =>
        { slot with bytes := result.toNat, state := .done }).drainCompleted t

/-! ## Submission -/

/-- The length of the next chunk of a task. -/
def chunk (ctx : HashCtx) (t : ℕ) : ℕ :=
  let task := ctx.tasks t
  if task.fileSize < task.readOffset + ctx.config.chunkSize then task.fileSize - task.readOffset
  else ctx.config.chunkSize

/-- Whether it is the last one. -/
def lastChunk (ctx : HashCtx) (t : ℕ) : Bool :=
  decide ((ctx.tasks t).fileSize ≤ (ctx.tasks t).readOffset + ctx.chunk t)

/-- The slot and the task take the next chunk. -/
def takeChunk (ctx : HashCtx) (t i : ℕ) : HashCtx :=
  { (ctx.modifySlot i fun slot =>
      { slot with
        offset := (ctx.tasks t).readOffset
        bytes := ctx.chunk t
        state := .reading
        task := some t }).modifyTask t fun task =>
      { task with
        readOffset := task.readOffset + ctx.chunk t
        readsDone := task.readsDone || ctx.lastChunk t } with
    current := if ctx.lastChunk t then t + 1 else ctx.current }

/-- The end of `submit_next_read`: the next chunk of an open task is read. One that cannot be
submitted is taken back, but for the mark of the last one. -/
def submitRead (ans : HashAnswer) (ctx : HashCtx) (t i : ℕ) : HashCtx :=
  if ans.read = 0 then
    { (ctx.takeChunk t i).modifyTask t
        fun task => { task with activeOps := task.activeOps + 1 } with
      inFlight :=
        { slot := i, task := t, offset := (ctx.tasks t).readOffset, len := ctx.chunk t } ::ₘ
          ctx.inFlight
      activeOps := ctx.activeOps + 1 }
  else
    (((ctx.takeChunk t i).setError (-ans.read)).freeSlot i).modifyTask t fun task =>
      { task with readOffset := task.readOffset - ctx.chunk t }

/-- A task that cannot be opened is skipped. -/
def skipTask (ctx : HashCtx) (t : ℕ) : HashCtx :=
  { ctx.modifyTask t fun task => { task with readsDone := true, done := true } with
    completedFiles := ctx.completedFiles + 1
    current := t + 1 }

/-- A task without bytes is over as soon as it is open. -/
def finishEmpty (ctx : HashCtx) (t : ℕ) : HashCtx :=
  { (ctx.modifyTask t fun task => { task with readsDone := true }).closeTask t with
    current := t + 1 }

/-- `submit_next_read` from the task `t` on, with `n` tasks left in the queue. Each recursive call
of the source starts again from `current`, which is the next task then. -/
def submitFrom (ans : HashAnswer) (i : ℕ) : (n t : ℕ) → HashCtx → HashCtx
  | 0, _, ctx => ctx
  | n + 1, t, ctx =>
      let task := ctx.tasks t
      if task.readsDone = true ∨ task.done = true then submitFrom ans i n (t + 1) ctx
      else if task.isOpen then submitRead ans ctx t i
      else if ans.opens t = false then submitFrom ans i n (t + 1) (ctx.skipTask t)
      else
        let ctx := ctx.modifyTask t fun task => { task with isOpen := true }
        if task.fileSize = 0 then submitFrom ans i n (t + 1) (ctx.finishEmpty t)
        else submitRead ans ctx t i

/-- `submit_next_read`. -/
def submitNextRead (ans : HashAnswer) (i : ℕ) (ctx : HashCtx) : HashCtx :=
  submitFrom ans i (ctx.totalFiles - ctx.current) ctx.current ctx

/-- `all_tasks_done`. -/
def allTasksDone (ctx : HashCtx) : Bool :=
  (List.range ctx.totalFiles).all fun t => (ctx.tasks t).done

/-! ## The kernel -/

/-- The results the kernel may give: an error, or no more bytes than asked for and than there are.
-/
def permitted (ctx : HashCtx) (op : HashOp) (result : ℤ) : Bool :=
  decide (result ≤ op.len) &&
    decide (result ≤ ((ctx.files (ctx.tasks op.task).file).size - op.offset : ℕ))

/-- The kernel reads into the buffer of the slot. -/
def transfer (op : HashOp) (result : ℤ) (ctx : HashCtx) : HashCtx :=
  let file := ctx.files (ctx.tasks op.task).file
  ctx.modifySlot op.slot fun slot =>
    { slot with
      buf := fun p => if p < result.toNat then file.byte (op.offset + p) else slot.buf p }

/-- A read in flight completes with a permitted result. -/
def complete (op : HashOp) (result : ℤ) (ctx : HashCtx) : Option HashCtx :=
  if op ∈ ctx.inFlight ∧ ctx.permitted op result = true then
    some (onReadComplete op.slot result
      (transfer op result { ctx with inFlight := ctx.inFlight.erase op }))
  else none

/-- The context of a fresh task list; a source is the inode of a file and the size listed for it. -/
def start (config : HashConfig) (files : ℕ → ByteFile UInt8) (sources : List (ℕ × ℕ)) :
    HashCtx where
  config := config
  files := files
  totalFiles := sources.length
  tasks t :=
    let source := sources.getD t (0, 0)
    { file := source.1, fileSize := source.2 }

end HashCtx

/-- `hash_pipeline`. -/
def hashPipeline (config : HashConfig) : Pipeline HashCtx HashAnswer HashOp where
  depth := config.pipelineDepth
  slotFree ctx i := decide ((ctx.slots i).state = .free)
  allDone := HashCtx.allTasksDone
  error := HashCtx.error
  setError := HashCtx.setError
  activeOps := HashCtx.activeOps
  submit := HashCtx.submitNextRead
  complete _ := HashCtx.complete
  crashed := HashCtx.crashed

end Aura
