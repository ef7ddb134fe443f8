import Mathlib.Data.Multiset.Count
import Mathlib.Data.Multiset.MapFold
import Mathlib.Data.UInt
import Mathlib.Logic.Function.Basic
import Mathlib.Tactic.SplitIfs
import Aura.Lib.ByteFile
import Aura.Lib.Pipeline

/-!
# The copy pipeline of auracp

The functions of the tool under their names: `openTask`, `submitNextRead`, `onReadComplete`,
`onWriteComplete`, `onFsyncComplete`, `finishTask`, `allTasksDone`, and `queueFree` at the exit.
Files are identified by inode. The operations handed to the engine are kept in a multiset until
their callback runs, each with the slot that is its user data and the task whose descriptors it was
given; what the kernel does with an operation happens right before its callback. `copyPipeline` puts
the functions into the loop of `Aura.Lib.Pipeline`.

Descriptors count how often they were opened and closed. A callback that finds no task in its slot
dereferences a null pointer, and the program has `crashed`.
-/

namespace Aura

open Lib

/-- `SECTOR_SIZE`. -/
def sectorSize : ℕ := 512

/-- `round_up_sz` to a sector, a power of two. -/
def roundUpSz (x : ℕ) : ℕ := (x + (sectorSize - 1)) / sectorSize * sectorSize

/-- The options of the pipeline, with what `parse_args` checks. -/
structure CopyConfig where
  chunkSize : ℕ
  pipelineDepth : ℕ
  useDirect : Bool := false
  noFsync : Bool := false
  chunk_pos : 0 < chunkSize
  depth_range : 1 ≤ pipelineDepth ∧ pipelineDepth ≤ 64
  direct_aligned : useDirect = true → chunkSize % sectorSize = 0

/-- A file descriptor of a task, and how often it was opened and closed. -/
structure Fd where
  isOpen : Bool := false
  opened : ℕ := 0
  closed : ℕ := 0
deriving DecidableEq

/-- A successful `open`. -/
def Fd.open (fd : Fd) : Fd := { fd with isOpen := true, opened := fd.opened + 1 }

/-- `close`, after which the field is set to -1; on -1 it does nothing. -/
def Fd.close (fd : Fd) : Fd :=
  if fd.isOpen then { fd with isOpen := false, closed := fd.closed + 1 } else fd

/-- A source file as `build_task_list` finds it: the inodes its two paths lead to, and its size. -/
structure CopySource where
  src : ℕ
  dst : ℕ
  fileSize : ℕ

/-- `file_task_t`, with the inodes its paths lead to. -/
structure FileTask where
  src : ℕ
  dst : ℕ
  fileSize : ℕ
  srcFd : Fd := {}
  dstFd : Fd := {}
  readOffset : ℕ := 0
  bytesWritten : ℕ := 0
  activeOps : ℤ := 0
  readsDone : Bool := false
  done : Bool := false

/-- `buf_state_t`. -/
inductive BufState
  | free
  | reading
  | writing
  | fsyncing
deriving DecidableEq

/-- `buf_slot_t`; the task is its place in the queue. -/
structure BufSlot where
  buf : ℕ → UInt8 := fun _ => 0
  offset : ℕ := 0
  bytes : ℕ := 0
  dataBytes : ℕ := 0
  state : BufState := .free
  task : Option ℕ := none

/-- The calls the pipeline makes on the engine. -/
inductive CopyKind
  | read
  | write
  | fsync
deriving DecidableEq

/-- The state of a slot while such a call is in flight on it. -/
def CopyKind.bufState : CopyKind → BufState
  | .read => .reading
  | .write => .writing
  | .fsync => .fsyncing

/-- An operation in flight. -/
structure CopyOp where
  kind : CopyKind
  slot : ℕ
  task : ℕ
  offset : ℕ
  len : ℕ
deriving DecidableEq

/-- `copy_ctx_t` with its queue and slots, the files, and the operations in flight. `current` is the
place of the next task needing reads, `totalFiles` where it is null. -/
structure CopyCtx where
  config : CopyConfig
  files : ℕ → ByteFile UInt8
  totalFiles : ℕ
  tasks : ℕ → FileTask
  current : ℕ := 0
  completedFiles : ℕ := 0
  totalWritten : ℕ := 0
  slots : ℕ → BufSlot := fun _ => {}
  activeOps : ℤ := 0
  error : ℤ := 0
  inFlight : Multiset CopyOp := 0
  crashed : Bool := false

/-- What the calls of one step return: whether files open and destinations can be pre-allocated, and
the `errno` of the other calls, 0 where they succeed. -/
structure CopyAnswer where
  openSrc : ℕ → Bool := fun _ => true
  openDst : ℕ → Bool := fun _ => true
  fallocate : ℕ → Bool := fun _ => true
  ftruncate : ℕ → ℕ := fun _ => 0
  fsync : ℕ → ℕ := fun _ => 0
  read : ℕ := 0
  write : ℕ := 0

namespace CopyCtx

/-- A change to one task. -/
def modifyTask (ctx : CopyCtx) (t : ℕ) (f : FileTask → FileTask) : CopyCtx :=
  { ctx with tasks := Function.update ctx.tasks t (f (ctx.tasks t)) }

/-- A change to one slot. -/
def modifySlot (ctx : CopyCtx) (i : ℕ) (f : BufSlot → BufSlot) : CopyCtx :=
  { ctx with slots := Function.update ctx.slots i (f (ctx.slots i)) }

/-- A change to one file. -/
def modifyFile (ctx : CopyCtx) (inode : ℕ) (f : ByteFile UInt8 → ByteFile UInt8) : CopyCtx :=
  { ctx with files := Function.update ctx.files inode (f (ctx.files inode)) }

@[simp] theorem modifyTask_self (ctx : CopyCtx) (t : ℕ) (f : FileTask → FileTask) :
    (ctx.modifyTask t f).tasks t = f (ctx.tasks t) := Function.update_self _ _ _

theorem modifyTask_of_ne (ctx : CopyCtx) {t t' : ℕ} (f : FileTask → FileTask) (ht' : t' ≠ t) :
    (ctx.modifyTask t f).tasks t' = ctx.tasks t' := Function.update_of_ne ht' _ _

/-- `if (ctx->error == 0) ctx->error = e`. -/
def setError (ctx : CopyCtx) (e : ℤ) : CopyCtx :=
  if ctx.error = 0 then { ctx with error := e } else ctx

@[simp] theorem setError_tasks (ctx : CopyCtx) (e : ℤ) : (ctx.setError e).tasks = ctx.tasks := by
  unfold setError
  split_ifs <;> rfl

/-- The slot is given back. -/
def freeSlot (ctx : CopyCtx) (i : ℕ) : CopyCtx :=
  ctx.modifySlot i fun slot => { slot with state := .free, task := none }

/-- The last lines of a read or write callback: the slot is given back, and the operation no longer
counts as active, neither for the pipeline nor for the task. -/
def release (ctx : CopyCtx) (i t : ℕ) : CopyCtx :=
  { (ctx.freeSlot i).modifyTask t fun task => { task with activeOps := task.activeOps - 1 } with
    activeOps := ctx.activeOps - 1 }

/-- Both descriptors are closed and the task is done. -/
def closeTask (ctx : CopyCtx) (t : ℕ) : CopyCtx :=
  ctx.modifyTask t fun task =>
    { task with srcFd := task.srcFd.close, dstFd := task.dstFd.close, done := true }

@[simp] theorem closeTask_self (ctx : CopyCtx) (t : ℕ) :
    (ctx.closeTask t).tasks t =
      { ctx.tasks t with
        srcFd := (ctx.tasks t).srcFd.close
        dstFd := (ctx.tasks t).dstFd.close
        done := true } := Function.update_self _ _ _

@[simp] theorem release_self (ctx : CopyCtx) (i t : ℕ) :
    (ctx.release i t).tasks t =
      { ctx.tasks t with activeOps := (ctx.tasks t).activeOps - 1 } := Function.update_self _ _ _

/-- An operation is handed to the engine. -/
def enqueue (ctx : CopyCtx) (op : CopyOp) : CopyCtx :=
  { ctx with inFlight := op ::ₘ ctx.inFlight }

/-! ## Finishing a task -/

/-- The cut to the exact size under `O_DIRECT`. -/
def trimTask (ans : CopyAnswer) (ctx : CopyCtx) (t : ℕ) : CopyCtx :=
  let task := ctx.tasks t
  if ctx.config.useDirect = true ∧ task.dstFd.isOpen = true then
    if ans.ftruncate t = 0 then ctx.modifyFile task.dst fun file => file.truncate task.fileSize
    else ctx.setError (-ans.ftruncate t)
  else ctx

/-- The end of `finish_task`: an asynchronous fsync on the slot if one is wanted and can be
submitted, otherwise the descriptors are closed at once. -/
def syncTask (ans : CopyAnswer) (ctx : CopyCtx) (t i : ℕ) : CopyCtx :=
  if ctx.config.noFsync = false ∧ (ctx.tasks t).dstFd.isOpen = true then
    if ans.fsync t = 0 then
      { (ctx.modifySlot i fun slot => { slot with task := some t, state := .fsyncing }).enqueue
          { kind := .fsync, slot := i, task := t, offset := 0, len := 0 } with
        activeOps := ctx.activeOps + 1 }
    else (ctx.freeSlot i).closeTask t
  else ctx.closeTask t

/-- `finish_task`, but for the timestamps. -/
def finishTask (ans : CopyAnswer) (ctx : CopyCtx) (t i : ℕ) : CopyCtx :=
  syncTask ans (trimTask ans { ctx with completedFiles := ctx.completedFiles + 1 } t) t i

/-! ## Callbacks -/

/-- `on_read_complete`. -/
def onReadComplete (ans : CopyAnswer) (i : ℕ) (result : ℤ) (ctx : CopyCtx) : CopyCtx :=
  match (ctx.slots i).task with
  | none => { ctx with crashed := true }
  | some t =>
      if result ≤ 0 then
        (if result < 0 then ctx.setError result else ctx).release i t
      else
        let data := result.toNat
        let wlen := if ctx.config.useDirect then roundUpSz data else data
        let ctx := ctx.modifySlot i fun slot =>
          { slot with
            buf := fun p => if data ≤ p ∧ p < wlen then 0 else slot.buf p
            dataBytes := data
            bytes := wlen
            state := .writing }
        if ans.write = 0 then
          ctx.enqueue
            { kind := .write, slot := i, task := t, offset := (ctx.slots i).offset, len := wlen }
        else (ctx.setError (-ans.write)).release i t

/-- `on_write_complete`. -/
def onWriteComplete (ans : CopyAnswer) (i : ℕ) (result : ℤ) (ctx : CopyCtx) : CopyCtx :=
  match (ctx.slots i).task with
  | none => { ctx with crashed := true }
  | some t =>
      let slot := ctx.slots i
      let ctx :=
        if result < 0 then ctx.setError result
        else if result.toNat ≠ slot.bytes then ctx.setError (-5)
        else
          { ctx.modifyTask t fun task =>
              { task with bytesWritten := task.bytesWritten + slot.dataBytes } with
            totalWritten := ctx.totalWritten + slot.dataBytes }
      let ctx := ctx.release i t
      let task := ctx.tasks t
      if task.readsDone = true ∧ task.activeOps = 0 ∧ task.done = false then finishTask ans ctx t i
      else ctx

/-- `on_fsync_complete`. -/
def onFsyncComplete (i : ℕ) (result : ℤ) (ctx : CopyCtx) : CopyCtx :=
  match (ctx.slots i).task with
  | none => { ctx with crashed := true }
  | some t =>
      let ctx := if result < 0 then ctx.setError result else ctx
      { (ctx.closeTask t).freeSlot i with activeOps := ctx.activeOps - 1 }

/-! ## Submission -/

/-- `open_task`, without the mode bits: the result and the context after it. -/
def openTask (ans : CopyAnswer) (ctx : CopyCtx) (t : ℕ) : Bool × CopyCtx :=
  let task := ctx.tasks t
  if ans.openSrc t then
    let ctx := ctx.modifyTask t fun task => { task with srcFd := task.srcFd.open }
    if ans.openDst t then
      let ctx := (ctx.modifyTask t fun task => { task with dstFd := task.dstFd.open }).modifyFile
        task.dst fun _ => ByteFile.empty
      (true,
        if 0 < task.fileSize ∧ ans.fallocate t = true then
          ctx.modifyFile task.dst fun file => file.extend task.fileSize
        else ctx)
    else (false, ctx.modifyTask t fun task => { task with srcFd := task.srcFd.close })
  else (false, ctx)

/-- The length of the next chunk of a task. -/
def chunk (ctx : CopyCtx) (t : ℕ) : ℕ :=
  let task := ctx.tasks t
  if task.fileSize < task.readOffset + ctx.config.chunkSize then task.fileSize - task.readOffset
  else ctx.config.chunkSize

/-- The length of its read, a multiple of the sector size under `O_DIRECT`. -/
def ioLen (ctx : CopyCtx) (t : ℕ) : ℕ :=
  if ctx.config.useDirect then roundUpSz (ctx.chunk t) else ctx.chunk t

/-- Whether it is the last one. -/
def lastChunk (ctx : CopyCtx) (t : ℕ) : Bool :=
  decide ((ctx.tasks t).fileSize ≤ (ctx.tasks t).readOffset + ctx.chunk t)

/-- The slot and the task take the next chunk. -/
def takeChunk (ctx : CopyCtx) (t i : ℕ) : CopyCtx :=
  { (ctx.modifySlot i fun slot =>
      { slot with
        offset := (ctx.tasks t).readOffset
        bytes := ctx.ioLen t
        dataBytes := ctx.chunk t
        state := .reading
        task := some t }).modifyTask t fun task =>
      { task with
        readOffset := task.readOffset + ctx.chunk t
        readsDone := task.readsDone || ctx.lastChunk t } with
    current := if ctx.lastChunk t then t + 1 else ctx.current }

@[simp] theorem takeChunk_self (ctx : CopyCtx) (t i : ℕ) :
    (ctx.takeChunk t i).tasks t =
      { ctx.tasks t with
        readOffset := (ctx.tasks t).readOffset + ctx.chunk t
        readsDone := (ctx.tasks t).readsDone || ctx.lastChunk t } := by
  unfold takeChunk modifyTask
  exact Function.update_self _ _ _

/-- The end of `submit_next_read`: the next chunk of an open task is read. -/
def submitRead (ans : CopyAnswer) (ctx : CopyCtx) (t i : ℕ) : CopyCtx :=
  if ans.read = 0 then
    { ((ctx.takeChunk t i).modifyTask t fun task =>
        { task with activeOps := task.activeOps + 1 }).enqueue
        { kind := .read, slot := i, task := t, offset := (ctx.tasks t).readOffset
          len := ctx.ioLen t } with
      activeOps := ctx.activeOps + 1 }
  else
    (((ctx.takeChunk t i).setError (-ans.read)).freeSlot i).modifyTask t fun task =>
      { task with readOffset := task.readOffset - ctx.chunk t }

theorem submitRead_self {ans : CopyAnswer} (ctx : CopyCtx) (t i : ℕ) (hans : ans.read = 0) :
    (submitRead ans ctx t i).tasks t =
      { ctx.tasks t with
        readOffset := (ctx.tasks t).readOffset + ctx.chunk t
        activeOps := (ctx.tasks t).activeOps + 1
        readsDone := (ctx.tasks t).readsDone || ctx.lastChunk t } := by
  unfold submitRead
  rw [if_pos hans]
  refine (modifyTask_self (ctx.takeChunk t i) t fun task =>
    { task with activeOps := task.activeOps + 1 }).trans ?_
  rw [takeChunk_self]

/-- A read that cannot be submitted is taken back, but for the mark of the last one. -/
theorem submitRead_self_of_ne {ans : CopyAnswer} (ctx : CopyCtx) (t i : ℕ) (hans : ans.read ≠ 0) :
    (submitRead ans ctx t i).tasks t =
      { ctx.tasks t with readsDone := (ctx.tasks t).readsDone || ctx.lastChunk t } := by
  unfold submitRead
  rw [if_neg hans]
  refine (modifyTask_self (((ctx.takeChunk t i).setError _).freeSlot i) t _).trans ?_
  have htask : (((ctx.takeChunk t i).setError (-ans.read)).freeSlot i).tasks t =
      (ctx.takeChunk t i).tasks t := congrFun (setError_tasks _ _) t
  rw [htask, takeChunk_self]
  dsimp only
  rw [Nat.add_sub_cancel]

/-- A task that cannot be opened is skipped. -/
def skipTask (ctx : CopyCtx) (t : ℕ) : CopyCtx :=
  { ctx.modifyTask t fun task => { task with readsDone := true, done := true } with
    completedFiles := ctx.completedFiles + 1
    current := t + 1 }

@[simp] theorem skipTask_self (ctx : CopyCtx) (t : ℕ) :
    (ctx.skipTask t).tasks t = { ctx.tasks t with readsDone := true, done := true } :=
  modifyTask_self ctx t fun task => { task with readsDone := true, done := true }

/-- A task without bytes is finished at once, on the slot that was to take its read. -/
def finishEmpty (ans : CopyAnswer) (ctx : CopyCtx) (t i : ℕ) : CopyCtx :=
  { finishTask ans (ctx.modifyTask t fun task => { task with readsDone := true }) t i with
    current := t + 1 }

/-- `submit_next_read` from the task `t` on, with `n` tasks left in the queue. Each recursive call
of the source starts again from `current`, which is the next task then. -/
def submitFrom (ans : CopyAnswer) (i : ℕ) : (n t : ℕ) → CopyCtx → CopyCtx
  | 0, _, ctx => ctx
  | n + 1, t, ctx =>
      let task := ctx.tasks t
      if task.readsDone = true ∨ task.done = true then submitFrom ans i n (t + 1) ctx
      else if task.srcFd.isOpen then submitRead ans ctx t i
      else
        let opened := openTask ans ctx t
        if opened.1 = false then submitFrom ans i n (t + 1) (opened.2.skipTask t)
        else if task.fileSize = 0 then submitFrom ans i n (t + 1) (finishEmpty ans opened.2 t i)
        else submitRead ans opened.2 t i

/-- `submit_next_read`. -/
def submitNextRead (ans : CopyAnswer) (i : ℕ) (ctx : CopyCtx) : CopyCtx :=
  submitFrom ans i (ctx.totalFiles - ctx.current) ctx.current ctx

/-- `all_tasks_done`. -/
def allTasksDone (ctx : CopyCtx) : Bool :=
  (List.range ctx.totalFiles).all fun t => (ctx.tasks t).done

/-! ## The kernel -/

/-- The results the kernel may give: an error, or no more bytes than asked for and, for a read, than
there are. -/
def permitted (ctx : CopyCtx) (op : CopyOp) (result : ℤ) : Bool :=
  match op.kind with
  | .read =>
      decide (result ≤ op.len) &&
        decide (result ≤ ((ctx.files (ctx.tasks op.task).src).size - op.offset : ℕ))
  | .write => decide (result ≤ op.len)
  | .fsync => decide (result ≤ 0)

/-- What the kernel does for an operation before its callback runs. -/
def transfer (op : CopyOp) (result : ℤ) (ctx : CopyCtx) : CopyCtx :=
  match op.kind with
  | .read =>
      let file := ctx.files (ctx.tasks op.task).src
      ctx.modifySlot op.slot fun slot =>
        { slot with
          buf := fun p => if p < result.toNat then file.byte (op.offset + p) else slot.buf p }
  | .write =>
      ctx.modifyFile (ctx.tasks op.task).dst fun file =>
        file.write op.offset (ctx.slots op.slot).buf result.toNat
  | .fsync => ctx

/-- The callback of an operation. -/
def dispatch (ans : CopyAnswer) (op : CopyOp) (result : ℤ) (ctx : CopyCtx) : CopyCtx :=
  match op.kind with
  | .read => onReadComplete ans op.slot result ctx
  | .write => onWriteComplete ans op.slot result ctx
  | .fsync => onFsyncComplete op.slot result ctx

/-- An operation in flight completes with a permitted result. -/
def complete (ans : CopyAnswer) (op : CopyOp) (result : ℤ) (ctx : CopyCtx) : Option CopyCtx :=
  if op ∈ ctx.inFlight ∧ ctx.permitted op result = true then
    some (dispatch ans op result
      (transfer op result { ctx with inFlight := ctx.inFlight.erase op }))
  else none

/-- The context of a fresh task list, in the order of the sources. -/
def start (config : CopyConfig) (files : ℕ → ByteFile UInt8) (sources : List CopySource) :
    CopyCtx where
  config := config
  files := files
  totalFiles := sources.length
  tasks t :=
    let source := sources.getD t { src := 0, dst := 0, fileSize := 0 }
    { src := source.src, dst := source.dst, fileSize := source.fileSize }

/-- `queue_free`: descriptors that are still open are closed. -/
def queueFree (ctx : CopyCtx) : CopyCtx :=
  { ctx with
    tasks := fun t => if t < ctx.totalFiles then
      { ctx.tasks t with srcFd := (ctx.tasks t).srcFd.close, dstFd := (ctx.tasks t).dstFd.close }
    else ctx.tasks t }

end CopyCtx

/-- `copy_pipeline`. -/
def copyPipeline (config : CopyConfig) : Pipeline CopyCtx CopyAnswer CopyOp where
  depth := config.pipelineDepth
  slotFree ctx i := decide ((ctx.slots i).state = .free)
  allDone := CopyCtx.allTasksDone
  error := CopyCtx.error
  setError := CopyCtx.setError
  activeOps := CopyCtx.activeOps
  submit := CopyCtx.submitNextRead
  complete := CopyCtx.complete
  crashed := CopyCtx.crashed

/-- The exit status of `main` is success. -/
def CopySucceeds (s : PipelineState CopyCtx) : Prop :=
  s.pc = .returned ∧ s.core.error = 0 ∧ s.interrupted = false

end Aura
