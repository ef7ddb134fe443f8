import Aura.Tree.Visited

/-!
# The parallel scan of atree

`scan_tree`, `worker_fn`, `process_dir_batch` and the work queue under their names. A step of a
worker is a section under the lock of the queue or an atomic operation, with the local computation
that follows; in `process_dir_batch` it is a step of `visited_insert`. All system calls on files
succeed, and nobody interrupts the program.

* `DirTree` — the directories that are scanned, numbered so that a directory comes after the one it
  is in. In memory the node of a directory has its number.
* `ScanState`, `scanSystem` — the main thread and its workers, and their interleavings. The log of
  what was pushed and popped is no part of the program. -/

namespace Aura

open Lib

/-! ## Directories -/

/-- `d_type`, as far as it is looked at. -/
inductive DirentType
  | directory
  | unknown
  | other
deriving DecidableEq

/-- `struct linux_dirent64`, and what `statx` says about it: `dir` is the directory it is, if it is
one. -/
structure DirEntry where
  name : List UInt8
  type : DirentType
  dir : Option ℕ
deriving DecidableEq

/-- The slash and the dot of paths. -/
def slash : UInt8 := 47

@[inherit_doc slash] def dot : UInt8 := 46

/-- A finite directory tree, with `size` directories, of which 0 is the root. `fullPath` and `depth`
are what `process_dir_batch` gives to the nodes of children from that of their parent. -/
structure DirTree where
  size : ℕ
  entries : ℕ → List DirEntry
  devIno : ℕ → DevIno
  fullPath : ℕ → List UInt8
  depth : ℕ → ℕ
  root_lt : 0 < size
  root_depth : depth 0 = 0
  /-- What `getdents64` says is a directory, or nothing. -/
  type_dir : ∀ d, ∀ e ∈ entries d, e.dir ≠ none → e.type ≠ .other
  child : ∀ d, ∀ e ∈ entries d, ∀ d', e.dir = some d' → d < d' ∧ d' < size ∧
    fullPath d' = fullPath d ++ slash :: e.name ∧ depth d' = depth d + 1
  /-- Every directory is in one place. -/
  apart : ∀ d d' x, x ∈ (entries d).filterMap DirEntry.dir →
    x ∈ (entries d').filterMap DirEntry.dir → d = d'
  nodup : ∀ d, ((entries d).filterMap DirEntry.dir).Nodup
  /-- Distinct directories have distinct device and inode numbers. -/
  distinct : ∀ d d', d < size → d' < size → devIno d = devIno d' → d = d'

/-- The directories in a directory. -/
def DirTree.dirs (T : DirTree) (d : ℕ) : List ℕ := (T.entries d).filterMap DirEntry.dir

/-- `config_t`, as far as it matters to the scan, and the number of processors. -/
structure ScanConfig where
  /-- `none` is unlimited. -/
  maxDepth : Option ℕ := none
  dirsOnly : Bool := false
  showHidden : Bool := false
  ncpus : ℕ := 1

/-- `PATH_MAX`. -/
def pathMax : ℕ := 4096

/-- `DIRS_PER_BATCH`. -/
def dirsPerBatch : ℕ := 8

namespace ScanConfig

variable (config : ScanConfig)

/-- `config->max_depth >= 0 && depth >= config->max_depth`. -/
def beyond (depth : ℕ) : Bool := config.maxDepth.any fun limit => decide (limit ≤ depth)

/-- The entries that are not skipped for their name or their type. -/
def lists (e : DirEntry) : Bool :=
  !(decide (e.name = [dot]) || decide (e.name = [dot, dot])) &&
    (config.showHidden || decide (e.name.head? ≠ some dot)) &&
    (!config.dirsOnly || decide (e.type ≠ .other))

/-- The nodes made for the entries of a directory. -/
def readEntries (path : List UInt8) (entries : List DirEntry) : List DirEntry :=
  if pathMax ≤ path.length + 2 then []
  else entries.filter fun e => config.lists e && decide (path.length + 1 + e.name.length < pathMax)

/-- The end of `process_dir_batch`: with `dirs_only`, nodes that are no directories are freed. -/
def prune (children : List DirEntry) : List DirEntry :=
  if config.dirsOnly then children.filter fun e => e.dir.isSome else children

end ScanConfig

/-! ## State -/

/-- A run of `process_dir_batch` in its first phase: the directories it has been through, with
whether it has opened them, and those it has still to look at. -/
structure DirBatch where
  seen : List (ℕ × Bool) := []
  todo : List ℕ

/-- The place of a worker in `worker_fn`. -/
inductive WorkerPc
  /-- It was not created yet. -/
  | waiting
  /-- `aura_create_with_options`. -/
  | create
  /-- `wq_pop_batch`, and without an engine `wq_pop`. -/
  | pop
  | process (b : DirBatch)
  /-- The counter is raised by the number of child directories. -/
  | count (n : ℕ) (list : List ℕ)
  /-- `wq_push_batch`. -/
  | push (n : ℕ) (list : List ℕ)
  /-- The counter is lowered for `n` directories. -/
  | account (n : ℕ)
  /-- `wq_signal_done`, with `n` directories left to account for. -/
  | signal (n : ℕ)
  /-- It left its loop. -/
  | left

/-- A thread of `worker_fn`. -/
structure Worker where
  engine : Bool := false
  pc : WorkerPc := .waiting

/-- The place of the main thread in `scan_tree`. -/
inductive MainPc
  | start
  | root (b : DirBatch)
  /-- The queue is seeded with the child directories of the root. -/
  | seed (todo : List ℕ)
  /-- `wq_push`. -/
  | seedPush (d : ℕ) (todo : List ℕ)
  /-- The counter is lowered after `wq_push` failed. -/
  | seedUndo (d : ℕ) (todo : List ℕ)
  /-- `pthread_create` for the worker `i` of `num_workers`. -/
  | spawn (i numWorkers : ℕ)
  /-- `pthread_join`. -/
  | join (i numWorkers : ℕ)
  /-- It returned before it came to the threads. -/
  | stopped (code : ℤ)
  | returned (code : ℤ)

/-- The exit code of `scan_tree`, once it has returned. -/
def MainPc.exitCode : MainPc → Option ℤ
  | stopped code | returned code => some code
  | start | root _ | seed _ | seedPush _ _ | seedUndo _ _ | spawn _ _ | join _ _ => none

/-- The scan. `reads` counts how often the entries of a directory were read; `pushed` and `popped`
are the history of the queue, with who popped. -/
structure ScanState where
  visited : VisitedRun := {}
  children : ℕ → List DirEntry := fun _ => []
  reads : ℕ → ℕ := fun _ => 0
  queue : List ℕ := []
  pending : ℤ := 0
  done : Bool := false
  pushed : List ℕ := []
  popped : List (ℕ × ℕ) := []
  main : MainPc := .start
  worker : ℕ → Worker := fun _ => {}

/-- What the calls of one step return: whether there is an engine, memory for the queue item of a
directory, memory for the threads, a thread. -/
structure ScanAnswer where
  engine : Bool := true
  alloc : ℕ → Bool := fun _ => true
  threads : Bool := true
  thread : Bool := true

/-- Who takes a step. -/
inductive ScanLabel
  | main (a : ScanAnswer)
  | worker (w : ℕ) (a : ScanAnswer)

namespace ScanState

variable (T : DirTree) (config : ScanConfig) (s : ScanState)

/-! ## Batches -/

/-- One step of the first phase of `process_dir_batch`: the depth of the next directory is checked,
it is inserted in the visited set, or it is opened if it was new there. -/
def openNext (b : DirBatch) : ScanState × DirBatch :=
  match b.todo with
  | [] => (s, b)
  | d :: todo =>
      if config.beyond (T.depth d) then (s, { seen := b.seen ++ [(d, false)], todo })
      else match (s.visited.pc d).result with
        | some new => (s, { seen := b.seen ++ [(d, new)], todo })
        | none =>
            ({ s with visited := (s.visited.step T.size T.devIno d).getD s.visited }, b)

/-- The entries of an open directory are read and attached to its node. -/
def readDir (d : ℕ) : ScanState :=
  { s with
    children := Function.update s.children d
      (s.children d ++ config.readEntries (T.fullPath d) (T.entries d))
    reads := Function.update s.reads d (s.reads d + 1) }

/-- What the later phases do with one directory of the batch. -/
def finishDir (x : ℕ × Bool) : ScanState :=
  let s := if x.2 then s.readDir T config x.1 else s
  { s with children := Function.update s.children x.1 (config.prune (s.children x.1)) }

/-- The later phases of `process_dir_batch`. -/
def finishBatch (seen : List (ℕ × Bool)) : ScanState := seen.foldl (finishDir T config) s

/-- The directories among the children of a node. -/
def childDirs (d : ℕ) : List ℕ := (s.children d).filterMap DirEntry.dir

/-! ## Workers -/

/-- A worker goes on. -/
def workerGoes (w : ℕ) (pc : WorkerPc) : ScanState :=
  { s with worker := Function.update s.worker w { s.worker w with pc } }

/-- `wq_pop_batch`, and without an engine `wq_pop`. With an empty queue the worker leaves if the
queue is done, and otherwise waits for some time and looks again. -/
def pop (w : ℕ) : ScanState :=
  if s.queue = [] then if s.done then s.workerGoes w .left else s
  else
    let taken := s.queue.take (if (s.worker w).engine then dirsPerBatch else 1)
    { s with
      queue := s.queue.drop (if (s.worker w).engine then dirsPerBatch else 1)
      popped := s.popped ++ taken.map fun d => (w, d) }.workerGoes w
      (if (s.worker w).engine then .process { todo := taken } else .account taken.length)

/-- The child directories of a batch, once what it read is attached, as far as there is memory for
them. -/
def found (a : ScanAnswer) (seen : List (ℕ × Bool)) : List ℕ :=
  (seen.flatMap fun x => (s.finishBatch T config seen).childDirs x.1).filter a.alloc

/-- The end of a batch. -/
def collect (a : ScanAnswer) (w : ℕ) (seen : List (ℕ × Bool)) : ScanState :=
  let list := s.found T config a seen
  (s.finishBatch T config seen).workerGoes w
    (if list = [] then .account seen.length else .count seen.length list)

/-- A step of `worker_fn`. -/
def workerStep (a : ScanAnswer) (w : ℕ) : Option ScanState :=
  match (s.worker w).pc with
  | .waiting | .left => none
  | .create =>
      some { s with worker := Function.update s.worker w { engine := a.engine, pc := .pop } }
  | .pop => some (s.pop w)
  | .process b =>
      if b.todo = [] then some (s.collect T config a w b.seen)
      else some ((s.openNext T config b).1.workerGoes w (.process (s.openNext T config b).2))
  | .count n list =>
      some ({ s with pending := s.pending + list.length }.workerGoes w (.push n list))
  | .push n list =>
      some ({ s with queue := s.queue ++ list, pushed := s.pushed ++ list }.workerGoes w
        (.account n))
  | .account 0 => some (s.workerGoes w .pop)
  | .account (n + 1) =>
      some ({ s with pending := s.pending - 1 }.workerGoes w
        (if s.pending = 1 then .signal n else .account n))
  | .signal n => some ({ s with done := true }.workerGoes w (.account n))

/-! ## The main thread -/

/-- The number of workers that are to be created. -/
def numWorkers : ℕ := min (max config.ncpus 1) (s.childDirs 0).length

/-- A step of `scan_tree`. -/
def mainStep (a : ScanAnswer) : Option ScanState :=
  match s.main with
  | .start => some { s with main := if a.engine then .root { todo := [0] } else .stopped (-1) }
  | .root b =>
      if b.todo = [] then
        let s := s.finishBatch T config b.seen
        some { s with main := if s.childDirs 0 = [] then .stopped 0 else .seed (s.childDirs 0) }
      else some { (s.openNext T config b).1 with main := .root (s.openNext T config b).2 }
  | .seed (d :: todo) => some { s with pending := s.pending + 1, main := .seedPush d todo }
  | .seedPush d todo =>
      if a.alloc d then
        some { s with queue := s.queue ++ [d], pushed := s.pushed ++ [d], main := .seed todo }
      else some { s with main := .seedUndo d todo }
  | .seedUndo _ todo => some { s with pending := s.pending - 1, main := .seed todo }
  | .seed [] =>
      some { s with
        main :=
          if s.pending = 0 then .stopped 0
          else if a.threads then .spawn 0 (s.numWorkers config) else .stopped (-1) }
  | .spawn i n =>
      if i < n then
        if a.thread then
          some { s with
            worker := Function.update s.worker i { pc := .create }
            main := .spawn (i + 1) n }
        else some { s with main := if i = 0 then .returned (-1) else .join 0 i }
      else some { s with main := .join 0 n }
  | .join i n =>
      if i < n then
        match (s.worker i).pc with
        | .left => some { s with main := .join (i + 1) n }
        | _ => none
      else some { s with main := .returned 0 }
  | .stopped _ | .returned _ => none

/-- A step of the program. -/
def step (l : ScanLabel) : Option ScanState :=
  match l with
  | .main a => s.mainStep T config a
  | .worker w a => s.workerStep T config a w

end ScanState

/-- The scan of a directory tree. -/
def scanSystem (T : DirTree) (config : ScanConfig) : System ScanState ScanLabel :=
  System.ofFn (fun s => s = {}) (fun s => s.step T config)

end Aura
