import Aura.Tree.Scan

/-!
# The operations of a batch

`process_dir_batch` with its openat, statx and close operations in flight, inside the loop of a
worker up to `aura_destroy` and the end of the tree. The engine of a worker, and what its operations
refer to, are its own, so this is one worker; `scan_tree` is one that pops the root and then
nothing.

* `BatchWorker.go` — what the worker does next.
* `BatchWorker.deliver` — a completion callback, run by a call of the engine. It is a fault if the
  context is gone.
* `BatchWorker.write` — the kernel writes the result of a statx. It is a fault if the node is gone.
-/

namespace Aura

open Lib

/-! ## Memory -/

/-- `tree_node_t` of an entry. -/
structure ChildNode where
  isDir : Bool := false
  statErr : ℤ := 0

/-- The node that is made for an entry. -/
def ChildNode.ofEntry (e : DirEntry) : ChildNode := { isDir := e.type = DirentType.directory }

/-- A directory of a batch: its node, with the numbers of its children, and its slot of `octxs`. -/
structure BatchDir where
  fullPath : List UInt8
  depth : ℕ
  fd : ℤ := -1
  children : List ℕ := []

/-- A directory that was popped, at the start of a batch. -/
def BatchDir.fresh (d : BatchDir) : BatchDir := { fullPath := d.fullPath, depth := d.depth }

/-- An operation in flight: the call of `process_dir_batch` it is from, and what it is for. -/
inductive BatchOp
  | openat (call i : ℕ)
  | statx (call node : ℕ)
  | close (call : ℕ)
deriving DecidableEq

/-- The place in `process_dir_batch`, with the index of the directory it is at, the children counted
so far, the nodes still to look at. -/
inductive BatchPhase
  | opening (i : ℕ)
  | drainOpen
  | reading (i totalChildren : ℕ)
  | submitStatx (todo : List ℕ)
  | drainStatx
  | closing (i : ℕ)
  | drainClose

/-- The stack frame of `process_dir_batch`. -/
structure BatchFrame where
  dirs : List BatchDir
  phase : BatchPhase := .opening 0
  /-- `obatch.remaining`. -/
  openRemaining : ℕ := 0
  /-- `cbatch.remaining`. -/
  closeRemaining : ℕ := 0

/-- The place of a worker: at the test of its loop, in `wq_pop_batch`, in `process_dir_batch`, in
`aura_destroy`, and after it. -/
inductive BatchPlace
  | loop
  | popping
  | batch (f : BatchFrame)
  | destroying
  | gone

/-- A worker. `statxBatch` is the context of statx operations on the heap, with the call that it is
from and `batch->remaining`. -/
structure BatchWorker where
  place : BatchPlace := .loop
  calls : ℕ := 0
  statxBatch : Option (ℕ × ℕ) := none
  nodes : ℕ → ChildNode := fun _ => {}
  next : ℕ := 0
  freed : List ℕ := []
  inFlight : List BatchOp := []
  interrupted : Bool := false
  fault : Bool := false

/-- What the calls of one step return: the directories popped, whether the visited set is new to the
directory, whether the engine takes the operation, the result of a synchronous open, the entries of
the directory, whether there is memory for their nodes and for the statx contexts, and the error and
the mode of a synchronous statx. -/
structure BatchAnswer where
  dirs : List BatchDir := []
  new : Bool := true
  accepted : Bool := true
  fd : ℤ := -1
  entries : List DirEntry := []
  alloc : DirEntry → Bool := fun _ => true
  memory : Bool := true
  error : ℤ := 0
  isDir : Bool := false

/-- What happens next. -/
inductive BatchLabel
  | go (a : BatchAnswer)
  | deliver (op : BatchOp) (result : ℤ) (isDir : Bool)
  | write (op : BatchOp)
  | interrupt

namespace BatchFrame

variable (f : BatchFrame)

/-- `octxs[i].fd`. -/
def setFd (i : ℕ) (fd : ℤ) : BatchFrame :=
  { f with dirs := f.dirs.modify i fun d => { d with fd } }

/-- The children of a directory. -/
def setChildren (i : ℕ) (children : List ℕ) : BatchFrame :=
  { f with dirs := f.dirs.modify i fun d => { d with children } }

/-- The children of all directories, in order. -/
def children : List ℕ := f.dirs.flatMap BatchDir.children

end BatchFrame

namespace BatchWorker

variable (config : ScanConfig) (s : BatchWorker) (a : BatchAnswer)

def inBatch (f : BatchFrame) : BatchWorker := { s with place := .batch f }

/-- What `statx` says about a node. -/
def setStat (n : ℕ) (error : ℤ) (isDir : Bool) : BatchWorker :=
  { s with
    nodes := Function.update s.nodes n
      (if error = 0 then { s.nodes n with isDir } else { s.nodes n with statErr := error }) }

/-- The first phase, for one directory. -/
def openDir (f : BatchFrame) (i : ℕ) (d : BatchDir) : BatchWorker :=
  let f := { f with phase := .opening (i + 1) }
  if config.beyond d.depth ∨ a.new = false then s.inBatch (f.setFd i (-1))
  else if a.accepted then
    { s with inFlight := .openat s.calls i :: s.inFlight }.inBatch
      { f.setFd i (-1) with openRemaining := f.openRemaining + 1 }
  else s.inBatch (f.setFd i (if 0 ≤ a.fd then a.fd else -1))

/-- The second phase, for one directory. -/
def readDir (f : BatchFrame) (i total : ℕ) (d : BatchDir) : BatchWorker :=
  if d.fd < 0 ∨ pathMax ≤ d.fullPath.length + 2 then
    s.inBatch { f with phase := .reading (i + 1) total }
  else
    let entries := (config.readEntries d.fullPath a.entries).filter a.alloc
    let children := d.children ++ List.range' s.next entries.length
    { s with
      nodes := fun n =>
        if s.next ≤ n then
          ((entries[n - s.next]?).map ChildNode.ofEntry).getD (s.nodes n)
        else s.nodes n
      next := s.next + entries.length }.inBatch
      { f.setChildren i children with phase := .reading (i + 1) (total + children.length) }

/-- The third phase begins. -/
def beginStatx (f : BatchFrame) (total : ℕ) : BatchWorker :=
  if 0 < total ∧ a.memory then
    { s with statxBatch := some (s.calls, total) }.inBatch
      { f with phase := .submitStatx f.children }
  else s.inBatch { f with phase := .closing 0 }

/-- `batch->remaining` goes down. -/
def statxDone : BatchWorker := { s with statxBatch := s.statxBatch.map fun b => (b.1, b.2 - 1) }

/-- The third phase, for one node. -/
def statxNode (f : BatchFrame) (n : ℕ) (todo : List ℕ) : BatchWorker :=
  let f := { f with phase := .submitStatx todo }
  if a.accepted then { s with inFlight := .statx s.calls n :: s.inFlight }.inBatch f
  else (s.statxDone.setStat n a.error a.isDir).inBatch f

/-- The nodes that `dirs_only` keeps. -/
def kept (d : BatchDir) : List ℕ :=
  if config.dirsOnly then d.children.filter fun n => (s.nodes n).isDir else d.children

/-- The nodes that `dirs_only` frees. -/
def pruned (d : BatchDir) : List ℕ :=
  if config.dirsOnly then d.children.filter fun n => !(s.nodes n).isDir else []

/-- The fourth phase, for one directory. -/
def closeDir (f : BatchFrame) (i : ℕ) (d : BatchDir) : BatchWorker :=
  let submitted : Bool := decide (0 ≤ d.fd) && a.accepted
  { s with
    inFlight := if submitted then .close s.calls :: s.inFlight else s.inFlight
    freed := s.freed ++ s.pruned config d }.inBatch
    { f.setChildren i (s.kept config d) with
      phase := .closing (i + 1)
      closeRemaining := if submitted then f.closeRemaining + 1 else f.closeRemaining }

/-- `batch->remaining`. -/
def statxRemaining : ℕ := (s.statxBatch.map Prod.snd).getD 0

/-- A step of `process_dir_batch`. The drain loops end when nothing remains, or with an interrupt.
-/
def batchStep (f : BatchFrame) : BatchWorker :=
  match f.phase with
  | .opening i =>
      match f.dirs[i]? with
      | some d => s.openDir config a f i d
      | none => s.inBatch { f with phase := .drainOpen }
  | .drainOpen =>
      if 0 < f.openRemaining ∧ s.interrupted = false then s
      else s.inBatch { f with phase := .reading 0 0 }
  | .reading i total =>
      match f.dirs[i]? with
      | some d => s.readDir config a f i total d
      | none => s.beginStatx a f total
  | .submitStatx (n :: todo) => s.statxNode a f n todo
  | .submitStatx [] => s.inBatch { f with phase := .drainStatx }
  | .drainStatx =>
      if 0 < s.statxRemaining ∧ s.interrupted = false then s
      else { s with statxBatch := none }.inBatch { f with phase := .closing 0 }
  | .closing i =>
      match f.dirs[i]? with
      | some d => s.closeDir config a f i d
      | none => s.inBatch { f with phase := .drainClose }
  | .drainClose =>
      if 0 < f.closeRemaining ∧ s.interrupted = false then s else { s with place := .loop }

/-- A step of the worker. After the workers, the main thread frees the tree. -/
def go : BatchWorker :=
  match s.place with
  | .loop => { s with place := if s.interrupted then .destroying else .popping }
  | .popping =>
      if a.dirs = [] then { s with place := .destroying }
      else { s with calls := s.calls + 1 }.inBatch
        { dirs := (a.dirs.take dirsPerBatch).map BatchDir.fresh }
  | .batch f => s.batchStep config a f
  | .destroying => { s with place := .gone }
  | .gone => { s with freed := List.range s.next }

/-! ## Completions -/

/-- Does the worker call the engine here? A submission polls too, when there is no free request. -/
def polls : Bool :=
  match s.place with
  | .batch f =>
      match f.phase with
      | .reading _ _ => false
      | _ => true
  | .destroying => true
  | _ => false

/-- A completion callback runs. -/
def deliver (op : BatchOp) (result : ℤ) (isDir : Bool) : BatchWorker :=
  let s := { s with inFlight := s.inFlight.erase op }
  match op, s.place, s.statxBatch with
  | .openat call i, .batch f, _ =>
      if call = s.calls then
        s.inBatch { f.setFd i result with openRemaining := f.openRemaining - 1 }
      else { s with fault := true }
  | .close call, .batch f, _ =>
      if call = s.calls then s.inBatch { f with closeRemaining := f.closeRemaining - 1 }
      else { s with fault := true }
  | .statx call n, _, some (call', _) =>
      if call = call' ∧ n ∉ s.freed then s.statxDone.setStat n (-result) isDir
      else { s with fault := true }
  | _, _, _ => { s with fault := true }

/-- The kernel writes the result of an operation. -/
def write : BatchOp → BatchWorker
  | .statx _ n => { s with fault := s.fault || decide (n ∈ s.freed) }
  | _ => s

/-- One step. -/
def step : BatchLabel → Option BatchWorker
  | .go a => some (s.go config a)
  | .deliver op result isDir =>
      if op ∈ s.inFlight ∧ s.polls then some (s.deliver op result isDir) else none
  | .write op => if op ∈ s.inFlight then some (s.write op) else none
  | .interrupt => some { s with interrupted := true }

end BatchWorker

/-- A worker of atree with an engine. -/
def batchSystem (config : ScanConfig) : System BatchWorker BatchLabel :=
  System.ofFn (fun s => s = {}) (fun s => s.step config)

end Aura
