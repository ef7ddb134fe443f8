import Mathlib.Data.Finset.Option
import Aura.Lib.Handout
import Aura.Lib.WorkPool
import Aura.Tree.Moves

/-!
# The work queue of atree

The scan is a pool of work (`Aura.Lib.WorkPool`) in which the main thread and the workers take part,
and a handout of directories (`Aura.Lib.Handout`).

* `ScanState.workerStep_pool`, `ScanState.mainStep_pool` — a step of the program is one of the pool,
  or changes nothing there;
* `ScanState.workerStep_handout`, `ScanState.mainStep_handout` — and one of the handout.
-/

namespace Aura

open Lib

/-! ## Views -/

/-- The directories of a batch. -/
def DirBatch.dirs (b : DirBatch) : List ℕ := b.seen.map Prod.fst ++ b.todo

namespace WorkerPc

/-- What a worker has in hand. -/
def hand : WorkerPc → Hand
  | process b => { held := b.seen.length + b.todo.length }
  | count n _ => { held := n }
  | push n list => { held := n, counted := list.length }
  | account n => { held := n }
  | signal n => { held := n, signals := true }
  | waiting | create | pop | left => {}

theorem hand_process (b : DirBatch) :
    (process b).hand = { held := b.seen.length + b.todo.length } := rfl

/-- The directories it is at. -/
def batch : WorkerPc → List ℕ
  | process b => b.dirs
  | waiting | create | pop | count _ _ | push _ _ | account _ | signal _ | left => []

/-- The directories it is about to push. -/
def fresh : WorkerPc → List ℕ
  | count _ list | push _ list => list
  | waiting | create | pop | process _ | account _ | signal _ | left => []

end WorkerPc

namespace MainPc

/-- What the main thread has in hand. -/
def hand : MainPc → Hand
  | seedPush _ _ | seedUndo _ _ => { counted := 1 }
  | start | root _ | seed _ | spawn _ _ | join _ _ | stopped _ | returned _ => {}

@[inherit_doc WorkerPc.batch] def batch : MainPc → List ℕ
  | start => [0]
  | root b => b.dirs
  | seed _ | seedPush _ _ | seedUndo _ _ | spawn _ _ | join _ _ | stopped _ | returned _ => []

@[inherit_doc WorkerPc.fresh] def fresh : MainPc → List ℕ
  | seed todo | seedUndo _ todo => todo
  | seedPush d todo => d :: todo
  | start | root _ | spawn _ _ | join _ _ | stopped _ | returned _ => []

/-- Whether it is still before the threads. -/
def isOpen : MainPc → Bool
  | start | root _ | seed _ | seedPush _ _ | seedUndo _ _ | stopped _ => true
  | spawn _ _ | join _ _ | returned _ => false

end MainPc

namespace ScanState

/-- The scan as a pool of work, in which the main thread is `none`. -/
def pool (s : ScanState) : WorkPool (Option ℕ) where
  isOpen := s.main.isOpen
  queued := s.queue.length
  pending := s.pending
  done := s.done
  hand
    | none => s.main.hand
    | some w => (s.worker w).pc.hand

/-- The scan as a handout of directories, of which the root is taken at once. -/
def handout (s : ScanState) : Handout (Option ℕ) ℕ where
  queue := s.queue
  taken := 0 :: s.popped.map Prod.snd
  batch
    | none => s.main.batch
    | some w => (s.worker w).pc.batch
  fresh
    | none => s.main.fresh
    | some w => (s.worker w).pc.fresh

variable {T : DirTree} {config : ScanConfig} {s s' : ScanState} {a : ScanAnswer} {w : ℕ}
  {b : DirBatch}

/-- A worker changes its place. -/
theorem pool_worker (x : Worker) :
    ({ s with worker := Function.update s.worker w x } : ScanState).pool =
      { s.pool with hand := Function.update s.pool.hand (some w) x.pc.hand } := by
  unfold pool
  congr 1
  funext i
  cases i with
  | none => rfl
  | some v =>
      by_cases hv : v = w
      · rw [hv, Function.update_self]
        dsimp only
        rw [Function.update_self]
      · rw [Function.update_of_ne fun heq => hv (Option.some.inj heq)]
        dsimp only
        rw [Function.update_of_ne hv]

theorem handout_worker (x : Worker) :
    ({ s with worker := Function.update s.worker w x } : ScanState).handout =
      { s.handout with
        batch := Function.update s.handout.batch (some w) x.pc.batch
        fresh := Function.update s.handout.fresh (some w) x.pc.fresh } := by
  have hupdate {f : Worker → List ℕ} {g : List ℕ} : (fun i : Option ℕ => match i with
      | none => g
      | some v => f (Function.update s.worker w x v)) =
      Function.update (fun i : Option ℕ => match i with
        | none => g
        | some v => f (s.worker v)) (some w) (f x) := by
    funext i
    cases i with
    | none => rfl
    | some v =>
        by_cases hv : v = w
        · rw [hv, Function.update_self]
          dsimp only
          rw [Function.update_self]
        · rw [Function.update_of_ne fun heq => hv (Option.some.inj heq)]
          dsimp only
          rw [Function.update_of_ne hv]
  unfold handout
  congr 1
  · exact hupdate (f := fun x => x.pc.batch)
  · exact hupdate (f := fun x => x.pc.fresh)

/-- Reading directories changes nothing but the nodes. -/
theorem finishBatch_eq (T : DirTree) (config : ScanConfig) (s : ScanState)
    (seen : List (ℕ × Bool)) :
    ∃ children reads, s.finishBatch T config seen = { s with children, reads } := by
  unfold finishBatch
  induction seen generalizing s with
  | nil => exact ⟨s.children, s.reads, rfl⟩
  | cons x seen ih =>
      obtain ⟨children, reads, heq⟩ := ih (s := s.finishDir T config x)
      refine ⟨children, reads, heq.trans ?_⟩
      unfold finishDir readDir
      split_ifs <;> rfl

/-- A step of the first phase changes nothing but the visited set, and keeps the directories. -/
theorem BatchMoves.same {b' : DirBatch} (h : BatchMoves T config s b s' b') :
    (∃ visited, s' = { s with visited }) ∧ b'.dirs = b.dirs ∧
      b'.seen.length + b'.todo.length = b.seen.length + b.todo.length := by
  have hmoved {d : ℕ} {todo : List ℕ} (r : Bool) (htodo : b.todo = d :: todo) :
      (b.seen ++ [(d, r)]).map Prod.fst ++ todo = b.seen.map Prod.fst ++ b.todo ∧
        (b.seen ++ [(d, r)]).length + todo.length = b.seen.length + b.todo.length := by
    rw [htodo, List.map_append, List.append_assoc, List.length_append, List.length_cons,
      List.length_cons, List.length_nil]
    exact ⟨rfl, by omega⟩
  cases h with
  | skip htodo | opened htodo => exact ⟨⟨s.visited, rfl⟩, hmoved _ htodo⟩
  | visit => exact ⟨⟨_, rfl⟩, rfl, rfl⟩
  | gone => exact ⟨⟨s.visited, rfl⟩, rfl, rfl⟩

/-! ## Steps of the pool -/

theorem pool_same {x : Worker} (hx : x.pc.hand = (s.worker w).pc.hand) :
    ({ s with worker := Function.update s.worker w x } : ScanState).pool = s.pool := by
  rw [pool_worker, hx]
  have hself : Function.update s.pool.hand (some w) (s.worker w).pc.hand = s.pool.hand :=
    Function.update_eq_self _ _
  rw [hself]

/-- The main thread changes its place. -/
theorem pool_main (m : MainPc) : ({ s with main := m } : ScanState).pool =
    { s.pool with isOpen := m.isOpen, hand := Function.update s.pool.hand none m.hand } := by
  unfold pool
  congr 1
  funext i
  cases i with
  | none => rw [Function.update_self]
  | some v => rw [Function.update_of_ne fun heq => by cases heq]

theorem pool_main_same {m m' : MainPc} (hm : s.main = m') (hopen : m.isOpen = m'.isOpen)
    (hhand : m.hand = m'.hand) : ({ s with main := m } : ScanState).pool = s.pool := by
  rw [pool_main, hopen, hhand, ← hm]
  have hself : Function.update s.pool.hand none s.main.hand = s.pool.hand :=
    Function.update_eq_self _ _
  rw [hself]
  rfl

/-- **A step of a worker** is one of the pool, or changes nothing there. -/
theorem workerStep_pool (hcounting : ∀ n list, (s.worker w).pc = .count n list → 0 < n)
    (hstarted : (s.worker w).pc ≠ .waiting → s.main.isOpen = false)
    (hmoves : WorkerMoves T config s w a s') :
    s'.pool = s.pool ∨ WorkPool.Step s.pool (some w) s'.pool := by
  have hhand {pc : WorkerPc} (hpc : (s.worker w).pc = pc) : s.pool.hand (some w) = pc.hand :=
    congrArg WorkerPc.hand hpc
  have hkeep {s₁ : ScanState} {pc : WorkerPc} (hpool : s₁.pool = s.pool)
      (hsame : pc.hand = s.pool.hand (some w)) : (s₁.workerGoes w pc).pool = s.pool := by
    refine (pool_same ?_).trans hpool
    exact hsame.trans (congrArg (fun p : WorkPool (Option ℕ) => p.hand (some w)) hpool.symm)
  cases hmoves with
  | create hpc => exact .inl (pool_same (by rw [hpc]; rfl))
  | wait => exact .inl rfl
  | leave hpc => exact .inl (hkeep rfl (hhand hpc).symm)
  | @pop ds rest hpc hengine hqueue hds =>
      right
      have hlen : s.queue.length = ds.length + rest.length := by rw [hqueue, List.length_append]
      have htake := WorkPool.Step.take (p := s.pool) (i := some w) (k := ds.length)
        (show ds.length ≤ s.queue.length by omega) (hhand hpc)
      unfold workerGoes
      rw [pool_worker]
      have hrest : s.pool.queued - ds.length = rest.length := by
        change s.queue.length - ds.length = rest.length
        omega
      have hnew : (WorkerPc.process { todo := ds }).hand = { held := ds.length } := by
        rw [WorkerPc.hand_process, List.length_nil, Nat.zero_add]
      rw [hrest] at htake
      rw [hnew]
      exact htake
  | @discard d rest hpc hengine hqueue =>
      right
      have hlen : s.queue.length = rest.length + 1 := by rw [hqueue, List.length_cons]
      have htake := WorkPool.Step.take (p := s.pool) (i := some w) (k := 1)
        (show 1 ≤ s.queue.length by omega) (hhand hpc)
      unfold workerGoes
      rw [pool_worker]
      have hrest : s.pool.queued - 1 = rest.length := by
        change s.queue.length - 1 = rest.length
        omega
      rw [hrest] at htake
      exact htake
  | @look b b' s₁ hpc hbatch =>
      obtain ⟨⟨visited, rfl⟩, -, hlen⟩ := hbatch.same
      refine .inl (hkeep rfl ?_)
      rw [hhand hpc, WorkerPc.hand_process, WorkerPc.hand_process, hlen]
  | @nothing b hpc htodo =>
      obtain ⟨children, reads, heq⟩ := finishBatch_eq T config s b.seen
      rw [heq]
      refine .inl (hkeep rfl ?_)
      rw [hhand hpc, WorkerPc.hand_process, htodo, List.length_nil, Nat.add_zero]
      rfl
  | @collect b hpc htodo =>
      obtain ⟨children, reads, heq⟩ := finishBatch_eq T config s b.seen
      rw [heq]
      refine .inl (hkeep rfl ?_)
      rw [hhand hpc, WorkerPc.hand_process, htodo, List.length_nil, Nat.add_zero]
      rfl
  | @count n list hpc =>
      have hcount := WorkPool.Step.count (p := s.pool) (i := some w) (k := list.length)
        (.inl (by rw [hhand hpc]; exact hcounting n list hpc))
      rw [hhand hpc] at hcount
      right
      unfold workerGoes
      rw [pool_worker]
      exact hcount
  | @push n list hpc =>
      have hpush := WorkPool.Step.push (p := s.pool) (i := some w) (k := list.length)
        (by rw [hhand hpc]; rfl)
      rw [hhand hpc] at hpush
      right
      unfold workerGoes
      rw [pool_worker]
      have hlen : (s.queue ++ list).length = s.queue.length + list.length := List.length_append
      unfold pool
      dsimp only
      rw [hlen]
      exact hpush
  | again hpc => exact .inl (hkeep rfl (hhand hpc).symm)
  | @account n hpc hpending =>
      have haccount := WorkPool.Step.account (p := s.pool) (i := some w) (hhand hpc)
        (hstarted (by rw [hpc]; exact fun heq => by cases heq))
      rw [decide_eq_false (show s.pool.pending ≠ 1 from hpending)] at haccount
      right
      unfold workerGoes
      rw [pool_worker]
      exact haccount
  | @last n hpc hpending =>
      have haccount := WorkPool.Step.account (p := s.pool) (i := some w) (hhand hpc)
        (hstarted (by rw [hpc]; exact fun heq => by cases heq))
      rw [decide_eq_true (show s.pool.pending = 1 from hpending)] at haccount
      right
      unfold workerGoes
      rw [pool_worker]
      exact haccount
  | signal hpc =>
      right
      unfold workerGoes
      rw [pool_worker]
      exact WorkPool.Step.signal (p := s.pool) (i := some w) (hhand hpc)

/-- **A step of the main thread** is one of the pool, or changes nothing there. -/
theorem mainStep_pool (hspawn : ∀ i n, s.main = .spawn i n → (s.worker i).pc = .waiting)
    (hmoves : MainMoves T config s a s') :
    s'.pool = s.pool ∨ WorkPool.Step s.pool none s'.pool := by
  have hhand {m : MainPc} (hm : s.main = m) : s.pool.hand none = m.hand := congrArg MainPc.hand hm
  have hopen {m : MainPc} (hm : s.main = m) : s.pool.isOpen = m.isOpen := congrArg MainPc.isOpen hm
  cases hmoves with
  | start hm | noEngine hm | noMemory hm | empty hm | noThreads hm | noThread hm | fewer hm
  | spawned hm | join hm | finish hm => exact .inl (pool_main_same hm rfl rfl)
  | @look b b' s₁ hm hbatch =>
      obtain ⟨⟨visited, rfl⟩, -, -⟩ := hbatch.same
      exact .inl (pool_main_same (s := { s with visited }) hm rfl rfl)
  | @nothing b hm =>
      obtain ⟨children, reads, heq⟩ := finishBatch_eq T config s b.seen
      rw [heq]
      exact .inl (pool_main_same (s := { s with children, reads }) hm rfl rfl)
  | @collect b hm =>
      obtain ⟨children, reads, heq⟩ := finishBatch_eq T config s b.seen
      rw [heq]
      exact .inl (pool_main_same (s := { s with children, reads }) hm rfl rfl)
  | @count d todo hm =>
      have hcount := WorkPool.Step.count (p := s.pool) (i := none) (k := 1) (.inr (hopen hm))
      rw [hhand hm] at hcount
      right
      have hmain := pool_main (s := { s with pending := s.pending + 1 }) (.seedPush d todo)
      rw [hmain, show (MainPc.seedPush d todo).isOpen = s.pool.isOpen from (hopen hm).symm]
      exact hcount
  | @push d todo hm =>
      have hpush := WorkPool.Step.push (p := s.pool) (i := none) (k := 1) (by rw [hhand hm]; rfl)
      rw [hhand hm] at hpush
      right
      have hmain := pool_main (s := { s with queue := s.queue ++ [d], pushed := s.pushed ++ [d] })
        (.seed todo)
      have hlen : (s.queue ++ [d]).length = s.queue.length + 1 := List.length_append
      rw [hmain, show (MainPc.seed todo).isOpen = s.pool.isOpen from (hopen hm).symm]
      unfold pool
      dsimp only
      rw [hlen]
      exact hpush
  | @undo d todo hm =>
      have hundo := WorkPool.Step.undo (p := s.pool) (i := none) (k := 1) (by rw [hhand hm]; rfl)
        (hopen hm)
      rw [hhand hm] at hundo
      right
      have hmain := pool_main (s := { s with pending := s.pending - 1 }) (.seed todo)
      rw [hmain, show (MainPc.seed todo).isOpen = s.pool.isOpen from (hopen hm).symm]
      exact hundo
  | seeded hm hpending =>
      right
      have hclose := WorkPool.Step.close (p := s.pool) (i := none) (hopen hm) hpending
      have hself : Function.update s.pool.hand none {} = s.pool.hand := by
        rw [show ({} : Hand) = s.pool.hand none from (hhand hm).symm, Function.update_eq_self]
      have hmain := pool_main (s := s) (.spawn 0 (s.numWorkers config))
      rw [show (MainPc.spawn 0 (s.numWorkers config)).hand = {} from rfl, hself] at hmain
      rw [hmain]
      exact hclose
  | @spawn i n hm hi =>
      have hworker : ({ s with worker := Function.update s.worker i { pc := .create } } :
          ScanState).pool = s.pool := pool_same (by rw [hspawn i n hm]; rfl)
      refine .inl ((pool_main_same (s := { s with
        worker := Function.update s.worker i { pc := .create } }) hm rfl rfl).trans hworker)

/-! ## Nodes -/

/-- What the later phases do to the node of one directory. -/
theorem finishDir_self (T : DirTree) (config : ScanConfig) (s : ScanState) (x : ℕ × Bool) :
    (s.finishDir T config x).children x.1 = config.prune (if x.2 then
      s.children x.1 ++ config.readEntries (T.fullPath x.1) (T.entries x.1) else s.children x.1) ∧
      (s.finishDir T config x).reads x.1 = s.reads x.1 + if x.2 then 1 else 0 := by
  unfold finishDir readDir
  split_ifs
  · refine ⟨?_, Function.update_self _ _ _⟩
    dsimp only
    rw [Function.update_self, Function.update_self]
  · exact ⟨Function.update_self _ _ _, rfl⟩

theorem finishDir_of_ne (T : DirTree) (config : ScanConfig) (s : ScanState) {x : ℕ × Bool}
    {d : ℕ} (hd : d ≠ x.1) :
    (s.finishDir T config x).children d = s.children d ∧
      (s.finishDir T config x).reads d = s.reads d := by
  unfold finishDir readDir
  dsimp only
  rw [Function.update_of_ne hd]
  split_ifs
  · exact ⟨Function.update_of_ne hd _ _, Function.update_of_ne hd _ _⟩
  · exact ⟨rfl, rfl⟩

theorem finishBatch_of_notMem (T : DirTree) (config : ScanConfig) (s : ScanState)
    {seen : List (ℕ × Bool)} {d : ℕ} (hd : d ∉ seen.map Prod.fst) :
    (s.finishBatch T config seen).children d = s.children d ∧
      (s.finishBatch T config seen).reads d = s.reads d := by
  unfold finishBatch
  induction seen generalizing s with
  | nil => exact ⟨rfl, rfl⟩
  | cons x seen ih =>
      rw [List.map_cons, List.mem_cons, not_or] at hd
      obtain ⟨hchildren, hreads⟩ := ih (s := s.finishDir T config x) hd.2
      obtain ⟨hchildren', hreads'⟩ := finishDir_of_ne T config s hd.1
      exact ⟨hchildren.trans hchildren', hreads.trans hreads'⟩

/-- **What a batch does to the node of one of its directories.** -/
theorem finishBatch_of_mem (T : DirTree) (config : ScanConfig) (s : ScanState)
    {seen : List (ℕ × Bool)} {d : ℕ} {r : Bool} (hnodup : (seen.map Prod.fst).Nodup)
    (hd : (d, r) ∈ seen) :
    (s.finishBatch T config seen).children d = config.prune (if r then
      s.children d ++ config.readEntries (T.fullPath d) (T.entries d) else s.children d) ∧
      (s.finishBatch T config seen).reads d = s.reads d + if r then 1 else 0 := by
  induction seen generalizing s with
  | nil => cases hd
  | cons x seen ih =>
      rw [List.map_cons, List.nodup_cons] at hnodup
      rcases List.mem_cons.mp hd with rfl | hd'
      · obtain ⟨hchildren, hreads⟩ := finishBatch_of_notMem T config
          (s.finishDir T config (d, r)) hnodup.1
        obtain ⟨hchildren', hreads'⟩ := finishDir_self T config s (d, r)
        exact ⟨hchildren.trans hchildren', hreads.trans hreads'⟩
      · have hne : d ≠ x.1 := by
          rintro rfl
          exact hnodup.1 (List.mem_map.mpr ⟨_, hd', rfl⟩)
        obtain ⟨hchildren, hreads⟩ := ih (s := s.finishDir T config x) hnodup.2 hd'
        obtain ⟨hchildren', hreads'⟩ := finishDir_of_ne T config s hne
        rw [hchildren'] at hchildren
        rw [hreads'] at hreads
        exact ⟨hchildren, hreads⟩

/-- **The nodes**: the children of a node are entries of its directory, each at most once, and a
directory that nobody is through with has none yet. -/
structure Attached (T : DirTree) (s : ScanState) : Prop where
  entries : ∀ d, (s.children d).Sublist (T.entries d)
  unread : ∀ d, ¬ s.handout.Collected d → s.children d = []

theorem readEntries_sublist (path : List UInt8) (entries : List DirEntry) :
    (config.readEntries path entries).Sublist entries := by
  unfold ScanConfig.readEntries
  split_ifs
  · exact List.nil_sublist _
  · exact List.filter_sublist

theorem prune_sublist (children : List DirEntry) : (config.prune children).Sublist children := by
  unfold ScanConfig.prune
  split_ifs
  · exact List.filter_sublist
  · exact List.Sublist.refl _

/-- After a batch that was not read before. -/
theorem finishBatch_sublist {seen : List (ℕ × Bool)}
    (hentries : ∀ d, (s.children d).Sublist (T.entries d))
    (hnodup : (seen.map Prod.fst).Nodup) (hempty : ∀ d ∈ seen.map Prod.fst, s.children d = [])
    (d : ℕ) :
    ((s.finishBatch T config seen).children d).Sublist (T.entries d) := by
  by_cases hd : d ∈ seen.map Prod.fst
  · obtain ⟨⟨d', r⟩, hmem, rfl⟩ := List.mem_map.mp hd
    rw [(finishBatch_of_mem T config s hnodup hmem).1]
    refine (prune_sublist _).trans ?_
    rw [hempty d' hd]
    split_ifs
    · exact readEntries_sublist _ _
    · exact List.nil_sublist _
  · rw [(finishBatch_of_notMem T config s hd).1]
    exact hentries d

/-- The directories of a batch are parts of what was in it, each once. -/
theorem found_nodup {seen : List (ℕ × Bool)} (hentries : ∀ d, (s.children d).Sublist (T.entries d))
    (hnodup : (seen.map Prod.fst).Nodup) (hempty : ∀ d ∈ seen.map Prod.fst, s.children d = []) :
    (s.found T config a seen).Nodup ∧
      ∀ x ∈ s.found T config a seen, ∃ y ∈ seen.map Prod.fst, x ∈ T.dirs y := by
  have hdirs (d : ℕ) : ((s.finishBatch T config seen).childDirs d).Sublist (T.dirs d) :=
    (finishBatch_sublist hentries hnodup hempty d).filterMap _
  unfold found
  refine ⟨List.Nodup.filter _ (List.nodup_flatMap.mpr ⟨fun x _ =>
    (T.nodup x.1).sublist (hdirs x.1), ?_⟩),
    fun x hx => ?_⟩
  · refine (List.pairwise_map.mp hnodup).imp fun {x y} hne => ?_
    refine List.disjoint_left.mpr fun z hx hy => hne ?_
    exact T.apart x.1 y.1 z ((hdirs x.1).subset hx) ((hdirs y.1).subset hy)
  · obtain ⟨y, hy, hxy⟩ := List.mem_flatMap.mp (List.mem_filter.mp hx).1
    exact ⟨y.1, List.mem_map_of_mem hy, (hdirs y.1).subset hxy⟩

/-! ## Steps of the handout -/

theorem handout_same {x : Worker} (hbatch : x.pc.batch = (s.worker w).pc.batch)
    (hfresh : x.pc.fresh = (s.worker w).pc.fresh) :
    ({ s with worker := Function.update s.worker w x } : ScanState).handout = s.handout := by
  have hself : Function.update s.handout.batch (some w) (s.worker w).pc.batch = s.handout.batch :=
    Function.update_eq_self _ _
  have hself' : Function.update s.handout.fresh (some w) (s.worker w).pc.fresh = s.handout.fresh :=
    Function.update_eq_self _ _
  rw [handout_worker, hbatch, hfresh, hself, hself']

/-- The main thread changes its place. -/
theorem handout_main (m : MainPc) : ({ s with main := m } : ScanState).handout =
    { s.handout with
      batch := Function.update s.handout.batch none m.batch
      fresh := Function.update s.handout.fresh none m.fresh } := by
  unfold handout
  congr 1
  · funext i
    cases i with
    | none => rw [Function.update_self]
    | some v => rw [Function.update_of_ne fun heq => by cases heq]
  · funext i
    cases i with
    | none => rw [Function.update_self]
    | some v => rw [Function.update_of_ne fun heq => by cases heq]

theorem handout_main_same {m m' : MainPc} (hm : s.main = m') (hbatch : m.batch = m'.batch)
    (hfresh : m.fresh = m'.fresh) : ({ s with main := m } : ScanState).handout = s.handout := by
  have hself : Function.update s.handout.batch none s.main.batch = s.handout.batch :=
    Function.update_eq_self _ _
  have hself' : Function.update s.handout.fresh none s.main.fresh = s.handout.fresh :=
    Function.update_eq_self _ _
  rw [handout_main, hbatch, hfresh, ← hm, hself, hself']

/-- A worker goes on, and the queue may have changed. -/
theorem handout_goes (s₁ : ScanState) (pc : WorkerPc) (hmain : s₁.main = s.main)
    (hworker : s₁.worker = s.worker) : (s₁.workerGoes w pc).handout =
      { queue := s₁.queue
        taken := 0 :: s₁.popped.map Prod.snd
        batch := Function.update s.handout.batch (some w) pc.batch
        fresh := Function.update s.handout.fresh (some w) pc.fresh } := by
  unfold workerGoes
  rw [handout_worker]
  unfold handout
  rw [hmain, hworker]

/-- **A step of a worker** is one of the handout, or changes nothing there. -/
theorem workerStep_handout (hattached : Attached T s) (horderly : s.handout.Orderly T.dirs 0)
    (hmoves : WorkerMoves T config s w a s') :
    s'.handout = s.handout ∨ Handout.Step T.dirs s.handout (some w) s'.handout := by
  have hbatch {pc : WorkerPc} (hpc : (s.worker w).pc = pc) :
      s.handout.batch (some w) = pc.batch := congrArg WorkerPc.batch hpc
  have hfresh {pc : WorkerPc} (hpc : (s.worker w).pc = pc) :
      s.handout.fresh (some w) = pc.fresh := congrArg WorkerPc.fresh hpc
  have hkeep {s₁ : ScanState} {pc pc' : WorkerPc} (hhandout : s₁.handout = s.handout)
      (hpc : (s.worker w).pc = pc) (hb : pc'.batch = pc.batch) (hf : pc'.fresh = pc.fresh) :
      (s₁.workerGoes w pc').handout = s.handout := by
    refine (handout_same ?_ ?_).trans hhandout
    · exact (hb.trans (hbatch hpc).symm).trans
        (congrArg (fun p : Handout (Option ℕ) ℕ => p.batch (some w)) hhandout.symm)
    · exact (hf.trans (hfresh hpc).symm).trans
        (congrArg (fun p : Handout (Option ℕ) ℕ => p.fresh (some w)) hhandout.symm)
  have hpopped (ds : List ℕ) : 0 :: (s.popped ++ ds.map fun d => (w, d)).map Prod.snd =
      s.handout.taken ++ ds := by
    have hmap : (ds.map fun d => (w, d)).map Prod.snd = ds := by
      rw [List.map_map]
      exact List.map_id _
    rw [List.map_append, hmap]
    rfl
  have hsame {pc : WorkerPc} (hpc : (s.worker w).pc = pc) (hnone : pc.fresh = []) :
      Function.update s.handout.fresh (some w) [] = s.handout.fresh := by
    rw [← hnone, ← hfresh hpc, Function.update_eq_self]
  -- what a batch finds
  have hbatchFound {b : DirBatch} (hpc : (s.worker w).pc = .process b) (htodo : b.todo = []) :
      (s.found T config a b.seen).Nodup ∧ ∀ x ∈ s.found T config a b.seen,
        ∃ y ∈ s.handout.batch (some w), x ∈ T.dirs y := by
    have hdirs : s.handout.batch (some w) = b.seen.map Prod.fst := by
      rw [hbatch hpc]
      change b.seen.map Prod.fst ++ b.todo = _
      rw [htodo, List.append_nil]
    have hnodup := horderly.batchNodup (some w)
    rw [hdirs] at hnodup ⊢
    refine found_nodup hattached.entries hnodup fun d hd => hattached.unread d fun hcollected => ?_
    exact hcollected.2 (some w) (hdirs ▸ hd)
  cases hmoves with
  | create hpc => exact .inl (handout_same (by rw [hpc]; rfl) (by rw [hpc]; rfl))
  | wait => exact .inl rfl
  | leave hpc | again hpc => exact .inl (hkeep rfl hpc rfl rfl)
  | account hpc | last hpc | signal hpc | count hpc => exact .inl (hkeep rfl hpc rfl rfl)
  | @pop ds rest hpc hengine hqueue hds =>
      right
      have htake : Handout.Step T.dirs s.handout (some w) _ :=
        .take hqueue (hbatch hpc) (List.Sublist.refl ds)
      have hgoes := handout_goes (s := s) (w := w)
        { s with queue := rest, popped := s.popped ++ ds.map fun d => (w, d) }
        (.process { todo := ds }) rfl rfl
      rw [hpopped, show (WorkerPc.process { todo := ds }).fresh = [] from rfl,
        hsame hpc rfl] at hgoes
      rw [hgoes]
      exact htake
  | @discard d rest hpc hengine hqueue =>
      right
      have htake : Handout.Step T.dirs s.handout (some w) _ :=
        .take (show s.handout.queue = [d] ++ rest from hqueue) (hbatch hpc) (List.nil_sublist [d])
      have hone := hpopped [d]
      rw [List.map_singleton] at hone
      have hgoes := handout_goes (s := s) (w := w)
        { s with queue := rest, popped := s.popped ++ [(w, d)] } (.account 1) rfl rfl
      rw [hone, show (WorkerPc.account 1).fresh = [] from rfl, hsame hpc rfl] at hgoes
      rw [hgoes]
      exact htake
  | @look b b' s₁ hpc hmoves =>
      obtain ⟨⟨visited, rfl⟩, hdirs, -⟩ := hmoves.same
      exact .inl (hkeep rfl hpc hdirs rfl)
  | @nothing b hpc htodo hfound =>
      obtain ⟨children, reads, heq⟩ := finishBatch_eq T config s b.seen
      right
      have hcollect : Handout.Step T.dirs s.handout (some w) _ :=
        .collect (hfresh hpc) List.nodup_nil fun x hx => absurd hx List.not_mem_nil
      rw [heq, handout_goes (s := s) { s with children, reads } (.account b.seen.length) rfl rfl]
      exact hcollect
  | @collect b hpc htodo hfound =>
      obtain ⟨children, reads, heq⟩ := finishBatch_eq T config s b.seen
      obtain ⟨hnodup, hsub⟩ := hbatchFound hpc htodo
      right
      have hcollect := Handout.Step.collect (p := s.handout) (hfresh hpc) hnodup hsub
      rw [heq, handout_goes (s := s) { s with children, reads }
        (.count b.seen.length (s.found T config a b.seen)) rfl rfl]
      exact hcollect
  | @push n list hpc =>
      right
      have hpush : Handout.Step T.dirs s.handout (some w) _ :=
        .push ((hfresh hpc).trans (List.append_nil list).symm)
      have hself : Function.update s.handout.batch (some w) [] = s.handout.batch := by
        rw [show ([] : List ℕ) = (WorkerPc.push n list).batch from rfl, ← hbatch hpc,
          Function.update_eq_self]
      have hgoes := handout_goes (s := s) (w := w)
        { s with queue := s.queue ++ list, pushed := s.pushed ++ list } (.account n) rfl rfl
      rw [show (WorkerPc.account n).batch = [] from rfl, hself] at hgoes
      rw [hgoes]
      exact hpush

/-- The main thread goes on, and the queue may have changed. -/
theorem handout_mainGoes (s₁ : ScanState) (m : MainPc) (hmain : s₁.main = s.main)
    (hpopped : s₁.popped = s.popped) (hworker : s₁.worker = s.worker) :
    ({ s₁ with main := m } : ScanState).handout =
      { queue := s₁.queue
        taken := s.handout.taken
        batch := Function.update s.handout.batch none m.batch
        fresh := Function.update s.handout.fresh none m.fresh } := by
  rw [handout_main]
  unfold handout
  rw [hmain, hpopped, hworker]

/-- **A step of the main thread** is one of the handout, or changes nothing there. -/
theorem mainStep_handout (hspawn : ∀ i n, s.main = .spawn i n → (s.worker i).pc = .waiting)
    (hattached : Attached T s)
    (hroot : ∀ b, s.main = .root b → b.dirs = [0]) (hmoves : MainMoves T config s a s') :
    s'.handout = s.handout ∨ Handout.Step T.dirs s.handout none s'.handout := by
  have hbatch {m : MainPc} (hm : s.main = m) : s.handout.batch none = m.batch :=
    congrArg MainPc.batch hm
  have hfresh {m : MainPc} (hm : s.main = m) : s.handout.fresh none = m.fresh :=
    congrArg MainPc.fresh hm
  have hself {m : MainPc} (hm : s.main = m) (hnone : m.batch = []) :
      Function.update s.handout.batch none [] = s.handout.batch := by
    rw [← hnone, ← hbatch hm, Function.update_eq_self]
  -- the batch of the root, with the children that are seeded
  have hrootFound {b : DirBatch} (hm : s.main = .root b) (htodo : b.todo = []) :
      ((s.finishBatch T config b.seen).childDirs 0).Nodup ∧
        ∀ x ∈ (s.finishBatch T config b.seen).childDirs 0,
          ∃ y ∈ s.handout.batch none, x ∈ T.dirs y := by
    have hdirs : b.seen.map Prod.fst = [0] := by
      have hone := hroot b hm
      unfold DirBatch.dirs at hone
      rwa [htodo, List.append_nil] at hone
    have hsub : ((s.finishBatch T config b.seen).childDirs 0).Sublist (T.dirs 0) := by
      refine (finishBatch_sublist hattached.entries ?_ ?_ 0).filterMap _
      · rw [hdirs]
        exact List.nodup_singleton 0
      · intro d hd
        refine hattached.unread d fun hcollected => hcollected.2 none ?_
        rw [hbatch hm]
        exact List.mem_append_left _ hd
    refine ⟨(T.nodup 0).sublist hsub, fun x hx => ⟨0, ?_, hsub.subset hx⟩⟩
    rw [hbatch hm]
    change 0 ∈ b.dirs
    rw [hroot b hm]
    exact List.mem_singleton_self 0
  cases hmoves with
  | start hm => exact .inl (handout_main_same hm rfl rfl)
  | noEngine hm =>
      right
      have hcollect : Handout.Step T.dirs s.handout none _ :=
        .collect (hfresh hm) List.nodup_nil fun x hx => absurd hx List.not_mem_nil
      rw [handout_mainGoes (s := s) s (.stopped (-1)) rfl rfl rfl]
      exact hcollect
  | @look b b' s₁ hm hbatch' =>
      obtain ⟨⟨visited, rfl⟩, hdirs, -⟩ := hbatch'.same
      exact .inl (handout_main_same (s := { s with visited }) hm hdirs rfl)
  | @nothing b hm =>
      obtain ⟨children, reads, heq⟩ := finishBatch_eq T config s b.seen
      right
      have hcollect : Handout.Step T.dirs s.handout none _ :=
        .collect (hfresh hm) List.nodup_nil fun x hx => absurd hx List.not_mem_nil
      rw [heq, handout_mainGoes (s := s) { s with children, reads } (.stopped 0) rfl rfl rfl]
      exact hcollect
  | @collect b hm htodo =>
      obtain ⟨hnodup, hsub⟩ := hrootFound hm htodo
      obtain ⟨children, reads, heq⟩ := finishBatch_eq T config s b.seen
      right
      have hcollect := Handout.Step.collect (p := s.handout) (hfresh hm) hnodup hsub
      rw [heq] at hcollect ⊢
      rw [handout_mainGoes (s := s) { s with children, reads } _ rfl rfl rfl]
      exact hcollect
  | @count d todo hm =>
      exact .inl (handout_main_same (s := { s with pending := s.pending + 1 }) hm rfl rfl)
  | @push d todo hm =>
      right
      have hpush : Handout.Step T.dirs s.handout none _ :=
        .push (show s.handout.fresh none = [d] ++ todo from hfresh hm)
      have hgoes := handout_mainGoes (s := s)
        { s with queue := s.queue ++ [d], pushed := s.pushed ++ [d] } (.seed todo) rfl rfl rfl
      rw [show (MainPc.seed todo).batch = [] from rfl, hself hm rfl] at hgoes
      rw [hgoes]
      exact hpush
  | @noMemory d todo hm =>
      right
      have hdrop : Handout.Step T.dirs s.handout none _ :=
        .drop (show todo.Sublist (s.handout.fresh none) from
          hfresh hm ▸ List.sublist_cons_self d todo)
      have hgoes := handout_mainGoes (s := s) s (.seedUndo d todo) rfl rfl rfl
      rw [show (MainPc.seedUndo d todo).batch = [] from rfl, hself hm rfl] at hgoes
      rw [hgoes]
      exact hdrop
  | @undo d todo hm =>
      exact .inl (handout_main_same (s := { s with pending := s.pending - 1 }) hm rfl rfl)
  | empty hm | seeded hm | noThreads hm | noThread hm | fewer hm | spawned hm | join hm
  | finish hm => exact .inl (handout_main_same hm rfl rfl)
  | @spawn i n hm hi =>
      have hworker : ({ s with worker := Function.update s.worker i { pc := .create } } :
          ScanState).handout = s.handout :=
        handout_same (by rw [hspawn i n hm]; rfl) (by rw [hspawn i n hm]; rfl)
      refine .inl ((handout_main_same (s := { s with
        worker := Function.update s.worker i { pc := .create } }) hm rfl rfl).trans hworker)

end ScanState

end Aura
