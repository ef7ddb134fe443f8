import Aura.Tree.Scan

/-!
# What a step of the scan can do

`BatchMoves` are the steps of `process_dir_batch` in its first phase, `WorkerMoves` those of a
worker and `MainMoves` those of the main thread, with `openNext_moves`, `workerStep_moves` and
`mainStep_moves`. -/

namespace Aura

open Lib

namespace ScanState

variable {T : DirTree} {config : ScanConfig} {s s' : ScanState} {a : ScanAnswer} {w : ℕ}
  {b : DirBatch}

/-- A step of the first phase of `process_dir_batch`, with directories left to look at. -/
inductive BatchMoves (T : DirTree) (config : ScanConfig) (s : ScanState) (b : DirBatch) :
    ScanState → DirBatch → Prop
  /-- The directory is too deep. -/
  | skip {d : ℕ} {todo : List ℕ} (htodo : b.todo = d :: todo)
      (hbeyond : config.beyond (T.depth d) = true) :
      BatchMoves T config s b s { seen := b.seen ++ [(d, false)], todo }
  /-- It is opened if it was new in the visited set. -/
  | opened {d : ℕ} {todo : List ℕ} {new : Bool} (htodo : b.todo = d :: todo)
      (hbeyond : config.beyond (T.depth d) = false) (hresult : (s.visited.pc d).result = some new) :
      BatchMoves T config s b s { seen := b.seen ++ [(d, new)], todo }
  /-- A step of `visited_insert`. -/
  | visit {d : ℕ} {todo : List ℕ} {visited : VisitedRun} (htodo : b.todo = d :: todo)
      (hbeyond : config.beyond (T.depth d) = false) (hresult : (s.visited.pc d).result = none)
      (hvisited : s.visited.step T.size T.devIno d = some visited) :
      BatchMoves T config s b { s with visited } b
  /-- There is no such directory. -/
  | gone {d : ℕ} {todo : List ℕ} (htodo : b.todo = d :: todo)
      (hresult : (s.visited.pc d).result = none)
      (hvisited : s.visited.step T.size T.devIno d = none) : BatchMoves T config s b s b

theorem openNext_moves (htodo : b.todo ≠ []) :
    BatchMoves T config s b (s.openNext T config b).1 (s.openNext T config b).2 := by
  unfold openNext
  split
  · rename_i hnil
    exact absurd hnil htodo
  · rename_i d todo hcons
    by_cases hbeyond : config.beyond (T.depth d) = true
    · rw [if_pos hbeyond]
      exact .skip hcons hbeyond
    · rw [if_neg hbeyond]
      have hbeyond' := Bool.eq_false_of_not_eq_true hbeyond
      split
      · rename_i new hresult
        exact .opened hcons hbeyond' hresult
      · rename_i hresult
        cases hvisited : s.visited.step T.size T.devIno d with
        | none => exact .gone hcons hresult hvisited
        | some visited => exact .visit hcons hbeyond' hresult hvisited

/-- A step of a worker. -/
inductive WorkerMoves (T : DirTree) (config : ScanConfig) (s : ScanState) (w : ℕ) (a : ScanAnswer) :
    ScanState → Prop
  | create (hpc : (s.worker w).pc = .create) :
      WorkerMoves T config s w a { s with
        worker := Function.update s.worker w { engine := a.engine, pc := .pop } }
  /-- The queue is empty, and the worker looks again later. -/
  | wait (hpc : (s.worker w).pc = .pop) (hqueue : s.queue = []) (hdone : s.done = false) :
      WorkerMoves T config s w a s
  | leave (hpc : (s.worker w).pc = .pop) (hqueue : s.queue = []) (hdone : s.done = true) :
      WorkerMoves T config s w a (s.workerGoes w .left)
  | pop {ds rest : List ℕ} (hpc : (s.worker w).pc = .pop) (hengine : (s.worker w).engine = true)
      (hqueue : s.queue = ds ++ rest) (hds : ds ≠ []) :
      WorkerMoves T config s w a
        ({ s with queue := rest, popped := s.popped ++ ds.map fun d => (w, d) }.workerGoes w
          (.process { todo := ds }))
  /-- Without an engine the directory is dropped. -/
  | discard {d : ℕ} {rest : List ℕ} (hpc : (s.worker w).pc = .pop)
      (hengine : (s.worker w).engine = false) (hqueue : s.queue = d :: rest) :
      WorkerMoves T config s w a
        ({ s with queue := rest, popped := s.popped ++ [(w, d)] }.workerGoes w (.account 1))
  | look {b b' : DirBatch} {s' : ScanState} (hpc : (s.worker w).pc = .process b)
      (hmoves : BatchMoves T config s b s' b') :
      WorkerMoves T config s w a (s'.workerGoes w (.process b'))
  | nothing {b : DirBatch} (hpc : (s.worker w).pc = .process b) (htodo : b.todo = [])
      (hfound : s.found T config a b.seen = []) :
      WorkerMoves T config s w a
        ((s.finishBatch T config b.seen).workerGoes w (.account b.seen.length))
  | collect {b : DirBatch} (hpc : (s.worker w).pc = .process b) (htodo : b.todo = [])
      (hfound : s.found T config a b.seen ≠ []) :
      WorkerMoves T config s w a ((s.finishBatch T config b.seen).workerGoes w
        (.count b.seen.length (s.found T config a b.seen)))
  | count {n : ℕ} {list : List ℕ} (hpc : (s.worker w).pc = .count n list) :
      WorkerMoves T config s w a
        ({ s with pending := s.pending + list.length }.workerGoes w (.push n list))
  | push {n : ℕ} {list : List ℕ} (hpc : (s.worker w).pc = .push n list) :
      WorkerMoves T config s w a
        ({ s with queue := s.queue ++ list, pushed := s.pushed ++ list }.workerGoes w (.account n))
  | again (hpc : (s.worker w).pc = .account 0) : WorkerMoves T config s w a (s.workerGoes w .pop)
  | account {n : ℕ} (hpc : (s.worker w).pc = .account (n + 1)) (hpending : s.pending ≠ 1) :
      WorkerMoves T config s w a
        ({ s with pending := s.pending - 1 }.workerGoes w (.account n))
  | last {n : ℕ} (hpc : (s.worker w).pc = .account (n + 1)) (hpending : s.pending = 1) :
      WorkerMoves T config s w a
        ({ s with pending := s.pending - 1 }.workerGoes w (.signal n))
  | signal {n : ℕ} (hpc : (s.worker w).pc = .signal n) :
      WorkerMoves T config s w a ({ s with done := true }.workerGoes w (.account n))

theorem workerStep_moves (h : s.workerStep T config a w = some s') :
    WorkerMoves T config s w a s' := by
  unfold workerStep at h
  cases hpc : (s.worker w).pc with
  | waiting | left =>
      rw [hpc] at h
      cases h
  | create =>
      rw [hpc] at h
      obtain rfl := Option.some.inj h
      exact .create hpc
  | pop =>
      rw [hpc] at h
      obtain rfl := Option.some.inj h
      unfold ScanState.pop
      by_cases hqueue : s.queue = []
      · rw [if_pos hqueue]
        split_ifs with hdone
        · exact .leave hpc hqueue hdone
        · exact .wait hpc hqueue (Bool.eq_false_of_not_eq_true hdone)
      · rw [if_neg hqueue]
        cases hengine : (s.worker w).engine with
        | true =>
            refine .pop hpc hengine (List.take_append_drop dirsPerBatch s.queue).symm fun hnil => ?_
            exact hqueue ((List.take_eq_nil_iff.mp hnil).resolve_left (by decide))
        | false =>
            obtain ⟨d, rest, hcons⟩ := List.exists_cons_of_ne_nil hqueue
            rw [hcons]
            exact .discard hpc hengine hcons
  | process b =>
      rw [hpc] at h
      dsimp only at h
      by_cases htodo : b.todo = []
      · rw [if_pos htodo] at h
        obtain rfl := Option.some.inj h
        by_cases hfound : s.found T config a b.seen = []
        · have hnothing := WorkerMoves.nothing (T := T) (a := a) hpc htodo hfound
          unfold ScanState.collect
          dsimp only
          rw [if_pos hfound]
          exact hnothing
        · have hcollect := WorkerMoves.collect (T := T) (a := a) hpc htodo hfound
          unfold ScanState.collect
          dsimp only
          rw [if_neg hfound]
          exact hcollect
      · rw [if_neg htodo] at h
        obtain rfl := Option.some.inj h
        exact .look hpc (openNext_moves htodo)
  | count n list =>
      rw [hpc] at h
      obtain rfl := Option.some.inj h
      exact .count hpc
  | push n list =>
      rw [hpc] at h
      obtain rfl := Option.some.inj h
      exact .push hpc
  | account n =>
      rw [hpc] at h
      cases n with
      | zero =>
          obtain rfl := Option.some.inj h
          exact .again hpc
      | succ n =>
          obtain rfl := Option.some.inj h
          split_ifs with hpending
          · exact .last hpc hpending
          · exact .account hpc hpending
  | signal n =>
      rw [hpc] at h
      obtain rfl := Option.some.inj h
      exact .signal hpc

/-- A step of the main thread. -/
inductive MainMoves (T : DirTree) (config : ScanConfig) (s : ScanState) (a : ScanAnswer) :
    ScanState → Prop
  | start (hmain : s.main = .start) :
      MainMoves T config s a { s with main := .root { todo := [0] } }
  | noEngine (hmain : s.main = .start) : MainMoves T config s a { s with main := .stopped (-1) }
  | look {b b' : DirBatch} {s' : ScanState} (hmain : s.main = .root b)
      (hmoves : BatchMoves T config s b s' b') :
      MainMoves T config s a { s' with main := .root b' }
  | nothing {b : DirBatch} (hmain : s.main = .root b) (htodo : b.todo = [])
      (hnone : (s.finishBatch T config b.seen).childDirs 0 = []) :
      MainMoves T config s a { s.finishBatch T config b.seen with main := .stopped 0 }
  | collect {b : DirBatch} (hmain : s.main = .root b) (htodo : b.todo = [])
      (hsome : (s.finishBatch T config b.seen).childDirs 0 ≠ []) :
      MainMoves T config s a { s.finishBatch T config b.seen with
        main := .seed ((s.finishBatch T config b.seen).childDirs 0) }
  | count {d : ℕ} {todo : List ℕ} (hmain : s.main = .seed (d :: todo)) :
      MainMoves T config s a { s with pending := s.pending + 1, main := .seedPush d todo }
  | push {d : ℕ} {todo : List ℕ} (hmain : s.main = .seedPush d todo) :
      MainMoves T config s a { s with
        queue := s.queue ++ [d]
        pushed := s.pushed ++ [d]
        main := .seed todo }
  | noMemory {d : ℕ} {todo : List ℕ} (hmain : s.main = .seedPush d todo)
      (halloc : a.alloc d = false) :
      MainMoves T config s a { s with main := .seedUndo d todo }
  | undo {d : ℕ} {todo : List ℕ} (hmain : s.main = .seedUndo d todo) :
      MainMoves T config s a { s with pending := s.pending - 1, main := .seed todo }
  | empty (hmain : s.main = .seed []) (hpending : s.pending = 0) :
      MainMoves T config s a { s with main := .stopped 0 }
  | seeded (hmain : s.main = .seed []) (hpending : s.pending ≠ 0) :
      MainMoves T config s a { s with main := .spawn 0 (s.numWorkers config) }
  | noThreads (hmain : s.main = .seed []) (hpending : s.pending ≠ 0) :
      MainMoves T config s a { s with main := .stopped (-1) }
  | spawn {i n : ℕ} (hmain : s.main = .spawn i n) (hi : i < n) :
      MainMoves T config s a { s with
        worker := Function.update s.worker i { pc := .create }
        main := .spawn (i + 1) n }
  | noThread {n : ℕ} (hmain : s.main = .spawn 0 n) (hi : 0 < n) :
      MainMoves T config s a { s with main := .returned (-1) }
  | fewer {i n : ℕ} (hmain : s.main = .spawn i n) (hi : i < n) (hpos : 0 < i) :
      MainMoves T config s a { s with main := .join 0 i }
  | spawned {i n : ℕ} (hmain : s.main = .spawn i n) (hi : ¬ i < n) :
      MainMoves T config s a { s with main := .join 0 n }
  | join {i n : ℕ} (hmain : s.main = .join i n) (hi : i < n) (hleft : (s.worker i).pc = .left) :
      MainMoves T config s a { s with main := .join (i + 1) n }
  | finish {i n : ℕ} (hmain : s.main = .join i n) (hi : ¬ i < n) :
      MainMoves T config s a { s with main := .returned 0 }

theorem mainStep_moves (h : s.mainStep T config a = some s') : MainMoves T config s a s' := by
  unfold mainStep at h
  cases hm : s.main with
  | start =>
      rw [hm] at h
      obtain rfl := Option.some.inj h
      split_ifs
      · exact .start hm
      · exact .noEngine hm
  | root b =>
      rw [hm] at h
      dsimp only at h
      by_cases htodo : b.todo = []
      · rw [if_pos htodo] at h
        obtain rfl := Option.some.inj h
        by_cases hnone : (s.finishBatch T config b.seen).childDirs 0 = []
        · rw [if_pos hnone]
          exact .nothing hm htodo hnone
        · rw [if_neg hnone]
          exact .collect hm htodo hnone
      · rw [if_neg htodo] at h
        obtain rfl := Option.some.inj h
        exact .look hm (openNext_moves htodo)
  | seed todo =>
      rw [hm] at h
      cases todo with
      | nil =>
          obtain rfl := Option.some.inj h
          by_cases hzero : s.pending = 0
          · rw [if_pos hzero]
            exact .empty hm hzero
          · rw [if_neg hzero]
            split_ifs
            · exact .seeded hm hzero
            · exact .noThreads hm hzero
      | cons d todo =>
          obtain rfl := Option.some.inj h
          exact .count hm
  | seedPush d todo =>
      rw [hm] at h
      dsimp only at h
      split_ifs at h with halloc
      · obtain rfl := Option.some.inj h
        exact .push hm
      · obtain rfl := Option.some.inj h
        exact .noMemory hm (Bool.eq_false_of_not_eq_true halloc)
  | seedUndo d todo =>
      rw [hm] at h
      obtain rfl := Option.some.inj h
      exact .undo hm
  | spawn i n =>
      rw [hm] at h
      dsimp only at h
      split_ifs at h with hi hthread hzero
      · obtain rfl := Option.some.inj h
        exact .spawn hm hi
      · obtain rfl := Option.some.inj h
        subst hzero
        exact .noThread hm hi
      · obtain rfl := Option.some.inj h
        exact .fewer hm hi (Nat.pos_of_ne_zero hzero)
      · obtain rfl := Option.some.inj h
        exact .spawned hm hi
  | join i n =>
      rw [hm] at h
      dsimp only at h
      split_ifs at h with hi
      · split at h
        · rename_i hleft
          obtain rfl := Option.some.inj h
          exact .join hm hi hleft
        · cases h
      · obtain rfl := Option.some.inj h
        exact .finish hm hi
  | stopped code | returned code =>
      rw [hm] at h
      cases h

end ScanState

end Aura
