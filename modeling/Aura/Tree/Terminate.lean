import Mathlib.Algebra.BigOperators.Option
import Aura.Tree.Queue

/-!
# The scan comes to its end

* `ScanState.Flowing` — the invariant of the scan: the pool of work is sound, the handout is
  orderly, and what was pushed is what was popped and what is queued.
* `queue_terminates` — the counter is exact, nothing is lost or handed out twice, and once the
  counter is 0 every worker leaves. -/

namespace Aura

open Lib

namespace ScanState

variable {T : DirTree} {config : ScanConfig} {s s' : ScanState} {a : ScanAnswer} {w : ℕ}
  {b : DirBatch}

/-- The main thread, and the workers that can be created. -/
def crew (config : ScanConfig) : Finset (Option ℕ) :=
  Finset.insertNone (Finset.range (max config.ncpus 1))

/-- **What holds throughout the scan.** -/
structure Flowing (T : DirTree) (config : ScanConfig) (s : ScanState) : Prop where
  pool : s.pool.Sound (crew config)
  handout : s.handout.Orderly T.dirs 0
  attached : Attached T s
  log : s.pushed = s.popped.map Prod.snd ++ s.queue
  started : ∀ w, (s.worker w).pc ≠ .waiting → w < max config.ncpus 1 ∧ s.main.isOpen = false
  rootBatch : ∀ b, s.main = .root b → b.dirs = [0]
  seeding : (∃ todo, s.main = .seed todo ∨
    ∃ d, s.main = .seedPush d todo ∨ s.main = .seedUndo d todo) →
    s.childDirs 0 ≠ []
  spawning : ∀ i n, s.main = .spawn i n → 0 < n ∧ n ≤ max config.ncpus 1 ∧
    ∀ v, i ≤ v → (s.worker v).pc = .waiting
  joining : ∀ i n, s.main = .join i n → 0 < n ∧ ∀ v < i, (s.worker v).pc = .left
  returned : s.main = .returned 0 → s.done = true
  counting : ∀ w n list, (s.worker w).pc = .count n list → 0 < n
  left : ∀ w, (s.worker w).pc = .left → s.done = true

/-- The parts of a directory are the directories in it. -/
theorem parts_dirs (T : DirTree) : Handout.Parts T.dirs 0 where
  apart := T.apart
  first d hd := by
    obtain ⟨e, he, hdir⟩ := List.mem_filterMap.mp hd
    exact absurd (T.child d e he 0 hdir).1 (Nat.not_lt_zero d)

/-- At the start the main thread is at the root. -/
theorem Flowing.start : Flowing T config {} where
  pool := by
    refine ⟨fun i _ => ?_, ?_, fun hone => rfl, fun _ => ⟨rfl, fun i => ?_⟩,
      fun hno => by cases hno⟩
    · cases i <;> rfl
    · have hzero : ∑ i ∈ crew config, (((({} : ScanState).pool.hand i).held +
          (({} : ScanState).pool.hand i).counted : ℕ)) = 0 :=
        Finset.sum_eq_zero fun i _ => by cases i <;> rfl
      rw [hzero]
      rfl
    · cases i <;> rfl
  handout := by
    have hfresh (i : Option ℕ) : ({} : ScanState).handout.fresh i = [] := by cases i <;> rfl
    have hbatch (i : Option ℕ) {x : ℕ} (hx : x ∈ ({} : ScanState).handout.batch i) :
        i = none ∧ x = 0 := by
      cases i with
      | none => exact ⟨rfl, List.mem_singleton.mp hx⟩
      | some v => cases hx
    refine ⟨List.nodup_singleton 0, List.mem_singleton_self 0, fun i x hx => ?_, fun i => ?_,
      fun i j x hi hj => (hbatch i hi).1.trans (hbatch j hj).1.symm, fun i x hx => ?_, fun i => ?_,
      fun i j x hi => ?_, fun x hx => ?_⟩
    · rw [(hbatch i hx).2]
      exact List.mem_singleton_self 0
    · cases i with
      | none => exact List.nodup_singleton 0
      | some v => exact List.nodup_nil
    · rw [hfresh i] at hx
      cases hx
    · rw [hfresh i]
      exact List.nodup_nil
    · rw [hfresh i] at hi
      cases hi
    · rcases hx with ⟨hall, hne⟩ | ⟨i, hi⟩
      · exact absurd (List.mem_singleton.mp hall) hne
      · rw [hfresh i] at hi
        cases hi
  attached := ⟨fun d => List.nil_sublist _, fun d _ => rfl⟩
  log := rfl
  started w hw := absurd rfl hw
  rootBatch b hb := by cases hb
  seeding hseed := by
    obtain ⟨todo, hm | ⟨d, hm | hm⟩⟩ := hseed <;> cases hm
  spawning i n hm := by cases hm
  joining i n hm := by cases hm
  returned hm := by cases hm
  counting w n list hpc := by cases hpc
  left w hpc := by cases hpc

/-! ## Steps of a worker -/

/-- What a step of a worker leaves alone. -/
structure WorkerFrame (s s' : ScanState) (w : ℕ) : Prop where
  main : s'.main = s.main
  others : ∀ v, v ≠ w → s'.worker v = s.worker v
  running : (s.worker w).pc ≠ .waiting ∧ (s.worker w).pc ≠ .left
  done : s.done = true → s'.done = true

theorem WorkerMoves.frame (h : WorkerMoves T config s w a s') : WorkerFrame s s' w := by
  have hothers {s₁ : ScanState} (hworker : s₁.worker = s.worker) (pc : WorkerPc) (v : ℕ)
      (hv : v ≠ w) : (s₁.workerGoes w pc).worker v = s.worker v := by
    rw [← hworker]
    exact Function.update_of_ne hv _ _
  have hrunning {pc : WorkerPc} (hpc : (s.worker w).pc = pc) (h₁ : pc ≠ .waiting)
    (h₂ : pc ≠ .left) :
      (s.worker w).pc ≠ .waiting ∧ (s.worker w).pc ≠ .left := by
    rw [hpc]
    exact ⟨h₁, h₂⟩
  cases h with
  | create hpc =>
      exact ⟨rfl, fun v hv => Function.update_of_ne hv _ _,
        hrunning hpc (fun heq => by cases heq) (fun heq => by cases heq), id⟩
  | wait hpc =>
      exact ⟨rfl, fun v hv => rfl, hrunning hpc (fun heq => by cases heq)
        (fun heq => by cases heq), id⟩
  | leave hpc | pop hpc | discard hpc | count hpc | push hpc | again hpc | account hpc | last hpc =>
      exact ⟨rfl, hothers rfl _, hrunning hpc (fun heq => by cases heq)
        (fun heq => by cases heq), id⟩
  | signal hpc =>
      exact ⟨rfl, hothers rfl _, hrunning hpc (fun heq => by cases heq) (fun heq => by cases heq),
        fun _ => rfl⟩
  | @look b b' s₁ hpc hmoves =>
      obtain ⟨⟨visited, rfl⟩, -, -⟩ := hmoves.same
      exact ⟨rfl, hothers rfl _, hrunning hpc (fun heq => by cases heq)
        (fun heq => by cases heq), id⟩
  | @nothing b hpc | @collect b hpc =>
      obtain ⟨children, reads, heq⟩ := finishBatch_eq T config s b.seen
      rw [heq]
      exact ⟨rfl, hothers rfl _, hrunning hpc (fun heq => by cases heq)
        (fun heq => by cases heq), id⟩

/-- The log of the queue. -/
theorem WorkerMoves.log (h : WorkerMoves T config s w a s')
    (hlog : s.pushed = s.popped.map Prod.snd ++ s.queue) :
    s'.pushed = s'.popped.map Prod.snd ++ s'.queue := by
  cases h with
  | create | wait | leave | count | again | account | last | signal => exact hlog
  | @pop ds rest hpc hengine hqueue =>
      change s.pushed = (s.popped ++ ds.map fun d => (w, d)).map Prod.snd ++ rest
      have hmap : (ds.map fun d => (w, d)).map Prod.snd = ds := by
        rw [List.map_map]
        exact List.map_id _
      rw [List.map_append, hmap, List.append_assoc, ← hqueue]
      exact hlog
  | @discard d rest hpc hengine hqueue =>
      change s.pushed = (s.popped ++ [(w, d)]).map Prod.snd ++ rest
      rw [List.map_append, List.map_singleton, List.append_assoc, List.singleton_append, ← hqueue]
      exact hlog
  | @push n list =>
      change s.pushed ++ list = s.popped.map Prod.snd ++ (s.queue ++ list)
      rw [hlog, List.append_assoc]
  | @look b b' s₁ hpc hmoves =>
      obtain ⟨⟨visited, rfl⟩, -, -⟩ := hmoves.same
      exact hlog
  | @nothing b | @collect b =>
      obtain ⟨children, reads, heq⟩ := finishBatch_eq T config s b.seen
      rw [heq]
      exact hlog

/-- The nodes change at the end of a batch. -/
theorem WorkerMoves.nodes (h : WorkerMoves T config s w a s') :
    s'.children = s.children ∨ ∃ b, (s.worker w).pc = .process b ∧ b.todo = [] ∧
      s'.children = (s.finishBatch T config b.seen).children ∧ s'.handout.taken = s.handout.taken ∧
      s'.handout.batch = Function.update s.handout.batch (some w) [] := by
  cases h with
  | create | wait | leave | pop | discard | count | push | again | account | last | signal =>
      exact .inl rfl
  | @look b b' s₁ hpc hmoves =>
      obtain ⟨⟨visited, rfl⟩, -, -⟩ := hmoves.same
      exact .inl rfl
  | @nothing b hpc htodo | @collect b hpc htodo =>
      obtain ⟨children, reads, heq⟩ := finishBatch_eq T config s b.seen
      refine .inr ⟨b, hpc, htodo, rfl, ?_⟩
      rw [heq, handout_goes (s := s) { s with children, reads } _ rfl rfl]
      exact ⟨rfl, rfl⟩

theorem workerGoes_self (pc : WorkerPc) : ((s.workerGoes w pc).worker w).pc = pc := by
  unfold workerGoes
  dsimp only
  rw [Function.update_self]

/-- A worker that takes a step was created, and stays so. -/
theorem WorkerMoves.created (h : WorkerMoves T config s w a s') : (s'.worker w).pc ≠ .waiting := by
  cases h with
  | create =>
      dsimp only
      rw [Function.update_self]
      exact fun heq => by cases heq
  | wait hpop =>
      rw [hpop]
      exact fun heq => by cases heq
  | leave | pop | discard | look | nothing | collect | count | push | again | account | last
  | signal =>
      rw [workerGoes_self]
      exact fun heq => by cases heq

/-- A worker that counts has had something. -/
theorem WorkerMoves.counting (h : WorkerMoves T config s w a s') {n : ℕ} {list : List ℕ}
    (hpc : (s'.worker w).pc = .count n list) : 0 < n := by
  cases h with
  | create =>
      dsimp only at hpc
      rw [Function.update_self] at hpc
      cases hpc
  | wait hpop =>
      rw [hpop] at hpc
      cases hpc
  | leave | pop | discard | look | nothing | count | push | again | account | last | signal =>
      rw [workerGoes_self] at hpc
      cases hpc
  | @collect b hprocess htodo hfound =>
      rw [workerGoes_self] at hpc
      injection hpc with hn
      rw [← hn]
      refine List.length_pos_iff.mpr fun hnil => hfound ?_
      rw [hnil]
      rfl

/-- A worker that has left was told that all is done. -/
theorem WorkerMoves.leaves (h : WorkerMoves T config s w a s') (hpc : (s'.worker w).pc = .left) :
    s'.done = true := by
  cases h with
  | create =>
      dsimp only at hpc
      rw [Function.update_self] at hpc
      cases hpc
  | wait hpop =>
      rw [hpop] at hpc
      cases hpc
  | leave hpop hqueue hdone => exact hdone
  | pop | discard | look | nothing | collect | count | push | again | account | last | signal =>
      rw [workerGoes_self] at hpc
      cases hpc

/-- Who saw the counter reach 0 says so in its next step. -/
theorem WorkerMoves.signals (h : WorkerMoves T config s w a s') {n : ℕ}
    (hpc : (s.worker w).pc = .signal n) : s'.done = true := by
  cases h with
  | signal => rfl
  | create hno | wait hno | leave hno | pop hno | discard hno | look hno | nothing hno | collect hno
  | count hno | push hno | again hno | account hno | last hno =>
      rw [hpc] at hno
      cases hno

/-- **The nodes** after a step in which at most the batch of one participant ends. -/
theorem Attached.step (config : ScanConfig) (h : Attached T s)
    (horderly : s.handout.Orderly T.dirs 0) {i : Option ℕ}
    (hhandout : s'.handout = s.handout ∨ Handout.Step T.dirs s.handout i s'.handout)
    (hnodes : s'.children = s.children ∨ ∃ seen, s.handout.batch i = seen.map Prod.fst ∧
      s'.children = (s.finishBatch T config seen).children ∧ s'.handout.taken = s.handout.taken ∧
      s'.handout.batch = Function.update s.handout.batch i []) : Attached T s' := by
  have hcollected {d : ℕ} (hd : ¬ s'.handout.Collected d) : ¬ s.handout.Collected d := by
    intro hno
    refine hd ?_
    rcases hhandout with heq | hstep
    · rwa [heq]
    · exact hstep.collected horderly hno
  rcases hnodes with hchildren | ⟨seen, hbatch, hchildren, htaken, hgone⟩
  · refine ⟨?_, fun d hd => ?_⟩
    · rw [hchildren]
      exact h.entries
    · rw [hchildren]
      exact h.unread d (hcollected hd)
  · have hnodup := horderly.batchNodup i
    rw [hbatch] at hnodup
    have hempty (d : ℕ) (hd : d ∈ seen.map Prod.fst) : s.children d = [] := by
      refine h.unread d fun hno => hno.2 i ?_
      rw [hbatch]
      exact hd
    refine ⟨fun d => ?_, fun d hd => ?_⟩
    · rw [hchildren]
      exact finishBatch_sublist h.entries hnodup hempty d
    · have hnot : d ∉ seen.map Prod.fst := by
        intro hmem
        rw [← hbatch] at hmem
        exact hd (horderly.collected htaken hgone hmem)
      rw [hchildren, (finishBatch_of_notMem T config s hnot).1]
      exact h.unread d (hcollected hd)

/-- **A step of a worker** keeps what holds throughout the scan. -/
theorem Flowing.workerStep (h : Flowing T config s) (hmoves : WorkerMoves T config s w a s') :
    Flowing T config s' := by
  have hframe := hmoves.frame
  obtain ⟨hcrew, hopen⟩ := h.started w hframe.running.1
  have hhandout := workerStep_handout h.attached h.handout hmoves
  have hself (v : ℕ) (hv : (s.worker v).pc = .waiting ∨ (s.worker v).pc = .left) :
      s'.worker v = s.worker v := by
    refine hframe.others v ?_
    rintro rfl
    rcases hv with hv | hv
    · exact hframe.running.1 hv
    · exact hframe.running.2 hv
  refine ⟨?_, ?_, ?_, hmoves.log h.log, fun v hv => ?_, fun b hb => ?_, fun hseed => ?_,
    fun i n hm => ?_, fun i n hm => ?_, fun hm => ?_, fun v n list hpc => ?_, fun v hpc => ?_⟩
  · rcases workerStep_pool (h.counting w) (fun _ => hopen) hmoves with heq | hstep
    · rw [heq]
      exact h.pool
    · exact h.pool.step (Finset.some_mem_insertNone.mpr (Finset.mem_range.mpr hcrew)) hstep
  · rcases hhandout with heq | hstep
    · rw [heq]
      exact h.handout
    · exact h.handout.step (parts_dirs T) hstep
  · refine h.attached.step config h.handout hhandout (hmoves.nodes.imp id ?_)
    rintro ⟨b, hpc, htodo, hnodes⟩
    refine ⟨b.seen, ?_, hnodes⟩
    have hbatch : s.handout.batch (some w) = b.dirs := congrArg WorkerPc.batch hpc
    rw [hbatch]
    unfold DirBatch.dirs
    rw [htodo, List.append_nil]
  · rw [hframe.main]
    refine ⟨?_, hopen⟩
    by_cases hvw : v = w
    · rw [hvw]
      exact hcrew
    · rw [hframe.others v hvw] at hv
      exact (h.started v hv).1
  · rw [hframe.main] at hb
    exact h.rootBatch b hb
  · rw [hframe.main] at hseed
    obtain ⟨todo, hm⟩ := hseed
    have htrue : s.main.isOpen = true := by
      rcases hm with hm | ⟨d, hm | hm⟩ <;> rw [hm] <;> rfl
    exact absurd (htrue.symm.trans hopen) (by decide)
  · rw [hframe.main] at hm
    obtain ⟨hpos, hle, hwaiting⟩ := h.spawning i n hm
    refine ⟨hpos, hle, fun v hv => ?_⟩
    rw [hself v (.inl (hwaiting v hv))]
    exact hwaiting v hv
  · rw [hframe.main] at hm
    obtain ⟨hpos, hleft⟩ := h.joining i n hm
    refine ⟨hpos, fun v hv => ?_⟩
    rw [hself v (.inr (hleft v hv))]
    exact hleft v hv
  · rw [hframe.main] at hm
    exact hframe.done (h.returned hm)
  · by_cases hvw : v = w
    · subst hvw
      exact hmoves.counting hpc
    · rw [hframe.others v hvw] at hpc
      exact h.counting v n list hpc
  · by_cases hvw : v = w
    · subst hvw
      exact hmoves.leaves hpc
    · rw [hframe.others v hvw] at hpc
      exact hframe.done (h.left v hpc)

/-! ## Steps of the main thread -/

/-- The main thread changes nothing about the workers but that it creates them. -/
theorem MainMoves.workers (h : MainMoves T config s a s') :
    s'.worker = s.worker ∨ ∃ i n, s.main = .spawn i n ∧ i < n ∧ s'.main = .spawn (i + 1) n ∧
      s'.worker = Function.update s.worker i { pc := .create } := by
  cases h with
  | @spawn i n hm hi => exact .inr ⟨i, n, hm, hi, rfl, rfl⟩
  | start | noEngine | count | push | noMemory | undo | empty | seeded | noThreads | noThread
  | fewer
  | spawned | join | finish => exact .inl rfl
  | look hm hmoves =>
      obtain ⟨⟨visited, rfl⟩, -, -⟩ := hmoves.same
      exact .inl rfl
  | @nothing b | @collect b =>
      obtain ⟨children, reads, heq⟩ := finishBatch_eq T config s b.seen
      rw [heq]
      exact .inl rfl

/-- What it says is done stays as it is, and what it pushes is logged. -/
theorem MainMoves.log (h : MainMoves T config s a s')
    (hlog : s.pushed = s.popped.map Prod.snd ++ s.queue) :
    s'.done = s.done ∧ s'.pushed = s'.popped.map Prod.snd ++ s'.queue := by
  cases h with
  | start | noEngine | count | noMemory | undo | empty | seeded | noThreads | noThread | fewer
  | spawned | join | finish | spawn => exact ⟨rfl, hlog⟩
  | @push d todo =>
      refine ⟨rfl, ?_⟩
      change s.pushed ++ [d] = s.popped.map Prod.snd ++ (s.queue ++ [d])
      rw [hlog, List.append_assoc]
  | look hm hmoves =>
      obtain ⟨⟨visited, rfl⟩, -, -⟩ := hmoves.same
      exact ⟨rfl, hlog⟩
  | @nothing b | @collect b =>
      obtain ⟨children, reads, heq⟩ := finishBatch_eq T config s b.seen
      rw [heq]
      exact ⟨rfl, hlog⟩

/-- Once it has come to the threads it stays there. -/
theorem MainMoves.closed (h : MainMoves T config s a s') (hopen : s.main.isOpen = false) :
    s'.main.isOpen = false := by
  have hno {m : MainPc} (hm : s.main = m) (htrue : m.isOpen = true) : False := by
    rw [hm, htrue] at hopen
    cases hopen
  cases h with
  | start hm | noEngine hm | look hm | nothing hm | collect hm | count hm | push hm | noMemory hm
  | undo hm | empty hm | seeded hm | noThreads hm => exact (hno hm rfl).elim
  | spawn | noThread | fewer | spawned | join | finish => rfl

/-- The node of the root is read at the end of its batch. -/
theorem MainMoves.nodes (h : MainMoves T config s a s') :
    s'.children = s.children ∨ ∃ b, s.main = .root b ∧ b.todo = [] ∧
      s'.children = (s.finishBatch T config b.seen).children ∧ s'.handout.taken = s.handout.taken ∧
      s'.handout.batch = Function.update s.handout.batch none [] := by
  cases h with
  | start | noEngine | count | push | noMemory | undo | empty | seeded | noThreads | noThread
  | fewer
  | spawned | join | finish | spawn => exact .inl rfl
  | look hm hmoves =>
      obtain ⟨⟨visited, rfl⟩, -, -⟩ := hmoves.same
      exact .inl rfl
  | @nothing b hm htodo | @collect b hm htodo =>
      obtain ⟨children, reads, heq⟩ := finishBatch_eq T config s b.seen
      refine .inr ⟨b, hm, htodo, rfl, ?_⟩
      rw [heq, handout_mainGoes (s := s) { s with children, reads } _ rfl rfl rfl]
      exact ⟨rfl, rfl⟩

/-- The number of workers that are to be created. -/
theorem numWorkers_bounds (config : ScanConfig) (hdirs : s.childDirs 0 ≠ []) :
    0 < s.numWorkers config ∧ s.numWorkers config ≤ max config.ncpus 1 := by
  have hpos := List.length_pos_iff.mpr hdirs
  unfold numWorkers
  omega

/-- **A step of the main thread** keeps what holds throughout the scan. -/
theorem Flowing.mainStep (h : Flowing T config s) (hmoves : MainMoves T config s a s') :
    Flowing T config s' := by
  have hspawn (i n : ℕ) (hm : s.main = .spawn i n) : (s.worker i).pc = .waiting :=
    (h.spawning i n hm).2.2 i (le_refl i)
  have hhandout := mainStep_handout hspawn h.attached h.rootBatch hmoves
  obtain ⟨hdone, hlog⟩ := hmoves.log h.log
  have hworker (v : ℕ) : s'.worker v = s.worker v ∨
      (s'.worker v).pc = .create ∧ v < max config.ncpus 1 ∧ s.main.isOpen = false := by
    rcases hmoves.workers with heq | ⟨i, n, hm, hi, -, heq⟩
    · exact .inl (by rw [heq])
    · rw [heq]
      by_cases hvi : v = i
      · rw [hvi, Function.update_self]
        have hle := (h.spawning i n hm).2.1
        exact .inr ⟨rfl, by omega, by rw [hm]; rfl⟩
      · exact .inl (Function.update_of_ne hvi _ _)
  refine ⟨?_, ?_, ?_, hlog, fun v hv => ?_, fun b' hb => ?_, fun hseed => ?_, fun i n hm => ?_,
    fun i n hm => ?_, fun hm => ?_, fun v n list hpc => ?_, fun v hpc => ?_⟩
  · rcases mainStep_pool hspawn hmoves with heq | hstep
    · rw [heq]
      exact h.pool
    · exact h.pool.step Finset.none_mem_insertNone hstep
  · rcases hhandout with heq | hstep
    · rw [heq]
      exact h.handout
    · exact h.handout.step (parts_dirs T) hstep
  · refine h.attached.step config h.handout hhandout (hmoves.nodes.imp id ?_)
    rintro ⟨b, hm, htodo, hnodes⟩
    refine ⟨b.seen, ?_, hnodes⟩
    have hbatch : s.handout.batch none = b.dirs := congrArg MainPc.batch hm
    rw [hbatch]
    unfold DirBatch.dirs
    rw [htodo, List.append_nil]
  · rcases hworker v with heq | ⟨-, hlt, hopen⟩
    · rw [heq] at hv
      obtain ⟨hlt, hopen⟩ := h.started v hv
      exact ⟨hlt, hmoves.closed hopen⟩
    · exact ⟨hlt, hmoves.closed hopen⟩
  · cases hmoves with
    | start =>
        cases hb
        rfl
    | look hm hbatch =>
        cases hb
        exact hbatch.same.2.1.trans (h.rootBatch _ hm)
    | _ => cases hb
  · cases hmoves with
    | collect hm htodo hsome => exact hsome
    | @count d todo hm => exact h.seeding ⟨d :: todo, .inl hm⟩
    | @push d todo hm | @noMemory d todo hm => exact h.seeding ⟨todo, .inr ⟨d, .inl hm⟩⟩
    | @undo d todo hm => exact h.seeding ⟨todo, .inr ⟨d, .inr hm⟩⟩
    | _ => obtain ⟨todo, hm | ⟨d, hm | hm⟩⟩ := hseed <;> cases hm
  · cases hmoves with
    | seeded hseed =>
        cases hm
        obtain ⟨hpos, hle⟩ := numWorkers_bounds config (h.seeding ⟨[], .inl hseed⟩)
        refine ⟨hpos, hle, fun v _ => ?_⟩
        by_contra hv
        have hopen := (h.started v hv).2
        rw [hseed] at hopen
        cases hopen
    | @spawn i n hspawning hi =>
        cases hm
        obtain ⟨hpos, hle, hwaiting⟩ := h.spawning i n hspawning
        refine ⟨hpos, hle, fun v hv => ?_⟩
        dsimp only
        rw [Function.update_of_ne (by omega)]
        exact hwaiting v (by omega)
    | _ => cases hm
  · cases hmoves with
    | fewer hspawning hi hpos =>
        cases hm
        exact ⟨hpos, fun v hv => absurd hv (Nat.not_lt_zero v)⟩
    | spawned hspawning =>
        cases hm
        exact ⟨(h.spawning _ _ hspawning).1, fun v hv => absurd hv (Nat.not_lt_zero v)⟩
    | join hjoin hi hone =>
        cases hm
        obtain ⟨hpos, hall⟩ := h.joining _ _ hjoin
        refine ⟨hpos, fun v hv => ?_⟩
        rcases Nat.lt_succ_iff_lt_or_eq.mp hv with hlt | rfl
        · exact hall v hlt
        · exact hone
    | _ => cases hm
  · rw [hdone]
    cases hmoves with
    | finish hjoin hi =>
        obtain ⟨hpos, hall⟩ := h.joining _ _ hjoin
        exact h.left 0 (hall 0 (by omega))
    | _ => cases hm
  · rcases hworker v with heq | ⟨hcreate, -, -⟩
    · rw [heq] at hpc
      exact h.counting v n list hpc
    · rw [hcreate] at hpc
      cases hpc
  · rw [hdone]
    rcases hworker v with heq | ⟨hcreate, -, -⟩
    · rw [heq] at hpc
      exact h.left v hpc
    · rw [hcreate] at hpc
      cases hpc

theorem Flowing.step (h : Flowing T config s) {l : ScanLabel}
    (hstep : s.step T config l = some s') : Flowing T config s' := by
  cases l with
  | main a => exact h.mainStep (mainStep_moves hstep)
  | worker w a => exact h.workerStep (workerStep_moves hstep)

/-- **What holds throughout the scan** holds in every reachable state. -/
theorem Flowing.of_reachable (hs : Reachable (scanSystem T config) s) : Flowing T config s := by
  refine Reachable.invariant ?_ ?_ hs
  · rintro s rfl
    exact .start
  · exact fun s l s' h hstep => h.step hstep

/-! ## The end -/

/-- The directories that are queued, popped and not accounted for, or counted and about to be
pushed. -/
def outstanding (config : ScanConfig) (s : ScanState) : ℕ :=
  s.queue.length + s.main.hand.counted + ∑ w ∈ Finset.range (max config.ncpus 1),
    ((s.worker w).pc.hand.held + (s.worker w).pc.hand.counted)

theorem Flowing.pending_eq (h : Flowing T config s) : s.pending = s.outstanding config := by
  have hsum := h.pool.sum
  have hmain : s.main.hand.held = 0 := by cases s.main <;> rfl
  unfold crew at hsum
  rw [Finset.sum_insertNone] at hsum
  refine hsum.trans ?_
  change ((s.queue.length + (s.main.hand.held + s.main.hand.counted + ∑ w ∈ _, _) : ℕ) : ℤ) = _
  rw [hmain, Nat.zero_add, ← Nat.add_assoc]
  rfl

/-- Nothing is left, and nothing comes later. -/
def Idle (s : ScanState) : Prop := s.main.isOpen = false ∧ s.pending = 0 ∧ s.queue = []

theorem Flowing.idle (h : Flowing T config s) (hclosed : s.main.isOpen = false)
    (hzero : s.pending = 0) : s.Idle :=
  ⟨hclosed, hzero, List.length_eq_zero_iff.mp (h.pool.idle hzero).1⟩

theorem Flowing.idle_of_done (h : Flowing T config s) (hdone : s.done = true) : s.Idle := by
  refine h.idle ?_ (h.pool.zero (.inl hdone))
  by_contra hopen
  have hno := (h.pool.early (Bool.eq_true_of_not_eq_false hopen)).1
  exact Bool.false_ne_true (hno.symm.trans hdone)

/-- **Idle stays idle**, whoever takes a step. -/
theorem Flowing.stays_idle (h : Flowing T config s) (hidle : s.Idle) {l : ScanLabel}
    (hstep : s.step T config l = some s') : s'.Idle := by
  have hpool : s'.pool = s.pool ∨ ∃ i, WorkPool.Step s.pool i s'.pool := by
    cases l with
    | main a =>
        have hspawn (i n : ℕ) (hm : s.main = .spawn i n) : (s.worker i).pc = .waiting :=
          (h.spawning i n hm).2.2 i (le_refl i)
        exact (mainStep_pool hspawn (mainStep_moves hstep)).imp id fun hs => ⟨none, hs⟩
    | worker w a =>
        have hmoves := workerStep_moves hstep
        exact (workerStep_pool (h.counting w) (fun hw => (h.started w hw).2) hmoves).imp id
          fun hs => ⟨some w, hs⟩
  obtain ⟨hclosed, hzero, hqueue⟩ := hidle
  rcases hpool with heq | ⟨i, hs⟩
  · have hopen : s'.main.isOpen = s.main.isOpen := congrArg WorkPool.isOpen heq
    have hpending : s'.pending = s.pending := congrArg WorkPool.pending heq
    have hlen : s'.queue.length = s.queue.length := congrArg WorkPool.queued heq
    rw [hqueue, List.length_nil] at hlen
    exact ⟨hopen.trans hclosed, hpending.trans hzero, List.length_eq_zero_iff.mp hlen⟩
  · obtain ⟨hopen, hpending, hlen⟩ := h.pool.stays_idle hclosed hzero hs
    exact ⟨hopen, hpending, List.length_eq_zero_iff.mp hlen⟩

/-- An idle queue gets nothing pushed. -/
theorem Flowing.pushed_eq (h : Flowing T config s) (hidle : s.Idle) {l : ScanLabel}
    (hstep : s.step T config l = some s') : s'.pushed = s.pushed := by
  obtain ⟨hclosed, hzero, hqueue⟩ := hidle
  have hhands := (h.pool.idle hzero).2
  cases l with
  | main a =>
      have hmoves := mainStep_moves hstep
      cases hmoves with
      | push hm =>
          rw [hm] at hclosed
          cases hclosed
      | look hm =>
          rw [hm] at hclosed
          cases hclosed
      | nothing hm | collect hm =>
          rw [hm] at hclosed
          cases hclosed
      | _ => rfl
  | worker w a =>
      have hmoves := workerStep_moves hstep
      cases hmoves with
      | @push n list hpc =>
          have hcounted : (s.worker w).pc.hand.counted = 0 := (hhands (some w)).2
          rw [hpc] at hcounted
          have hnil : list = [] := List.length_eq_zero_iff.mp hcounted
          change s.pushed ++ list = s.pushed
          rw [hnil, List.append_nil]
      | look hpc hbatch =>
          obtain ⟨⟨visited, rfl⟩, -, -⟩ := hbatch.same
          rfl
      | @nothing b | @collect b =>
          obtain ⟨children, reads, heq⟩ := finishBatch_eq T config s b.seen
          rw [heq]
          rfl
      | _ => rfl

/-- The own steps that a worker takes at most before it leaves, once all is done. -/
def stepsLeft : WorkerPc → ℕ
  | .left => 0
  | .pop => 1
  | .create | .account _ => 2
  | .process _ | .push _ _ | .signal _ => 3
  | .count _ _ => 4
  | .waiting => 5

/-- **Every own step brings a worker closer to its end**, once all is done. -/
theorem Flowing.stepsLeft_lt (h : Flowing T config s) (hdone : s.done = true)
    (hmoves : WorkerMoves T config s w a s') :
    stepsLeft (s'.worker w).pc < stepsLeft (s.worker w).pc := by
  obtain ⟨hclosed, hzero, hqueue⟩ := h.idle_of_done hdone
  have hheld {pc : WorkerPc} (hpc : (s.worker w).pc = pc) : pc.hand.held = 0 := by
    rw [← hpc]
    exact ((h.pool.idle hzero).2 (some w)).1
  cases hmoves with
  | create hpc =>
      rw [hpc]
      dsimp only
      rw [Function.update_self]
      exact Nat.one_lt_two
  | wait hpc hqueue' hno => exact absurd (hdone.symm.trans hno) (by decide)
  | leave hpc | again hpc | signal hpc | count hpc | push hpc =>
      rw [hpc, workerGoes_self]
      simp [stepsLeft]
  | @pop ds rest hpc hengine hsplit hds =>
      rw [hqueue] at hsplit
      exact absurd (List.append_eq_nil_iff.mp hsplit.symm).1 hds
  | discard hpc hengine hcons =>
      rw [hqueue] at hcons
      cases hcons
  | @look b b' s₁ hpc hbatch =>
      have hnone : b.seen.length + b.todo.length = 0 := hheld hpc
      have hnil : b.todo = [] := List.length_eq_zero_iff.mp (by omega)
      cases hbatch with
      | skip hcons | opened hcons | visit hcons | gone hcons =>
          rw [hnil] at hcons
          cases hcons
  | nothing hpc =>
      rw [hpc, workerGoes_self]
      exact Nat.lt_succ_self 2
  | @collect b hpc htodo hfound =>
      have hnone : b.seen.length + b.todo.length = 0 := hheld hpc
      have hnil : b.seen = [] := List.length_eq_zero_iff.mp (by omega)
      refine absurd ?_ hfound
      rw [hnil]
      rfl
  | account hpc | last hpc => exact absurd (hheld hpc) (Nat.succ_ne_zero _)

/-- A worker in its loop has a step to take. -/
theorem workerStep_isSome (hw : (s.worker w).pc ≠ .waiting) (hl : (s.worker w).pc ≠ .left)
    (a : ScanAnswer) : (s.workerStep T config a w).isSome = true := by
  unfold workerStep
  cases hpc : (s.worker w).pc with
  | waiting => exact absurd hpc hw
  | left => exact absurd hpc hl
  | process b =>
      dsimp only
      split_ifs <;> rfl
  | account n => cases n <;> rfl
  | create | pop | count | push | signal => rfl

/-- **A worker that was created** stays where it is while the others take steps. -/
theorem Flowing.worker_eq (h : Flowing T config s) (hw : (s.worker w).pc ≠ .waiting)
    {l : ScanLabel} (hl : ∀ a, l ≠ .worker w a) (hstep : s.step T config l = some s') :
    s'.worker w = s.worker w := by
  cases l with
  | main a =>
      rcases (mainStep_moves hstep).workers with heq | ⟨i, n, hm, hi, -, heq⟩
      · rw [heq]
      · rw [heq]
        refine Function.update_of_ne ?_ _ _
        rintro rfl
        exact hw ((h.spawning w n hm).2.2 w (le_refl w))
  | worker v a =>
      refine (workerStep_moves hstep).frame.others w ?_
      rintro rfl
      exact hl a rfl

theorem Flowing.created (h : Flowing T config s) (hw : (s.worker w).pc ≠ .waiting)
    {l : ScanLabel} (hstep : s.step T config l = some s') : (s'.worker w).pc ≠ .waiting := by
  by_cases hl : ∃ a, l = .worker w a
  · obtain ⟨a, rfl⟩ := hl
    exact (workerStep_moves hstep).created
  · rw [h.worker_eq hw (fun a ha => hl ⟨a, ha⟩) hstep]
    exact hw

theorem step_done (hdone : s.done = true) {l : ScanLabel} (hstep : s.step T config l = some s') :
    s'.done = true := by
  cases l with
  | main a =>
      have hmoves := mainStep_moves hstep
      cases hmoves with
      | look hm hbatch =>
          obtain ⟨⟨visited, rfl⟩, -, -⟩ := hbatch.same
          exact hdone
      | @nothing b | @collect b =>
          obtain ⟨children, reads, heq⟩ := finishBatch_eq T config s b.seen
          rw [heq]
          exact hdone
      | _ => exact hdone
  | worker v a => exact (workerStep_moves hstep).frame.done hdone

/-- In this run every worker that was created and has not left takes a step again. -/
def Fair (f : ℕ → ScanState) (l : ℕ → Option ScanLabel) : Prop :=
  ∀ w n, ((f n).worker w).pc ≠ .waiting → ((f n).worker w).pc ≠ .left →
    ∃ m, n ≤ m ∧ ∃ a, l m = some (.worker w a)

section Run

variable {f : ℕ → ScanState} {l : ℕ → Option ScanLabel} {n m : ℕ}

theorem flowing_at (hrun : InfiniteRun (scanSystem T config).idling f l) (n : ℕ) :
    Flowing T config (f n) :=
  .of_reachable (Reachable.of_idling (hrun.reachable n))

/-- What every step of the program keeps holds from then on. -/
theorem keeps (hrun : InfiniteRun (scanSystem T config).idling f l) {I : ScanState → Prop}
    (hstep : ∀ s l s', Flowing T config s → I s → s.step T config l = some s' → I s')
    (hnm : n ≤ m) (hn : I (f n)) : I (f m) := by
  refine hrun.mono (fun k hk hs => ?_) hnm hn
  rcases hs with ⟨-, heq⟩ | ⟨l', -, hs⟩
  · rw [heq]
    exact hk
  · exact hstep _ l' _ (flowing_at hrun k) hk hs

/-- The step of a worker at some time. -/
theorem moves_at (hrun : InfiniteRun (scanSystem T config).idling f l)
    (hl : l m = some (.worker w a)) : WorkerMoves T config (f m) w a (f (m + 1)) := by
  rcases hrun.step m with ⟨hnone, -⟩ | ⟨l', hsome, hs⟩
  · rw [hl] at hnone
    cases hnone
  · rw [hl] at hsome
    obtain rfl := Option.some.inj hsome
    exact workerStep_moves hs

/-- **Once all is done a worker leaves.** -/
theorem leaves_of_done (hrun : InfiniteRun (scanSystem T config).idling f l) (hfair : Fair f l)
    (hdone : (f n).done = true) (hw : ((f n).worker w).pc ≠ .waiting) :
    ∃ k, ((f k).worker w).pc = .left := by
  obtain ⟨r, hr⟩ : ∃ r, stepsLeft ((f n).worker w).pc ≤ r := ⟨_, le_refl _⟩
  induction r generalizing n with
  | zero =>
      refine ⟨n, ?_⟩
      generalize ((f n).worker w).pc = pc at hr
      cases pc with
      | left => rfl
      | _ => simp [stepsLeft] at hr
  | succ r ih =>
      by_cases hleft : ((f n).worker w).pc = .left
      · exact ⟨n, hleft⟩
      · obtain ⟨m, hnm, a, hl⟩ := hfair w n hw hleft
        -- until its own step it only stays, or has come closer already
        have hkept := keeps hrun (I := fun s => s.done = true ∧ (s.worker w).pc ≠ .waiting ∧
          stepsLeft (s.worker w).pc ≤ r + 1) ?_ hnm ⟨hdone, hw, hr⟩
        · obtain ⟨hdone', hw', hr'⟩ := hkept
          have hmoves := moves_at hrun hl
          have hlt := (flowing_at hrun m).stepsLeft_lt hdone' hmoves
          exact ih (hmoves.frame.done hdone') hmoves.created (by omega)
        · rintro s l s' h ⟨hd, hs, hle⟩ hstep
          by_cases hl : ∃ a, l = .worker w a
          · obtain ⟨a, rfl⟩ := hl
            have hmoves := workerStep_moves hstep
            have hlt := h.stepsLeft_lt hd hmoves
            exact ⟨hmoves.frame.done hd, hmoves.created, by omega⟩
          · have heq := h.worker_eq hs (fun a ha => hl ⟨a, ha⟩) hstep
            rw [heq]
            exact ⟨step_done hd hstep, hs, hle⟩

/-- **Once the counter is 0, somebody says so.** -/
theorem done_of_idle (hrun : InfiniteRun (scanSystem T config).idling f l) (hfair : Fair f l)
    (hclosed : (f n).main.isOpen = false) (hzero : (f n).pending = 0) :
    ∃ m, n ≤ m ∧ (f m).done = true := by
  rcases (flowing_at hrun n).pool.notified hclosed hzero with hdone | ⟨i, hsignals⟩
  · exact ⟨n, le_refl n, hdone⟩
  · have hat : ∃ v k, i = some v ∧ ((f n).worker v).pc = .signal k := by
      cases i with
      | none =>
          change (f n).main.hand.signals = true at hsignals
          cases hm : (f n).main <;> rw [hm] at hsignals <;> cases hsignals
      | some v =>
          change ((f n).worker v).pc.hand.signals = true at hsignals
          cases hpc : ((f n).worker v).pc with
          | signal k => exact ⟨v, k, rfl, hpc⟩
          | _ =>
              rw [hpc] at hsignals
              cases hsignals
    obtain ⟨v, k, -, hpc⟩ := hat
    obtain ⟨m, hnm, a, hl⟩ := hfair v n (by rw [hpc]; exact fun heq => by cases heq)
      (by rw [hpc]; exact fun heq => by cases heq)
    have hkept := keeps hrun (I := fun s => s.done = true ∨ (s.worker v).pc = .signal k) ?_ hnm
      (.inr hpc)
    · have hmoves := moves_at hrun hl
      refine ⟨m + 1, by omega, ?_⟩
      rcases hkept with hdone | hpc'
      · exact hmoves.frame.done hdone
      · exact hmoves.signals hpc'
    · rintro s l s' h (hdone | hpc') hstep
      · exact .inl (step_done hdone hstep)
      · by_cases hl : ∃ a, l = .worker v a
        · obtain ⟨a, rfl⟩ := hl
          exact .inl ((workerStep_moves hstep).signals hpc')
        · have heq := h.worker_eq (by rw [hpc']; exact fun heq => by cases heq)
            (fun a ha => hl ⟨a, ha⟩) hstep
          right
          rw [heq]
          exact hpc'

end Run

end ScanState

/-- **The work queue of atree.** In every reachable state the counter is the number of directories
that are queued, popped and not accounted for, or counted and about to be pushed. Once `done` is set
there is none, and nothing is pushed any more. No directory is pushed twice; what was pushed was
popped, once and in order, or is in the queue, which is empty when a worker has left or the scan has
returned. A worker in its loop can always go on; and once the counter has reached 0, every worker
leaves, as long as workers in their loop go on. -/
theorem queue_terminates (T : DirTree) (config : ScanConfig) :
    (∀ s, Reachable (scanSystem T config) s →
      s.pending = s.outstanding config ∧
      (s.done = true → s.outstanding config = 0 ∧
        ∀ ls s', Run (scanSystem T config) s ls s' → s'.pushed = s.pushed ∧ s'.queue = []) ∧
      s.pushed = s.popped.map Prod.snd ++ s.queue ∧ s.pushed.Nodup ∧
      ((∃ w, (s.worker w).pc = .left) ∨ s.main = .returned 0 → s.queue = []) ∧
      ∀ w a, (s.worker w).pc ≠ .waiting → (s.worker w).pc ≠ .left →
        (s.workerStep T config a w).isSome = true) ∧
    ∀ f l, InfiniteRun (scanSystem T config).idling f l → ScanState.Fair f l →
      ∀ n, (f n).main.isOpen = false → (f n).pending = 0 →
        ∀ w m, ((f m).worker w).pc ≠ .waiting → ∃ k, ((f k).worker w).pc = .left := by
  refine ⟨fun s hs => ?_, fun f l hrun hfair n hclosed hzero w m hw => ?_⟩
  · have h := ScanState.Flowing.of_reachable hs
    have hdone (hd : s.done = true) : s.outstanding config = 0 ∧
        ∀ ls s', Run (scanSystem T config) s ls s' → s'.pushed = s.pushed ∧ s'.queue = [] := by
      have hidle := h.idle_of_done hd
      refine ⟨by exact_mod_cast h.pending_eq.symm.trans hidle.2.1, fun ls s' hrun => ?_⟩
      have hkept : ScanState.Flowing T config s' ∧ s'.Idle ∧ s'.pushed = s.pushed := by
        refine hrun.invariant (I := fun x => ScanState.Flowing T config x ∧ x.Idle ∧
          x.pushed = s.pushed) ?_ ⟨h, hidle, rfl⟩
        rintro x l x' ⟨hx, hi, hp⟩ hstep
        exact ⟨hx.step hstep, hx.stays_idle hi hstep, (hx.pushed_eq hi hstep).trans hp⟩
      exact ⟨hkept.2.2, hkept.2.1.2.2⟩
    refine ⟨h.pending_eq, hdone, h.log, ?_, fun hover => ?_,
      fun w a hw hl => ScanState.workerStep_isSome hw hl a⟩
    · have hnodup := h.handout.nodup
      change (0 :: s.popped.map Prod.snd ++ s.queue).Nodup at hnodup
      rw [List.cons_append, ← h.log] at hnodup
      exact (List.nodup_cons.mp hnodup).2
    · have hd : s.done = true := by
        rcases hover with ⟨w, hw⟩ | hreturned
        · exact h.left w hw
        · exact h.returned hreturned
      exact ((hdone hd).2 [] s (Run.nil s)).2
  · obtain ⟨k, -, hdone⟩ := ScanState.done_of_idle hrun hfair hclosed hzero
    -- after both times all is done, and the worker was created
    have hdone' := ScanState.keeps hrun (I := fun s => s.done = true)
      (fun s l s' _ hd hstep => ScanState.step_done hd hstep) (le_max_left k m) hdone
    have hw' := ScanState.keeps hrun (I := fun s => (s.worker w).pc ≠ .waiting)
      (fun s l s' h hs hstep => h.created hs hstep) (le_max_right k m) hw
    exact ScanState.leaves_of_done hrun hfair hdone' hw'

end Aura
