import Aura.Tree.Terminate
import Aura.Tree.VisitedSlots

/-!
# The scan is complete

* `ScanState.Completes` — the condition on a step.
* `ScanState.Complete` — under it, who is through with a directory has read it once, and knows the
  directories in it.
* `scan_complete` — so when `scan_tree` returns 0 every listed directory within the depth limit was
  read once, with all that is listed in it attached.
* `scan_incomplete` — a worker without an engine drops a directory, and `scan_tree` returns 0.
-/

namespace Aura

open Lib

/-! ## What is to be read -/

/-- The directories whose entries are not skipped on the way from the root. -/
inductive DirTree.Listed (T : DirTree) (config : ScanConfig) : ℕ → Prop
  | root : Listed T config 0
  | entry {p d : ℕ} {e : DirEntry} (hp : Listed T config p) (he : e ∈ T.entries p)
      (hlists : config.lists e = true) (hdir : e.dir = some d) : Listed T config d

/-- The children of the node of a directory at the end: none beyond the depth limit, else the
entries that are listed. -/
def ScanConfig.listing (config : ScanConfig) (T : DirTree) (d : ℕ) : List DirEntry :=
  if config.beyond (T.depth d) then [] else config.prune ((T.entries d).filter config.lists)

/-- The paths of the listed entries of a directory fit into `PATH_MAX`. -/
def ScanConfig.Fits (config : ScanConfig) (path : List UInt8) (entries : List DirEntry) : Prop :=
  path.length + 2 < pathMax ∧
    ∀ e ∈ entries, config.lists e = true → path.length + 1 + e.name.length < pathMax

theorem readEntries_of_fits {config : ScanConfig} {path : List UInt8} {entries : List DirEntry}
    (h : config.Fits path entries) :
    config.readEntries path entries = entries.filter config.lists := by
  unfold ScanConfig.readEntries
  rw [if_neg (not_le.mpr h.1)]
  refine List.filter_congr fun e he => ?_
  cases hlists : config.lists e with
  | false => rfl
  | true => rw [Bool.true_and, decide_eq_true (h.2 e he hlists)]

theorem prune_nil (config : ScanConfig) : config.prune [] = [] := by
  unfold ScanConfig.prune
  split_ifs <;> rfl

/-! ## The condition -/

/-- In a batch: the load check of `visited_insert` passes, and it does not probe all slots in vain;
at the end of the batch the paths fit. -/
def DirBatch.Passes (T : DirTree) (config : ScanConfig) (s : ScanState) (b : DirBatch) : Prop :=
  match b.todo with
  | d :: _ =>
      config.beyond (T.depth d) = false →
        match s.visited.pc d with
        | .start => s.visited.set.full = false
        | .probe i _ => i < s.visited.set.cap
        | _ => True
  | [] => ∀ x ∈ b.seen, x.2 = true → config.Fits (T.fullPath x.1) (T.entries x.1)

/-- There is memory for the queue items. -/
def ScanLabel.Allocates : ScanLabel → Prop
  | .main a | .worker _ a => ∀ d, a.alloc d = true

namespace ScanState

/-- **The condition on a step**: a worker without an engine pops no directory within the depth
limit, and batches pass. -/
def Completes (T : DirTree) (config : ScanConfig) (s : ScanState) : ScanLabel → Prop
  | .main _ =>
      match s.main with
      | .root b => b.Passes T config s
      | _ => True
  | .worker w _ =>
      match (s.worker w).pc with
      | .pop => (s.worker w).engine = false →
          ∀ d ∈ s.queue.head?, config.beyond (T.depth d) = true
      | .process b => b.Passes T config s
      | _ => True

/-! ## The visited set -/

/-- **The visited set**, of which every directory is a pair of its own, has refused nothing. -/
structure Enters (T : DirTree) (v : VisitedRun) : Prop where
  slots : Slots T.devIno v.set v.pc
  fresh : ∀ d, T.size ≤ d → v.pc d = .start
  kept : ∀ d, v.pc d ≠ .refused ∧ ∀ idx, v.pc d ≠ .release idx

variable {T : DirTree} {config : ScanConfig} {s s' : ScanState} {a : ScanAnswer} {w : ℕ}
  {b : DirBatch}

theorem Enters.start (T : DirTree) : Enters T {} := by
  refine ⟨⟨?_, ?_, ?_, ?_, ?_⟩, fun _ _ => rfl, fun _ => ⟨nofun, fun _ => nofun⟩⟩
  · exact fun c c' idx hc => (by cases hc)
  · exact fun c idx hc => (by cases hc)
  · exact fun c idx hc => (by cases hc)
  · exact fun c idx hc => (by cases hc)
  · exact fun idx hne => absurd rfl hne

/-- A step of `visited_insert` for a directory. -/
theorem Enters.step {v v' : VisitedRun} {d : ℕ} (h : Enters T v)
    (hload : v.pc d = .start → v.set.full = false)
    (hprobe : ∀ i idx, v.pc d = .probe i idx → i < v.set.cap)
    (hstep : v.step T.size T.devIno d = some v') : Enters T v' := by
  unfold VisitedRun.step at hstep
  split_ifs at hstep with hd
  obtain ⟨⟨vs, x⟩, hinsert, rfl⟩ := Option.map_eq_some_iff.mp hstep
  have hmoves := insertStep_moves hinsert
  -- a slot with the pair is the slot of the directory itself
  have hown {idx : ℕ} (hheld : v.set.holds (T.devIno d) idx = true) :
      (v.pc d).slot? = some idx := by
    obtain ⟨c, hslot, hkey⟩ := h.slots.of_holds hheld
    have hc : c < T.size := by
      by_contra hge
      rw [h.fresh c (not_lt.mp hge)] at hslot
      cases hslot
    rwa [T.distinct c d hc hd hkey] at hslot
  have hx : x ≠ .refused ∧ ∀ idx, x ≠ .release idx := by
    have hkept := (h.kept d).2
    generalize hy : v.pc d = y at hmoves hload hprobe hown hkept
    cases hmoves with
    | full hfull =>
        rw [hload rfl] at hfull
        cases hfull
    | exhausted hi => exact absurd (hprobe _ _ rfl) hi
    | present hpc hheld =>
        have hslot := hown hheld
        rcases hpc with rfl | rfl <;> cases hslot
    | duplicate hne hheld =>
        have hslot := hown hheld
        cases hslot
        exact absurd rfl hne
    | release => exact absurd rfl (hkept _)
    | _ => exact ⟨nofun, fun _ => nofun⟩
  refine ⟨h.slots.step hmoves, fun c hc => ?_, fun c => ?_⟩
  · dsimp only
    rw [Function.update_of_ne (by omega)]
    exact h.fresh c hc
  · dsimp only
    by_cases hcd : c = d
    · rw [hcd, Function.update_self]
      exact hx
    · rw [Function.update_of_ne hcd]
      exact h.kept c

/-! ## Batches -/

/-- A batch has opened the directories within the depth limit. -/
def Honest (T : DirTree) (config : ScanConfig) (b : DirBatch) : Prop :=
  ∀ x ∈ b.seen, x.2 = !config.beyond (T.depth x.1)

/-- **A step of the first phase** under the condition. -/
theorem BatchMoves.complete {b' : DirBatch} (h : BatchMoves T config s b s' b')
    (henters : Enters T s.visited) (hhonest : Honest T config b) (hpasses : b.Passes T config s) :
    Enters T s'.visited ∧ Honest T config b' := by
  have hadd {d : ℕ} {todo : List ℕ} {r : Bool} (hr : r = !config.beyond (T.depth d)) :
      Honest T config { seen := b.seen ++ [(d, r)], todo } := by
    intro x hx
    rcases List.mem_append.mp hx with hx | hx
    · exact hhonest x hx
    · rw [List.mem_singleton.mp hx]
      exact hr
  cases h with
  | skip htodo hbeyond =>
      refine ⟨henters, hadd ?_⟩
      rw [hbeyond]
      rfl
  | @opened d todo new htodo hbeyond hresult =>
      refine ⟨henters, hadd ?_⟩
      rw [hbeyond]
      have hkept := (henters.kept d).1
      generalize s.visited.pc d = y at hresult hkept
      cases y with
      | inserted idx =>
          cases hresult
          rfl
      | refused => exact absurd rfl hkept
      | _ => cases hresult
  | @visit d todo visited htodo hbeyond hresult hvisited =>
      unfold DirBatch.Passes at hpasses
      rw [htodo] at hpasses
      have hpasses := hpasses hbeyond
      refine ⟨henters.step (fun hpc => ?_) (fun i idx hpc => ?_) hvisited, hhonest⟩
      · rw [hpc] at hpasses
        exact hpasses
      · rw [hpc] at hpasses
        exact hpasses
  | gone => exact ⟨henters, hhonest⟩

/-! ## The invariant -/

/-- A directory that was queued, or that somebody is about to push. -/
def Known (s : ScanState) (x : ℕ) : Prop := x ∈ s.handout.all ∨ ∃ i, x ∈ s.handout.fresh i

/-- **Nothing was lost so far.** -/
structure Complete (T : DirTree) (config : ScanConfig) (s : ScanState) : Prop where
  flowing : Flowing T config s
  enters : Enters T s.visited
  root : ∀ b, s.main = .root b → Honest T config b
  honest : ∀ w b, (s.worker w).pc = .process b → Honest T config b
  read : ∀ d, s.handout.Collected d → s.reads d = (if config.beyond (T.depth d) then 0 else 1) ∧
    s.children d = config.listing T d
  unread : ∀ d, ¬ s.handout.Collected d → s.reads d = 0
  known : ∀ d, s.handout.Collected d → ∀ x ∈ s.childDirs d, s.Known x
  rooted : s.main = .start ∨ (∃ b, s.main = .root b) → s.pending = 0
  stopped : s.main = .stopped 0 → s.pending = 0

/-- What the nodes are after a step that reads nothing. A directory that was dropped is beyond the
depth limit. -/
theorem Complete.nodes_same (h : Complete T config s) (hchildren : s'.children = s.children)
    (hreads : s'.reads = s.reads)
    (hforward : ∀ d, s.handout.Collected d → s'.handout.Collected d)
    (hback : ∀ d, s'.handout.Collected d →
      s.handout.Collected d ∨ config.beyond (T.depth d) = true)
    (hknown : ∀ x, s.Known x → s'.Known x) :
    (∀ d, s'.handout.Collected d → s'.reads d = (if config.beyond (T.depth d) then 0 else 1) ∧
      s'.children d = config.listing T d) ∧
    (∀ d, ¬ s'.handout.Collected d → s'.reads d = 0) ∧
    ∀ d, s'.handout.Collected d → ∀ x ∈ s'.childDirs d, s'.Known x := by
  have hnew {d : ℕ} (hno : ¬ s.handout.Collected d) : s.children d = [] ∧ s.reads d = 0 :=
    ⟨h.flowing.attached.unread d hno, h.unread d hno⟩
  refine ⟨fun d hd => ?_, fun d hd => ?_, fun d hd x hx => hknown x ?_⟩
  · rw [hchildren, hreads]
    by_cases hold : s.handout.Collected d
    · exact h.read d hold
    · have hbeyond := (hback d hd).resolve_left hold
      unfold ScanConfig.listing
      rw [if_pos hbeyond, if_pos hbeyond]
      exact ⟨(hnew hold).2, (hnew hold).1⟩
  · rw [hreads]
    exact h.unread d fun hold => hd (hforward d hold)
  · unfold childDirs at hx
    rw [hchildren] at hx
    by_cases hold : s.handout.Collected d
    · exact h.known d hold x hx
    · rw [(hnew hold).1] at hx
      cases hx

/-- **What the nodes are at the end of a batch.** -/
theorem Complete.nodes_finish (h : Complete T config s) {i : Option ℕ}
    {seen : List (ℕ × Bool)} (hbatch : s.handout.batch i = seen.map Prod.fst)
    (hhonest : ∀ x ∈ seen, x.2 = !config.beyond (T.depth x.1))
    (hfits : ∀ x ∈ seen, x.2 = true → config.Fits (T.fullPath x.1) (T.entries x.1))
    (hchildren : s'.children = (s.finishBatch T config seen).children)
    (hreads : s'.reads = (s.finishBatch T config seen).reads)
    (htaken : s'.handout.taken = s.handout.taken)
    (hgone : s'.handout.batch = Function.update s.handout.batch i [])
    (hknown : ∀ x, s.Known x → s'.Known x)
    (hfound : ∀ d ∈ seen.map Prod.fst, ∀ x ∈ s'.childDirs d, s'.Known x) :
    (∀ d, s'.handout.Collected d → s'.reads d = (if config.beyond (T.depth d) then 0 else 1) ∧
      s'.children d = config.listing T d) ∧
    (∀ d, ¬ s'.handout.Collected d → s'.reads d = 0) ∧
    ∀ d, s'.handout.Collected d → ∀ x ∈ s'.childDirs d, s'.Known x := by
  have horderly := h.flowing.handout
  have hnodup := horderly.batchNodup i
  rw [hbatch] at hnodup
  -- a directory of the batch
  have hin {d : ℕ} (hd : d ∈ seen.map Prod.fst) : s'.handout.Collected d ∧
      s'.reads d = (if config.beyond (T.depth d) then 0 else 1) ∧
      s'.children d = config.listing T d := by
    have hmem : d ∈ s.handout.batch i := hbatch ▸ hd
    have hno : ¬ s.handout.Collected d := fun hno => hno.2 i hmem
    refine ⟨horderly.collected htaken hgone hmem, ?_⟩
    obtain ⟨⟨d', r⟩, hx, rfl⟩ := List.mem_map.mp hd
    obtain ⟨hc, hr⟩ := finishBatch_of_mem T config s hnodup hx
    rw [hchildren, hreads, hc, hr, h.flowing.attached.unread _ hno, h.unread _ hno]
    have hhon : r = !config.beyond (T.depth d') := hhonest _ hx
    unfold ScanConfig.listing
    dsimp only
    cases hbeyond : config.beyond (T.depth d') with
    | true =>
        rw [hbeyond] at hhon
        subst hhon
        refine ⟨rfl, ?_⟩
        rw [Bool.not_true, if_neg Bool.false_ne_true, if_pos rfl, prune_nil]
    | false =>
        rw [hbeyond] at hhon
        subst hhon
        refine ⟨rfl, ?_⟩
        rw [readEntries_of_fits (hfits _ hx rfl)]
        rfl
  -- and any other
  have hout {d : ℕ} (hd : d ∉ seen.map Prod.fst) : s'.reads d = s.reads d ∧
      s'.children d = s.children d ∧ (s'.handout.Collected d ↔ s.handout.Collected d) := by
    obtain ⟨hc, hr⟩ := finishBatch_of_notMem T config s hd
    rw [hchildren, hreads]
    refine ⟨hr, hc, ?_⟩
    unfold Handout.Collected
    rw [htaken, hgone]
    refine and_congr_right fun _ => forall_congr' fun j => not_congr ?_
    rw [Handout.mem_update]
    constructor
    · rintro (⟨-, hno⟩ | ⟨-, hj⟩)
      · cases hno
      · exact hj
    · intro hj
      refine .inr ⟨?_, hj⟩
      rintro rfl
      exact hd (hbatch ▸ hj)
  refine ⟨fun d hd => ?_, fun d hd => ?_, fun d hd x hx => ?_⟩
  · by_cases hmem : d ∈ seen.map Prod.fst
    · exact (hin hmem).2
    · obtain ⟨hr, hc, hiff⟩ := hout hmem
      rw [hr, hc]
      exact h.read d (hiff.mp hd)
  · have hmem : d ∉ seen.map Prod.fst := fun hmem => hd (hin hmem).1
    obtain ⟨hr, -, hiff⟩ := hout hmem
    rw [hr]
    exact h.unread d fun hold => hd (hiff.mpr hold)
  · by_cases hmem : d ∈ seen.map Prod.fst
    · exact hfound d hmem x hx
    · obtain ⟨-, hc, hiff⟩ := hout hmem
      refine hknown x (h.known d (hiff.mp hd) x ?_)
      unfold childDirs at hx ⊢
      rwa [hc] at hx

/-! ## Steps of a worker -/

/-- What a worker leaves known. -/
theorem Known.goes {s₁ : ScanState} {pc : WorkerPc} {x : ℕ} (hx : s.Known x)
    (hmain : s₁.main = s.main) (hworker : s₁.worker = s.worker)
    (hall : x ∈ s.handout.all → x ∈ (0 :: s₁.popped.map Prod.snd) ++ s₁.queue)
    (hfresh : x ∈ (s.worker w).pc.fresh →
      x ∈ (0 :: s₁.popped.map Prod.snd) ++ s₁.queue ∨ x ∈ pc.fresh) :
    (s₁.workerGoes w pc).Known x := by
  unfold Known
  rw [handout_goes s₁ pc hmain hworker]
  rcases hx with hx | ⟨i, hi⟩
  · exact .inl (hall hx)
  · by_cases hiw : i = some w
    · subst hiw
      rcases hfresh hi with hx | hx
      · exact .inl hx
      · exact .inr ⟨some w, Handout.mem_update.mpr (.inl ⟨rfl, hx⟩)⟩
    · exact .inr ⟨i, Handout.mem_update.mpr (.inr ⟨hiw, hi⟩)⟩

/-- What was taken, once more was popped. -/
theorem taken_append (ds : List ℕ) :
    0 :: (s.popped ++ ds.map fun d => (w, d)).map Prod.snd = s.handout.taken ++ ds := by
  have hmap : (ds.map fun d => (w, d)).map Prod.snd = ds := by
    rw [List.map_map]
    exact List.map_id _
  rw [List.map_append, hmap]
  rfl

/-- Who was through with what once a worker went on. -/
theorem goes_collected {s₁ : ScanState} {pc : WorkerPc} {d : ℕ}
    (hd : (s₁.workerGoes w pc).handout.Collected d) (hmain : s₁.main = s.main)
    (hworker : s₁.worker = s.worker) : d ∈ 0 :: s₁.popped.map Prod.snd ∧
      ∀ i, d ∉ Function.update s.handout.batch (some w) pc.batch i := by
  rw [handout_goes s₁ pc hmain hworker] at hd
  exact hd

/-- Who was through with what before. -/
theorem collected_of_goes {s₁ : ScanState} {pc : WorkerPc} {d : ℕ}
    (hd : (s₁.workerGoes w pc).handout.Collected d) (hmain : s₁.main = s.main)
    (hworker : s₁.worker = s.worker) (htaken : d ∈ s.handout.taken)
    (hbatch : d ∈ (s.worker w).pc.batch → d ∈ pc.batch) : s.handout.Collected d := by
  have hd := goes_collected hd hmain hworker
  refine ⟨htaken, fun i hi => ?_⟩
  by_cases hiw : i = some w
  · subst hiw
    exact hd.2 (some w) (Handout.mem_update.mpr (.inl ⟨rfl, hbatch hi⟩))
  · exact hd.2 i (Handout.mem_update.mpr (.inr ⟨hiw, hi⟩))

/-- The visited set changes in the first phase of a batch, and the nodes at its end. -/
theorem WorkerMoves.quiet (h : WorkerMoves T config s w a s') :
    (s'.visited = s.visited ∧ ∀ b, (s'.worker w).pc = .process b → b.seen = []) ∨
      ∃ b b' s₁, (s.worker w).pc = .process b ∧ BatchMoves T config s b s₁ b' ∧
        s' = s₁.workerGoes w (.process b') := by
  have hno {s₁ : ScanState} {pc : WorkerPc} (hpc : ∀ b, pc ≠ .process b) (b : DirBatch)
      (hb : ((s₁.workerGoes w pc).worker w).pc = .process b) : b.seen = [] := by
    rw [workerGoes_self] at hb
    exact absurd hb (hpc b)
  cases h with
  | create =>
      refine .inl ⟨rfl, fun b hb => ?_⟩
      dsimp only at hb
      rw [Function.update_self] at hb
      cases hb
  | wait hpc =>
      refine .inl ⟨rfl, fun b hb => ?_⟩
      rw [hpc] at hb
      cases hb
  | leave | discard | count | push | again | account | last | signal =>
      exact .inl ⟨rfl, hno nofun⟩
  | pop =>
      refine .inl ⟨rfl, fun b hb => ?_⟩
      rw [workerGoes_self] at hb
      cases hb
      rfl
  | @look b b' s₁ hpc hmoves => exact .inr ⟨b, b', s₁, hpc, hmoves, rfl⟩
  | @nothing b | @collect b =>
      obtain ⟨children, reads, heq⟩ := finishBatch_eq T config s b.seen
      rw [heq]
      exact .inl ⟨rfl, hno nofun⟩

/-- The directories of a batch are found at its end. -/
theorem mem_found (halloc : ∀ d, a.alloc d = true) {seen : List (ℕ × Bool)} {d x : ℕ}
    (hd : d ∈ seen.map Prod.fst) (hx : x ∈ (s.finishBatch T config seen).childDirs d) :
    x ∈ s.found T config a seen := by
  obtain ⟨y, hy, rfl⟩ := List.mem_map.mp hd
  exact List.mem_filter.mpr ⟨List.mem_flatMap.mpr ⟨y, hy, hx⟩, halloc x⟩

/-- The nodes at the end of a batch of a worker. -/
theorem Complete.workerFinish (h : Complete T config s) (hpc : (s.worker w).pc = .process b)
    (htodo : b.todo = []) (halloc : ∀ d, a.alloc d = true)
    (hcompletes : s.Completes T config (.worker w a)) {pc : WorkerPc} (hbatch : pc.batch = [])
    (hfound : ∀ x ∈ s.found T config a b.seen, x ∈ pc.fresh) :
    let s' := (s.finishBatch T config b.seen).workerGoes w pc
    (∀ d, s'.handout.Collected d → s'.reads d = (if config.beyond (T.depth d) then 0 else 1) ∧
      s'.children d = config.listing T d) ∧
    (∀ d, ¬ s'.handout.Collected d → s'.reads d = 0) ∧
    ∀ d, s'.handout.Collected d → ∀ x ∈ s'.childDirs d, s'.Known x := by
  obtain ⟨children, reads, heq⟩ := finishBatch_eq T config s b.seen
  have hmain : (s.finishBatch T config b.seen).main = s.main := by rw [heq]
  have hworker : (s.finishBatch T config b.seen).worker = s.worker := by rw [heq]
  have hqueue : (s.finishBatch T config b.seen).queue = s.queue := by rw [heq]
  have hpopped : (s.finishBatch T config b.seen).popped = s.popped := by rw [heq]
  have hhandout := handout_goes (w := w) (s.finishBatch T config b.seen) pc hmain hworker
  have hdirs : s.handout.batch (some w) = b.seen.map Prod.fst := by
    have hbatch : s.handout.batch (some w) = b.dirs := congrArg WorkerPc.batch hpc
    rw [hbatch]
    unfold DirBatch.dirs
    rw [htodo, List.append_nil]
  unfold Completes at hcompletes
  dsimp only at hcompletes
  rw [hpc] at hcompletes
  unfold DirBatch.Passes at hcompletes
  dsimp only at hcompletes
  rw [htodo] at hcompletes
  refine h.nodes_finish hdirs (h.honest w b hpc) hcompletes rfl rfl ?_ ?_ (fun x hx => ?_)
    fun d hd x hx => ?_
  · rw [hhandout, hpopped]
    rfl
  · rw [hhandout, hbatch]
  · refine hx.goes hmain hworker (fun hall => ?_) fun hin => ?_
    · rw [hqueue, hpopped]
      exact hall
    · rw [hpc] at hin
      cases hin
  · refine .inr ⟨some w, ?_⟩
    rw [hhandout]
    exact Handout.mem_update.mpr (.inl ⟨rfl, hfound x (mem_found halloc hd hx)⟩)

/-- The nodes after a step of a worker. -/
theorem Complete.workerNodes (h : Complete T config s) (hmoves : WorkerMoves T config s w a s')
    (halloc : ∀ d, a.alloc d = true) (hcompletes : s.Completes T config (.worker w a)) :
    (∀ d, s'.handout.Collected d → s'.reads d = (if config.beyond (T.depth d) then 0 else 1) ∧
      s'.children d = config.listing T d) ∧
    (∀ d, ¬ s'.handout.Collected d → s'.reads d = 0) ∧
    ∀ d, s'.handout.Collected d → ∀ x ∈ s'.childDirs d, s'.Known x := by
  have hforward (d : ℕ) (hd : s.handout.Collected d) : s'.handout.Collected d := by
    rcases workerStep_handout h.flowing.attached h.flowing.handout hmoves with heq | hstep
    · rwa [heq]
    · exact hstep.collected h.flowing.handout hd
  have hfresh {pc : WorkerPc} (hpc : (s.worker w).pc = pc) {x : ℕ}
      (hx : x ∈ (s.worker w).pc.fresh) : x ∈ pc.fresh := hpc ▸ hx
  have hbatch {pc : WorkerPc} (hpc : (s.worker w).pc = pc) {x : ℕ}
      (hx : x ∈ (s.worker w).pc.batch) : x ∈ pc.batch := hpc ▸ hx
  -- a step from a place with the same directories at hand and about to be pushed
  have hkeep {s₁ : ScanState} {pc pc' : WorkerPc} (heq : s' = s₁.workerGoes w pc')
      (hpc : (s.worker w).pc = pc) (hmain : s₁.main = s.main) (hworker : s₁.worker = s.worker)
      (hchildren : s₁.children = s.children) (hreads : s₁.reads = s.reads)
      (hqueue : s₁.queue = s.queue) (hpopped : s₁.popped = s.popped)
      (hb : pc'.batch = pc.batch) (hf : pc'.fresh = pc.fresh) :=
    h.nodes_same (show s'.children = s.children from heq ▸ hchildren)
      (by rw [heq]; exact hreads) hforward
      (fun d hd => by
        rw [heq] at hd
        refine .inl (collected_of_goes hd hmain hworker ?_ fun hin => hb ▸ hbatch hpc hin)
        have htaken := (goes_collected hd hmain hworker).1
        rw [hpopped] at htaken
        exact htaken)
      (fun x hx => by
        rw [heq]
        refine hx.goes hmain hworker (fun hall => ?_) fun hin => .inr (hf ▸ hfresh hpc hin)
        rw [hqueue, hpopped]
        exact hall)
  cases hmoves with
  | create hpc =>
      have heq :
          ({ s with worker := Function.update s.worker w { engine := a.engine, pc := .pop } } :
          ScanState).handout = s.handout := handout_same (by rw [hpc]; rfl) (by rw [hpc]; rfl)
      refine h.nodes_same rfl rfl hforward (fun d hd => .inl (heq ▸ hd)) fun x hx => ?_
      unfold Known
      rw [heq]
      exact hx
  | wait => exact h.nodes_same rfl rfl hforward (fun d hd => .inl hd) fun x hx => hx
  | leave hpc | again hpc | count hpc | account hpc | last hpc | signal hpc =>
      exact hkeep rfl hpc rfl rfl rfl rfl rfl rfl rfl rfl
  | @pop ds rest hpc hengine hqueue hds =>
      refine h.nodes_same rfl rfl hforward (fun d hd => .inl ?_) fun x hx => ?_
      · refine collected_of_goes hd rfl rfl ?_ fun hin => nomatch hbatch hpc hin
        obtain ⟨htaken, hnone⟩ := goes_collected hd rfl rfl
        dsimp only at htaken
        rw [taken_append] at htaken
        refine (List.mem_append.mp htaken).resolve_right fun hin => hnone (some w) ?_
        exact Handout.mem_update.mpr (.inl ⟨rfl, hin⟩)
      · refine hx.goes rfl rfl (fun hall => ?_) fun hin => nomatch hfresh hpc hin
        dsimp only
        rw [taken_append, List.append_assoc, ← hqueue]
        exact hall
  | @discard d rest hpc hengine hqueue =>
      unfold Completes at hcompletes
      dsimp only at hcompletes
      rw [hpc] at hcompletes
      have hbeyond : config.beyond (T.depth d) = true :=
        hcompletes hengine d (by rw [hqueue]; rfl)
      have hmap := taken_append (s := s) (w := w) [d]
      rw [List.map_singleton] at hmap
      refine h.nodes_same rfl rfl hforward (fun x hx => ?_) fun x hx => ?_
      · by_cases hxd : x = d
        · exact .inr (hxd ▸ hbeyond)
        · refine .inl (collected_of_goes hx rfl rfl ?_ fun hin => nomatch hbatch hpc hin)
          have htaken := (goes_collected hx rfl rfl).1
          dsimp only at htaken
          rw [hmap] at htaken
          exact (List.mem_append.mp htaken).resolve_right fun hin =>
            hxd (List.mem_singleton.mp hin)
      · refine hx.goes rfl rfl (fun hall => ?_) fun hin => nomatch hfresh hpc hin
        dsimp only
        rw [hmap, List.append_assoc, List.singleton_append, ← hqueue]
        exact hall
  | @look b b' s₁ hpc hbatch =>
      obtain ⟨⟨visited, rfl⟩, hdirs, -⟩ := hbatch.same
      exact hkeep rfl hpc rfl rfl rfl rfl rfl rfl hdirs rfl
  | @push n list hpc =>
      refine h.nodes_same rfl rfl hforward (fun x hx => .inl ?_) fun x hx => ?_
      · exact collected_of_goes hx rfl rfl (goes_collected hx rfl rfl).1
          fun hin => nomatch hbatch hpc hin
      · refine hx.goes rfl rfl (fun hall => ?_) fun hin => .inl ?_
        · dsimp only
          rw [← List.append_assoc]
          exact List.mem_append_left _ hall
        · exact List.mem_append_right _ (List.mem_append_right _ (hfresh hpc hin))
  | @nothing b hpc htodo hfound =>
      exact h.workerFinish hpc htodo halloc hcompletes rfl fun x hx => absurd (hfound ▸ hx)
        List.not_mem_nil
  | @collect b hpc htodo hfound =>
      exact h.workerFinish hpc htodo halloc hcompletes rfl fun x hx => hx

/-- **A step of a worker** under the condition loses nothing. -/
theorem Complete.workerStep (h : Complete T config s) (hmoves : WorkerMoves T config s w a s')
    (halloc : ∀ d, a.alloc d = true) (hcompletes : s.Completes T config (.worker w a)) :
    Complete T config s' := by
  have hframe := hmoves.frame
  have hopen := (h.flowing.started w hframe.running.1).2
  obtain ⟨hread, hunread, hknown⟩ := h.workerNodes hmoves halloc hcompletes
  have hno {m : MainPc} (hm : s.main = m) (htrue : m.isOpen = true) : False := by
    rw [hm, htrue] at hopen
    cases hopen
  have hsee : Enters T s'.visited ∧ ∀ b, (s'.worker w).pc = .process b → Honest T config b := by
    rcases hmoves.quiet with ⟨hvisited, hnew⟩ | ⟨b, b', s₁, hpc, hbatch, rfl⟩
    · refine ⟨hvisited ▸ h.enters, fun b hb x hx => ?_⟩
      rw [hnew b hb] at hx
      cases hx
    · unfold Completes at hcompletes
      dsimp only at hcompletes
      rw [hpc] at hcompletes
      obtain ⟨henters, hhonest⟩ := hbatch.complete h.enters (h.honest w b hpc) hcompletes
      refine ⟨henters, fun b₁ hb => ?_⟩
      rw [workerGoes_self] at hb
      cases hb
      exact hhonest
  refine ⟨h.flowing.workerStep hmoves, hsee.1, fun b hb => ?_, fun v b hb => ?_, hread, hunread,
    hknown, fun hm => ?_, fun hm => ?_⟩
  · rw [hframe.main] at hb
    exact h.root b hb
  · by_cases hv : v = w
    · subst hv
      exact hsee.2 b hb
    · rw [hframe.others v hv] at hb
      exact h.honest v b hb
  · rw [hframe.main] at hm
    rcases hm with hm | ⟨b, hm⟩
    · exact (hno hm rfl).elim
    · exact (hno hm rfl).elim
  · rw [hframe.main] at hm
    exact (hno hm rfl).elim

/-! ## Steps of the main thread -/

/-- What the main thread leaves known. -/
theorem Known.mainGoes {m : MainPc} {x : ℕ} (hx : s.Known x) (s₁ : ScanState)
    (hmain : s₁.main = s.main) (hpopped : s₁.popped = s.popped) (hworker : s₁.worker = s.worker)
    (hqueue : ∀ y ∈ s.queue, y ∈ s₁.queue)
    (hfresh : x ∈ s.main.fresh → x ∈ s₁.queue ∨ x ∈ m.fresh) :
    ({ s₁ with main := m } : ScanState).Known x := by
  unfold Known
  rw [handout_mainGoes s₁ m hmain hpopped hworker]
  rcases hx with hx | ⟨i, hi⟩
  · refine .inl ((List.mem_append.mp hx).elim (fun hx => ?_) fun hx => ?_)
    · exact List.mem_append_left _ hx
    · exact List.mem_append_right _ (hqueue x hx)
  · by_cases hinone : i = none
    · subst hinone
      rcases hfresh hi with hx | hx
      · exact .inl (List.mem_append_right _ hx)
      · refine .inr ⟨none, ?_⟩
        dsimp only
        rw [Function.update_self]
        exact hx
    · exact .inr ⟨i, Handout.mem_update.mpr (.inr ⟨hinone, hi⟩)⟩

/-- The nodes at the end of the batch of the root. -/
theorem Complete.mainFinish (h : Complete T config s) (hm : s.main = .root b) (htodo : b.todo = [])
    (hcompletes : s.Completes T config (.main a)) {m : MainPc} (hbatch : m.batch = [])
    (hfound : ∀ x ∈ (s.finishBatch T config b.seen).childDirs 0, x ∈ m.fresh) :
    let s' := { s.finishBatch T config b.seen with main := m }
    (∀ d, s'.handout.Collected d → s'.reads d = (if config.beyond (T.depth d) then 0 else 1) ∧
      s'.children d = config.listing T d) ∧
    (∀ d, ¬ s'.handout.Collected d → s'.reads d = 0) ∧
    ∀ d, s'.handout.Collected d → ∀ x ∈ s'.childDirs d, s'.Known x := by
  obtain ⟨children, reads, heq⟩ := finishBatch_eq T config s b.seen
  have hmain : (s.finishBatch T config b.seen).main = s.main := by rw [heq]
  have hworker : (s.finishBatch T config b.seen).worker = s.worker := by rw [heq]
  have hqueue : (s.finishBatch T config b.seen).queue = s.queue := by rw [heq]
  have hpopped : (s.finishBatch T config b.seen).popped = s.popped := by rw [heq]
  have hhandout := handout_mainGoes (s.finishBatch T config b.seen) m hmain hpopped hworker
  have hseen : b.seen.map Prod.fst = [0] := by
    have hone := h.flowing.rootBatch b hm
    unfold DirBatch.dirs at hone
    rwa [htodo, List.append_nil] at hone
  have hdirs : s.handout.batch none = b.seen.map Prod.fst := by
    have hbatch : s.handout.batch none = b.dirs := congrArg MainPc.batch hm
    rw [hbatch]
    unfold DirBatch.dirs
    rw [htodo, List.append_nil]
  unfold Completes at hcompletes
  dsimp only at hcompletes
  rw [hm] at hcompletes
  unfold DirBatch.Passes at hcompletes
  dsimp only at hcompletes
  rw [htodo] at hcompletes
  refine h.nodes_finish hdirs (h.root b hm) hcompletes rfl rfl ?_ ?_ (fun x hx => ?_)
    fun d hd x hx => ?_
  · rw [hhandout]
  · rw [hhandout, hbatch]
  · refine hx.mainGoes _ hmain hpopped hworker (fun y hy => hqueue ▸ hy) fun hin => ?_
    rw [hm] at hin
    cases hin
  · rw [hseen, List.mem_singleton] at hd
    subst hd
    refine .inr ⟨none, ?_⟩
    rw [hhandout]
    dsimp only
    rw [Function.update_self]
    exact hfound x hx

/-- The nodes after a step of the main thread. -/
theorem Complete.mainNodes (h : Complete T config s) (hmoves : MainMoves T config s a s')
    (halloc : ∀ d, a.alloc d = true) (hcompletes : s.Completes T config (.main a))
    (hstop : s'.main ≠ .stopped (-1)) :
    (∀ d, s'.handout.Collected d → s'.reads d = (if config.beyond (T.depth d) then 0 else 1) ∧
      s'.children d = config.listing T d) ∧
    (∀ d, ¬ s'.handout.Collected d → s'.reads d = 0) ∧
    ∀ d, s'.handout.Collected d → ∀ x ∈ s'.childDirs d, s'.Known x := by
  have hsame (hhandout : s'.handout = s.handout) (hchildren : s'.children = s.children)
      (hreads : s'.reads = s.reads) := by
    refine h.nodes_same hchildren hreads (fun d hd => hhandout ▸ hd)
      (fun d hd => .inl (hhandout ▸ hd)) fun x hx => ?_
    unfold Known
    rw [hhandout]
    exact hx
  cases hmoves with
  | noEngine | noThreads => exact absurd rfl hstop
  | start hm | count hm | undo hm | empty hm | seeded hm | noThread hm | fewer hm | spawned hm
  | join hm | finish hm => exact hsame (handout_main_same hm rfl rfl) rfl rfl
  | @look b b' s₁ hm hbatch =>
      obtain ⟨⟨visited, rfl⟩, hdirs, -⟩ := hbatch.same
      exact hsame (handout_main_same (s := { s with visited }) hm hdirs rfl) rfl rfl
  | @noMemory d todo hm hno => exact absurd ((halloc d).symm.trans hno) (by decide)
  | @spawn i n hm hi =>
      have hwaiting := (h.flowing.spawning i n hm).2.2 i (le_refl i)
      have hworker : ({ s with worker := Function.update s.worker i { pc := .create } } :
          ScanState).handout = s.handout :=
        handout_same (by rw [hwaiting]; rfl) (by rw [hwaiting]; rfl)
      exact hsame ((handout_main_same (s := { s with
        worker := Function.update s.worker i { pc := .create } }) hm rfl rfl).trans hworker) rfl rfl
  | @push d todo hm =>
      have hhandout := handout_mainGoes (s := s)
        { s with queue := s.queue ++ [d], pushed := s.pushed ++ [d] } (.seed todo) rfl rfl rfl
      have hself : Function.update s.handout.batch none [] = s.handout.batch := by
        rw [show ([] : List ℕ) = s.main.batch by rw [hm]; rfl]
        exact Function.update_eq_self _ _
      rw [show (MainPc.seed todo).batch = [] from rfl, hself] at hhandout
      have hcollected (x : ℕ) : ({ s with
          queue := s.queue ++ [d], pushed := s.pushed ++ [d], main := .seed todo } :
          ScanState).handout.Collected x ↔ s.handout.Collected x := by
        rw [hhandout]
        rfl
      refine h.nodes_same rfl rfl (fun x hx => (hcollected x).mpr hx)
        (fun x hx => .inl ((hcollected x).mp hx)) fun x hx => ?_
      refine hx.mainGoes { s with queue := s.queue ++ [d], pushed := s.pushed ++ [d] }
        rfl rfl rfl (fun y hy => List.mem_append_left _ hy) fun hin => ?_
      rw [hm] at hin
      rcases List.mem_cons.mp hin with rfl | hin
      · exact .inl (List.mem_append_right _ (List.mem_singleton_self _))
      · exact .inr hin
  | @nothing b hm htodo hnone =>
      exact h.mainFinish hm htodo hcompletes rfl fun x hx => absurd (hnone ▸ hx) List.not_mem_nil
  | @collect b hm htodo =>
      exact h.mainFinish hm htodo hcompletes rfl fun x hx => hx

/-- **A step of the main thread** under the condition loses nothing, unless it gives up. -/
theorem Complete.mainStep (h : Complete T config s) (hmoves : MainMoves T config s a s')
    (halloc : ∀ d, a.alloc d = true) (hcompletes : s.Completes T config (.main a))
    (hstop : s'.main ≠ .stopped (-1)) : Complete T config s' := by
  obtain ⟨hread, hunread, hknown⟩ := h.mainNodes hmoves halloc hcompletes hstop
  have hworker (v : ℕ) : s'.worker v = s.worker v ∨ (s'.worker v).pc = .create := by
    rcases hmoves.workers with heq | ⟨i, n, -, -, -, heq⟩
    · exact .inl (by rw [heq])
    · rw [heq]
      by_cases hvi : v = i
      · rw [hvi, Function.update_self]
        exact .inr rfl
      · exact .inl (Function.update_of_ne hvi _ _)
  have hvisited : Enters T s'.visited ∧ ∀ b, s'.main = .root b → Honest T config b := by
    cases hmoves with
    | start =>
        refine ⟨h.enters, fun b hb x hx => ?_⟩
        cases hb
        cases hx
    | @look b b' s₁ hm hbatch =>
        unfold Completes at hcompletes
        dsimp only at hcompletes
        rw [hm] at hcompletes
        obtain ⟨henters, hhonest⟩ := hbatch.complete h.enters (h.root b hm) hcompletes
        refine ⟨henters, fun b₁ hb => ?_⟩
        cases hb
        exact hhonest
    | @nothing b | @collect b =>
        obtain ⟨children, reads, heq⟩ := finishBatch_eq T config s b.seen
        rw [heq]
        exact ⟨h.enters, nofun⟩
    | _ => exact ⟨h.enters, nofun⟩
  refine ⟨h.flowing.mainStep hmoves, hvisited.1, hvisited.2, fun v b hb => ?_, hread, hunread,
    hknown,
    fun hm' => ?_, fun hm' => ?_⟩
  · rcases hworker v with heq | hcreate
    · rw [heq] at hb
      exact h.honest v b hb
    · rw [hcreate] at hb
      cases hb
  · cases hmoves with
    | start hm => exact h.rooted (.inl hm)
    | @look b b' s₁ hm hbatch =>
        obtain ⟨⟨visited, rfl⟩, -, -⟩ := hbatch.same
        exact h.rooted (.inr ⟨b, hm⟩)
    | _ => rcases hm' with hm' | ⟨b, hm'⟩ <;> cases hm'
  · cases hmoves with
    | @nothing b hm =>
        obtain ⟨children, reads, heq⟩ := finishBatch_eq T config s b.seen
        rw [heq]
        exact h.rooted (.inr ⟨b, hm⟩)
    | empty hm hzero => exact hzero
    | _ => cases hm'

theorem Complete.start (T : DirTree) (config : ScanConfig) : Complete T config {} := by
  have hno (d : ℕ) : ¬ ({} : ScanState).handout.Collected d := by
    rintro ⟨hd, hnone⟩
    rw [List.mem_singleton.mp hd] at hnone
    exact hnone none (List.mem_singleton_self 0)
  exact ⟨.start, .start T, fun b hb => (by cases hb), fun w b hb => (by cases hb),
    fun d hd => absurd hd (hno d), fun d _ => rfl, fun d hd => absurd hd (hno d), fun _ => rfl,
    fun hm => (by cases hm)⟩

/-- **In every run whose steps all meet the condition** nothing is lost, unless the scan gave up
before it came to the threads. -/
theorem complete_of_reachable (hs : Reachable ((scanSystem T config).restrict fun s l =>
    l.Allocates ∧ s.Completes T config l) s) : s.main = .stopped (-1) ∨ Complete T config s := by
  suffices h : Flowing T config s ∧ (s.main = .stopped (-1) ∨ Complete T config s) from h.2
  refine Reachable.invariant
    (I := fun s => Flowing T config s ∧ (s.main = .stopped (-1) ∨ Complete T config s)) ?_ ?_ hs
  · rintro s rfl
    exact ⟨.start, .inr (.start T config)⟩
  · rintro s l s' ⟨hflowing, hor⟩ ⟨⟨halloc, hcompletes⟩, hstep⟩
    refine ⟨hflowing.step hstep, ?_⟩
    cases l with
    | main a =>
        have hmoves := mainStep_moves hstep
        rcases hor with hstopped | h
        · have hnone : s.mainStep T config a = none := by
            unfold ScanState.mainStep
            rw [hstopped]
          cases hnone.symm.trans hstep
        · by_cases hstop : s'.main = .stopped (-1)
          · exact .inl hstop
          · exact .inr (h.mainStep hmoves halloc hcompletes hstop)
    | worker w a =>
        have hmoves := workerStep_moves hstep
        rcases hor with hstopped | h
        · exact .inl (hmoves.frame.main.trans hstopped)
        · exact .inr (h.workerStep hmoves halloc hcompletes)

/-! ## The end -/

/-- With the counter at 0 everybody is through with all that is known. -/
theorem Flowing.all_collected (h : Flowing T config s) (hzero : s.pending = 0)
    (hbatch : s.main.batch = []) (hfresh : s.main.fresh = []) {x : ℕ} (hx : s.Known x) :
    s.handout.Collected x := by
  obtain ⟨hqueued, hhands⟩ := h.pool.idle hzero
  have hqueue : s.queue = [] := List.length_eq_zero_iff.mp hqueued
  have hworker (v : ℕ) : (s.worker v).pc.batch = [] ∧ (s.worker v).pc.fresh = [] := by
    obtain ⟨hheld, hcounted⟩ : (s.worker v).pc.hand.held = 0 ∧ (s.worker v).pc.hand.counted = 0 :=
      hhands (some v)
    cases hpc : (s.worker v).pc with
    | process b =>
        rw [hpc] at hheld
        have hheld : b.seen.length + b.todo.length = 0 := hheld
        have hseen : b.seen = [] := List.length_eq_zero_iff.mp (by omega)
        have htodo : b.todo = [] := List.length_eq_zero_iff.mp (by omega)
        refine ⟨?_, rfl⟩
        change b.seen.map Prod.fst ++ b.todo = []
        rw [hseen, htodo]
        rfl
    | count n list =>
        rw [hpc] at hheld
        exact absurd hheld (Nat.pos_iff_ne_zero.mp (h.counting v n list hpc))
    | push n list =>
        rw [hpc] at hcounted
        exact ⟨rfl, List.length_eq_zero_iff.mp hcounted⟩
    | _ => exact ⟨rfl, rfl⟩
  have hall : s.handout.all = s.handout.taken := by
    change s.handout.taken ++ s.queue = s.handout.taken
    rw [hqueue, List.append_nil]
  refine ⟨?_, fun i hi => ?_⟩
  · rcases hx with hx | ⟨i, hi⟩
    · rwa [hall] at hx
    · cases i with
      | none =>
          change x ∈ s.main.fresh at hi
          rw [hfresh] at hi
          cases hi
      | some v =>
          change x ∈ (s.worker v).pc.fresh at hi
          rw [(hworker v).2] at hi
          cases hi
  · cases i with
    | none =>
        change x ∈ s.main.batch at hi
        rw [hbatch] at hi
        cases hi
    | some v =>
        change x ∈ (s.worker v).pc.batch at hi
        rw [(hworker v).1] at hi
        cases hi

/-- Once `scan_tree` has returned 0 the counter is 0. -/
theorem Complete.pending_zero (h : Complete T config s) (hexit : s.main.exitCode = some 0) :
    s.pending = 0 ∧ s.main.batch = [] ∧ s.main.fresh = [] := by
  cases hm : s.main with
  | stopped code =>
      rw [hm] at hexit
      cases hexit
      exact ⟨h.stopped hm, rfl, rfl⟩
  | returned code =>
      rw [hm] at hexit
      cases hexit
      exact ⟨(h.flowing.idle_of_done (h.flowing.returned hm)).2.1, rfl, rfl⟩
  | _ =>
      rw [hm] at hexit
      cases hexit

/-- A listed directory within the depth limit is in a node that was read. -/
theorem Complete.collected (h : Complete T config s)
    (hall : ∀ x, s.Known x → s.handout.Collected x) {d : ℕ} (hlisted : T.Listed config d)
    (hdepth : config.beyond (T.depth d) = false) : s.handout.Collected d := by
  induction hlisted with
  | root => exact hall 0 (.inl (List.mem_append_left _ h.flowing.handout.first))
  | @entry p d e hp he hlists hdir ih =>
      have hparent : config.beyond (T.depth p) = false := by
        rw [(T.child p e he d hdir).2.2.2] at hdepth
        unfold ScanConfig.beyond at hdepth ⊢
        cases hlimit : config.maxDepth with
        | none => rfl
        | some limit =>
            rw [hlimit] at hdepth
            have hdepth := of_decide_eq_false hdepth
            exact decide_eq_false (by omega)
      have hcollected := ih hparent
      refine hall d (h.known p hcollected d ?_)
      refine List.mem_filterMap.mpr ⟨e, ?_, hdir⟩
      rw [(h.read p hcollected).2]
      unfold ScanConfig.listing ScanConfig.prune
      rw [if_neg (by rw [hparent]; exact Bool.false_ne_true)]
      have hmem : e ∈ (T.entries p).filter config.lists := List.mem_filter.mpr ⟨he, hlists⟩
      split_ifs
      · exact List.mem_filter.mpr ⟨hmem, by rw [hdir]; rfl⟩
      · exact hmem

end ScanState

/-- **The scan is complete or says so.** In every run whose steps all meet the condition, and with
memory for the queue items: if `scan_tree` has returned 0, every listed directory within the depth
limit has had its entries read once, and the listed ones are attached to its node. -/
theorem scan_complete {T : DirTree} {config : ScanConfig} {s : ScanState}
    (hs : Reachable ((scanSystem T config).restrict fun s l =>
      l.Allocates ∧ s.Completes T config l) s) (hexit : s.main.exitCode = some 0) {d : ℕ}
    (hlisted : T.Listed config d) (hdepth : config.beyond (T.depth d) = false) :
    s.reads d = 1 ∧ s.children d = config.prune ((T.entries d).filter config.lists) := by
  rcases ScanState.complete_of_reachable hs with hstopped | h
  · rw [hstopped] at hexit
    cases hexit
  · obtain ⟨hzero, hbatch, hfresh⟩ := h.pending_zero hexit
    have hcollected := h.collected
      (fun x hx => h.flowing.all_collected hzero hbatch hfresh hx) hlisted hdepth
    obtain ⟨hreads, hchildren⟩ := h.read d hcollected
    rw [hdepth, if_neg Bool.false_ne_true] at hreads
    unfold ScanConfig.listing at hchildren
    rw [hdepth, if_neg Bool.false_ne_true] at hchildren
    exact ⟨hreads, hchildren⟩

/-! ## Two directories -/

instance (T : DirTree) (config : ScanConfig) (s : ScanState) (b : DirBatch) :
    Decidable (b.Passes T config s) := by
  unfold DirBatch.Passes ScanConfig.Fits
  split
  · refine @instDecidableForall _ _ inferInstance ?_
    split <;> infer_instance
  · infer_instance

instance (T : DirTree) (config : ScanConfig) (s : ScanState) (l : ScanLabel) :
    Decidable (s.Completes T config l) := by
  unfold ScanState.Completes
  split
  · split <;> infer_instance
  · split <;> infer_instance

/-- A root with the directories `a` and `b`. -/
def twoDirs : DirTree where
  size := 3
  entries d :=
    if d = 0 then [⟨[97], .directory, some 1⟩, ⟨[98], .directory, some 2⟩] else []
  devIno d := ⟨0, UInt64.ofNat d⟩
  fullPath d := if d = 0 then [dot] else if d = 1 then [dot, slash, 97] else [dot, slash, 98]
  depth d := if d = 0 then 0 else 1
  root_lt := by decide
  root_depth := rfl
  type_dir d e he _ := by
    split_ifs at he
    · simp only [List.mem_cons, List.not_mem_nil, or_false] at he
      rcases he with rfl | rfl <;> exact nofun
    · cases he
  child d e he d' hd' := by
    split_ifs at he with hd
    · simp only [List.mem_cons, List.not_mem_nil, or_false] at he
      subst hd
      rcases he with rfl | rfl <;> cases hd' <;> decide
    · cases he
  apart d d' x hx hx' := by
    by_cases hd : d = 0
    · by_cases hd' : d' = 0
      · rw [hd, hd']
      · rw [if_neg hd'] at hx'
        cases hx'
    · rw [if_neg hd] at hx
      cases hx
  nodup d := by
    split_ifs
    · decide
    · exact List.nodup_nil
  distinct d d' hd hd' h := by
    have hfin : ∀ i j : Fin 3, (⟨0, UInt64.ofNat i⟩ : DevIno) = ⟨0, UInt64.ofNat j⟩ → i = j := by
      decide
    exact congrArg Fin.val (hfin ⟨d, hd⟩ ⟨d', hd'⟩ h)

/-- The main thread up to the threads. -/
def seedRun (workers : ℕ) : List ScanLabel := List.replicate (15 + workers) (.main {})

/-- A worker reads both directories. -/
def oneWorkerRun : List ScanLabel :=
  seedRun 1 ++ List.replicate 22 (.worker 0 {}) ++ List.replicate 2 (.main {})

/-- The first of two workers gets no engine. -/
def noEngineRun : List ScanLabel :=
  seedRun 2 ++ List.replicate 4 (.worker 0 { engine := false }) ++
    List.replicate 14 (.worker 1 {}) ++ [.worker 0 {}] ++ List.replicate 3 (.main {})

theorem scan_complete_two : ∃ s, Reachable ((scanSystem twoDirs {}).restrict fun s l =>
    l.Allocates ∧ s.Completes twoDirs {} l) s ∧ s.main.exitCode = some 0 ∧ s.reads 1 = 1 := by
  have hrun : (execute (fun s l => if ScanState.Completes twoDirs {} s l then
      s.step twoDirs {} l else none) {} oneWorkerRun).any
      (fun s => s.main.exitCode = some 0) = true := by rfl
  obtain ⟨s, hs, hexit⟩ := (Option.any_eq_true _ _).mp hrun
  have hexit := of_decide_eq_true hexit
  have hallocates : ∀ l ∈ oneWorkerRun, l.Allocates := by
    intro l hl
    unfold oneWorkerRun seedRun at hl
    simp only [List.mem_append, List.mem_replicate] at hl
    rcases hl with (⟨-, rfl⟩ | ⟨-, rfl⟩) | ⟨-, rfl⟩ <;> exact fun _ => rfl
  have hreach : Reachable ((scanSystem twoDirs {}).restrict fun s l =>
      l.Allocates ∧ s.Completes twoDirs {} l) s :=
    ⟨{}, _, rfl, (Run.of_guarded hs).restrict_labels hallocates⟩
  have hlisted : twoDirs.Listed {} 1 :=
    .entry .root (e := ⟨[97], .directory, some 1⟩) (List.mem_cons_self) (by decide) rfl
  exact ⟨s, hreach, hexit, (scan_complete hreach hexit hlisted rfl).1⟩

/-- **A dropped directory.** The worker without an engine pops the directory `a` and drops it, the
other one reads `b`, and `scan_tree` returns 0. -/
theorem scan_incomplete : ∃ s, Reachable (scanSystem twoDirs { ncpus := 2 }) s ∧
    s.main.exitCode = some 0 ∧ (s.worker 1).engine = true ∧ twoDirs.Listed { ncpus := 2 } 1 ∧
    ScanConfig.beyond { ncpus := 2 } (twoDirs.depth 1) = false ∧ s.reads 1 = 0 := by
  have hrun : (execute (ScanState.step twoDirs { ncpus := 2 }) {} noEngineRun).any
      (fun s => s.main.exitCode = some 0 ∧ (s.worker 1).engine = true ∧ s.reads 1 = 0) = true := by
    rfl
  obtain ⟨s, hs, hfacts⟩ := (Option.any_eq_true _ _).mp hrun
  obtain ⟨hexit, hengine, hreads⟩ := of_decide_eq_true hfacts
  have hlisted : twoDirs.Listed { ncpus := 2 } 1 :=
    .entry .root (e := ⟨[97], .directory, some 1⟩) (List.mem_cons_self) (by decide) rfl
  exact ⟨s, Reachable.of_execute rfl hs, hexit, hengine, hlisted, rfl, hreads⟩

end Aura
