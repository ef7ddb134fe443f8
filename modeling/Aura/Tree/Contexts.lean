import Aura.Tree.Batch

/-!
# The contexts of a batch

Every operation in flight refers to the call of `process_dir_batch` that is running, and is counted
there, as long as no drain loop gives up on it.

* `BatchWorker.Waits` — the condition on a step.
* `BatchWorker.Inv` — the invariant of the runs whose steps all meet it.
* `batch_contexts` — in them no completion is a fault, and a step that does not meet the condition
  leads to one.
* `batch_interrupted` — the fault after an interrupt.
-/

namespace Aura

open Lib

namespace BatchOp

/-- The call of `process_dir_batch` that an operation is from. -/
def call : BatchOp → ℕ
  | openat c _ | statx c _ | close c => c

def isOpenat : BatchOp → Bool
  | openat _ _ => true
  | _ => false

def isStatx : BatchOp → Bool
  | statx _ _ => true
  | _ => false

def isClose : BatchOp → Bool
  | close _ => true
  | _ => false

end BatchOp

/-- Is the first phase over? -/
def BatchPhase.opened : BatchPhase → Bool
  | opening _ | drainOpen => false
  | _ => true

/-! ## Directories -/

namespace BatchFrame

variable {f : BatchFrame} {i : ℕ} {d : BatchDir}

/-- The children around directory `i`. -/
theorem children_eq (h : f.dirs[i]? = some d) :
    f.children = (f.dirs.take i).flatMap BatchDir.children ++
      (d.children ++ (f.dirs.drop (i + 1)).flatMap BatchDir.children) := by
  obtain ⟨hi, hd⟩ := List.getElem?_eq_some_iff.mp h
  unfold children
  rw [← List.flatMap_cons, ← List.flatMap_append, ← hd, ← List.drop_eq_getElem_cons hi,
    List.take_append_drop]

theorem children_setChildren (h : f.dirs[i]? = some d) (cs : List ℕ) :
    (f.setChildren i cs).children = (f.dirs.take i).flatMap BatchDir.children ++
      (cs ++ (f.dirs.drop (i + 1)).flatMap BatchDir.children) := by
  obtain ⟨hi, -⟩ := List.getElem?_eq_some_iff.mp h
  unfold setChildren children
  dsimp only
  rw [List.modify_eq_take_cons_drop hi, List.flatMap_append, List.flatMap_cons]

theorem children_setFd (i : ℕ) (fd : ℤ) : (f.setFd i fd).children = f.children := by
  unfold setFd children
  dsimp only
  by_cases hi : i < f.dirs.length
  · rw [List.modify_eq_take_cons_drop hi, List.flatMap_append, List.flatMap_cons]
    exact (children_eq (List.getElem?_eq_getElem hi)).symm
  · rw [List.modify_eq_self (not_lt.mp hi)]

end BatchFrame

/-! ## The invariant -/

namespace BatchWorker

variable (config : ScanConfig) (s : BatchWorker) (f : BatchFrame)

/-- **The condition on a step**: the interrupt does not end the wait for the statx operations while
one of them remains, nor the wait for the close operations, with which `process_dir_batch` returns,
while one of them or of the openat operations remains. -/
def Waits : BatchLabel → Prop
  | .go _ =>
      match s.place with
      | .batch f =>
          match f.phase with
          | .drainStatx => s.interrupted = true → s.statxRemaining = 0
          | .drainClose => s.interrupted = true → f.openRemaining = 0 ∧ f.closeRemaining = 0
          | _ => True
      | _ => True
  | _ => True

/-- The statx operations in flight. -/
def statxCount : ℕ := s.inFlight.countP BatchOp.isStatx

/-- The statx context, and the children of the directories. -/
def PhaseOk : Prop :=
  match f.phase with
  | .opening _ | .drainOpen => s.statxBatch = none ∧ s.statxCount = 0 ∧ f.children = []
  | .reading i total => s.statxBatch = none ∧ s.statxCount = 0 ∧ total = f.children.length ∧
      (∀ n ∈ f.children, n ∉ s.freed) ∧ ∀ j d, i ≤ j → f.dirs[j]? = some d → d.children = []
  | .submitStatx todo => s.statxBatch = some (s.calls, s.statxCount + todo.length) ∧
      ∀ n ∈ todo, n ∉ s.freed
  | .drainStatx => s.statxBatch = some (s.calls, s.statxCount)
  | .closing _ | .drainClose => s.statxBatch = none ∧ s.statxCount = 0

/-- Inside of `process_dir_batch`. -/
structure FrameOk : Prop where
  call : ∀ op ∈ s.inFlight, op.call = s.calls
  opens : f.openRemaining = s.inFlight.countP BatchOp.isOpenat
  closes : f.closeRemaining = s.inFlight.countP BatchOp.isClose
  drained : f.phase.opened = true → s.interrupted = false → f.openRemaining = 0
  phase : s.PhaseOk f
  live : ∀ c n, .statx c n ∈ s.inFlight → n ∉ s.freed
  bounded : ∀ n ∈ f.children, n < s.next

/-- **The invariant.** -/
structure Inv : Prop where
  fault : s.fault = false
  fresh : ∀ n ∈ s.freed, n < s.next
  outside : (∀ f, s.place ≠ .batch f) → s.inFlight = [] ∧ s.statxBatch = none
  frame : ∀ f, s.place = .batch f → s.FrameOk f

variable {config s f}

/-- The invariant inside of `process_dir_batch`. -/
theorem Inv.of_frame (hfault : s.fault = false) (hfresh : ∀ n ∈ s.freed, n < s.next)
    (hframe : s.FrameOk f) : (s.inBatch f).Inv := by
  refine ⟨hfault, hfresh, fun h => absurd rfl (h f), fun f' hf' => ?_⟩
  cases hf'
  exact ⟨hframe.call, hframe.opens, hframe.closes, hframe.drained, hframe.phase, hframe.live,
    hframe.bounded⟩

/-! ## The phases -/

/-- The first phase, for one directory. -/
theorem Inv.openDir (h : s.Inv) (hplace : s.place = .batch f) {i : ℕ}
    (hphase : f.phase = .opening i)
    (a : BatchAnswer) (d : BatchDir) : (s.openDir config a f i d).Inv := by
  have hf := h.frame f hplace
  have hok := hf.phase
  unfold PhaseOk at hok
  rw [hphase] at hok
  obtain ⟨hnone, hcount, hchildren⟩ := hok
  have hchildren' (fd : ℤ) :
      ({ f with phase := .opening (i + 1) }.setFd i fd : BatchFrame).children = [] :=
    (BatchFrame.children_setFd i fd).trans hchildren
  have hskip (fd : ℤ) :
      (s.inBatch ({ f with phase := .opening (i + 1) }.setFd i fd : BatchFrame)).Inv := by
    refine Inv.of_frame h.fault h.fresh ⟨hf.call, hf.opens, hf.closes, nofun,
      ⟨hnone, hcount, hchildren' fd⟩, hf.live, fun n hn => ?_⟩
    rw [hchildren'] at hn
    cases hn
  unfold BatchWorker.openDir
  dsimp only
  by_cases hcheck : config.beyond d.depth ∨ a.new = false
  · rw [if_pos hcheck]
    exact hskip (-1)
  · rw [if_neg hcheck]
    by_cases haccepted : a.accepted = true
    · rw [if_pos haccepted]
      refine Inv.of_frame h.fault h.fresh ⟨fun op hop => ?_, ?_, ?_, nofun,
        ⟨hnone, ?_, hchildren' (-1)⟩,
        fun c n hn => ?_, fun n hn => ?_⟩
      · rcases List.mem_cons.mp hop with rfl | hop
        · rfl
        · exact hf.call op hop
      · change f.openRemaining + 1 = _
        rw [hf.opens]
        exact (List.countP_cons_of_pos rfl).symm
      · exact hf.closes.trans (List.countP_cons_of_neg Bool.false_ne_true).symm
      · exact (List.countP_cons_of_neg Bool.false_ne_true).trans hcount
      · rcases List.mem_cons.mp hn with hn | hn
        · cases hn
        · exact hf.live c n hn
      · change n ∈ ({ f with phase := .opening (i + 1) }.setFd i (-1) : BatchFrame).children at hn
        rw [hchildren'] at hn
        cases hn
    · rw [if_neg haccepted]
      exact hskip _

/-- The drain of the openat operations ends. -/
theorem Inv.drainOpen (h : s.Inv) (hplace : s.place = .batch f) (hphase : f.phase = .drainOpen)
    (hleave : ¬ (0 < f.openRemaining ∧ s.interrupted = false)) :
    (s.inBatch { f with phase := .reading 0 0 }).Inv := by
  have hf := h.frame f hplace
  have hok := hf.phase
  unfold PhaseOk at hok
  rw [hphase] at hok
  obtain ⟨hnone, hcount, hchildren⟩ := hok
  refine Inv.of_frame h.fault h.fresh ⟨hf.call, hf.opens, hf.closes, fun _ hinterrupted => ?_,
    ⟨hnone, hcount, ?_, fun n hn => ?_, fun j d _ hd => ?_⟩, hf.live, hf.bounded⟩
  · change f.openRemaining = 0
    by_contra hne
    exact hleave ⟨Nat.pos_of_ne_zero hne, hinterrupted⟩
  · change 0 = f.children.length
    rw [hchildren]
    rfl
  · change n ∈ f.children at hn
    rw [hchildren] at hn
    cases hn
  · exact List.flatMap_eq_nil_iff.mp hchildren d (List.mem_of_getElem? hd)

/-- The second phase, for one directory. -/
theorem Inv.readDir (h : s.Inv) (hplace : s.place = .batch f) {i total : ℕ}
    (hphase : f.phase = .reading i total) (a : BatchAnswer)
    {d : BatchDir} (hd : f.dirs[i]? = some d) :
    (s.readDir config a f i total d).Inv := by
  have hf := h.frame f hplace
  have hok := hf.phase
  unfold PhaseOk at hok
  rw [hphase] at hok
  obtain ⟨hnone, hcount, htotal, hlive, hempty⟩ := hok
  have hdrained (hinterrupted : s.interrupted = false) : f.openRemaining = 0 :=
    hf.drained (by rw [hphase]; rfl) hinterrupted
  unfold BatchWorker.readDir
  by_cases hskip : d.fd < 0 ∨ pathMax ≤ d.fullPath.length + 2
  · rw [if_pos hskip]
    exact Inv.of_frame h.fault h.fresh ⟨hf.call, hf.opens, hf.closes, fun _ => hdrained,
      ⟨hnone, hcount, htotal, hlive, fun j d hj => hempty j d (by omega)⟩, hf.live, hf.bounded⟩
  · rw [if_neg hskip]
    dsimp only
    generalize (config.readEntries d.fullPath a.entries).filter a.alloc = entries
    have hnil : d.children = [] := hempty i d (le_refl i) hd
    have hold := BatchFrame.children_eq hd
    have hnew := BatchFrame.children_setChildren hd
      (d.children ++ List.range' s.next entries.length)
    rw [hnil, List.nil_append] at hold hnew ⊢
    have hmem {n : ℕ} (hn : n ∈ (f.setChildren i (List.range' s.next entries.length)).children) :
        n ∈ f.children ∨ s.next ≤ n ∧ n < s.next + entries.length := by
      rw [hnew, List.mem_append, List.mem_append] at hn
      rw [hold, List.mem_append]
      rcases hn with hn | hn | hn
      · exact Or.inl (Or.inl hn)
      · exact Or.inr (List.mem_range'_1.mp hn)
      · exact Or.inl (Or.inr hn)
    refine Inv.of_frame h.fault (fun n hn => ?_) ⟨hf.call, hf.opens, hf.closes, fun _ => hdrained,
      ⟨hnone, hcount, ?_, fun n hn => ?_, fun j d' hj hd' => ?_⟩, hf.live, fun n hn => ?_⟩
    · have hlt := h.fresh n hn
      dsimp only
      omega
    · change total + (List.range' s.next entries.length).length =
        (f.setChildren i (List.range' s.next entries.length)).children.length
      rw [hnew, htotal, hold]
      simp only [List.length_append]
      omega
    · rcases hmem hn with hn | hn
      · exact hlive n hn
      · intro hfreed
        have hlt := h.fresh n hfreed
        omega
    · have hd' : (f.dirs.modify i fun d => { d with
          children := List.range' s.next entries.length })[j]? = some d' := hd'
      rw [List.getElem?_modify] at hd'
      obtain ⟨d₀, hd₀, rfl⟩ := Option.map_eq_some_iff.mp hd'
      rw [if_neg (by omega)]
      exact hempty j d₀ (by omega) hd₀
    · dsimp only
      rcases hmem hn with hn | hn
      · have hlt := hf.bounded n hn
        omega
      · exact hn.2

/-- The third phase begins, or is skipped. -/
theorem Inv.beginStatx (h : s.Inv) (hplace : s.place = .batch f) {i total : ℕ}
    (hphase : f.phase = .reading i total) (a : BatchAnswer) : (s.beginStatx a f total).Inv := by
  have hf := h.frame f hplace
  have hok := hf.phase
  unfold PhaseOk at hok
  rw [hphase] at hok
  obtain ⟨hnone, hcount, htotal, hlive, -⟩ := hok
  have hdrained (hinterrupted : s.interrupted = false) : f.openRemaining = 0 :=
    hf.drained (by rw [hphase]; rfl) hinterrupted
  unfold BatchWorker.beginStatx
  by_cases hbegin : 0 < total ∧ a.memory = true
  · rw [if_pos hbegin]
    refine Inv.of_frame h.fault h.fresh ⟨hf.call, hf.opens, hf.closes, fun _ => hdrained,
      ⟨?_, hlive⟩, hf.live, hf.bounded⟩
    change some (s.calls, total) = some (s.calls, s.statxCount + f.children.length)
    rw [hcount, htotal, zero_add]
  · rw [if_neg hbegin]
    exact Inv.of_frame h.fault h.fresh ⟨hf.call, hf.opens, hf.closes, fun _ => hdrained,
      ⟨hnone, hcount⟩, hf.live, hf.bounded⟩

/-- The third phase, for one node. -/
theorem Inv.statxNode (h : s.Inv) (hplace : s.place = .batch f) {n : ℕ} {todo : List ℕ}
    (hphase : f.phase = .submitStatx (n :: todo)) (a : BatchAnswer) :
    (s.statxNode a f n todo).Inv := by
  have hf := h.frame f hplace
  have hok := hf.phase
  unfold PhaseOk at hok
  rw [hphase] at hok
  obtain ⟨hbatch, hlive⟩ := hok
  have hlive' (m : ℕ) (hm : m ∈ todo) : m ∉ s.freed := hlive m (List.mem_cons_of_mem _ hm)
  have hdrained (hinterrupted : s.interrupted = false) : f.openRemaining = 0 :=
    hf.drained (by rw [hphase]; rfl) hinterrupted
  unfold BatchWorker.statxNode
  dsimp only
  by_cases haccepted : a.accepted = true
  · rw [if_pos haccepted]
    refine Inv.of_frame h.fault h.fresh ⟨fun op hop => ?_, ?_, ?_, fun _ => hdrained, ⟨?_, hlive'⟩,
      fun c m hm => ?_, hf.bounded⟩
    · rcases List.mem_cons.mp hop with rfl | hop
      · rfl
      · exact hf.call op hop
    · exact hf.opens.trans (List.countP_cons_of_neg Bool.false_ne_true).symm
    · exact hf.closes.trans (List.countP_cons_of_neg Bool.false_ne_true).symm
    · change s.statxBatch = some (s.calls,
        (BatchOp.statx s.calls n :: s.inFlight).countP BatchOp.isStatx + todo.length)
      rw [hbatch, List.countP_cons_of_pos rfl, List.length_cons]
      unfold statxCount
      congr 2
      omega
    · rcases List.mem_cons.mp hm with hm | hm
      · cases hm
        exact hlive n List.mem_cons_self
      · exact hf.live c m hm
  · rw [if_neg haccepted]
    refine Inv.of_frame h.fault h.fresh ⟨hf.call, hf.opens, hf.closes, fun _ => hdrained,
      ⟨?_, hlive'⟩, hf.live, hf.bounded⟩
    change s.statxBatch.map (fun b => (b.1, b.2 - 1)) = some (s.calls, s.statxCount + todo.length)
    rw [hbatch]
    rfl

/-- The drain of the statx operations ends, with none of them in flight. -/
theorem Inv.drainStatx (h : s.Inv) (hplace : s.place = .batch f) (hphase : f.phase = .drainStatx)
    (hzero : s.statxRemaining = 0) :
    (BatchWorker.inBatch { s with statxBatch := none } { f with phase := .closing 0 }).Inv := by
  have hf := h.frame f hplace
  have hok := hf.phase
  unfold PhaseOk at hok
  rw [hphase] at hok
  unfold statxRemaining at hzero
  rw [hok] at hzero
  exact Inv.of_frame h.fault h.fresh ⟨hf.call, hf.opens, hf.closes,
    fun _ => hf.drained (by rw [hphase]; rfl), ⟨rfl, hzero⟩, hf.live, hf.bounded⟩

/-- The fourth phase, for one directory. -/
theorem Inv.closeDir (h : s.Inv) (hplace : s.place = .batch f) {i : ℕ}
    (hphase : f.phase = .closing i) (a : BatchAnswer) {d : BatchDir} (hd : f.dirs[i]? = some d) :
    (s.closeDir config a f i d).Inv := by
  have hf := h.frame f hplace
  have hok := hf.phase
  unfold PhaseOk at hok
  rw [hphase] at hok
  obtain ⟨hnone, hcount⟩ := hok
  have hdrained (hinterrupted : s.interrupted = false) : f.openRemaining = 0 :=
    hf.drained (by rw [hphase]; rfl) hinterrupted
  have hold := BatchFrame.children_eq hd
  have hpruned {n : ℕ} (hn : n ∈ s.pruned config d) : n ∈ d.children := by
    unfold pruned at hn
    split_ifs at hn
    · exact List.mem_of_mem_filter hn
    · cases hn
  have hkept {n : ℕ} (hn : n ∈ s.kept config d) : n ∈ d.children := by
    unfold kept at hn
    split_ifs at hn
    · exact List.mem_of_mem_filter hn
    · exact hn
  have hbounded {n : ℕ} (hn : n ∈ d.children) : n < s.next := by
    refine hf.bounded n ?_
    rw [hold, List.mem_append, List.mem_append]
    exact Or.inr (Or.inl hn)
  have hfresh (n : ℕ) (hn : n ∈ s.freed ++ s.pruned config d) : n < s.next :=
    (List.mem_append.mp hn).elim (h.fresh n) fun hn => hbounded (hpruned hn)
  have hnone' {c n : ℕ} (hn : .statx c n ∈ s.inFlight) : False :=
    List.countP_eq_zero.mp hcount _ hn rfl
  have hchildren (n : ℕ) (hn : n ∈ (f.setChildren i (s.kept config d)).children) : n < s.next := by
    rw [BatchFrame.children_setChildren hd, List.mem_append, List.mem_append] at hn
    rcases hn with hn | hn | hn
    · refine hf.bounded n ?_
      rw [hold, List.mem_append]
      exact Or.inl hn
    · exact hbounded (hkept hn)
    · refine hf.bounded n ?_
      rw [hold, List.mem_append, List.mem_append]
      exact Or.inr (Or.inr hn)
  unfold BatchWorker.closeDir
  dsimp only
  cases (decide (0 ≤ d.fd) && a.accepted) with
  | false =>
      exact Inv.of_frame h.fault hfresh ⟨hf.call, hf.opens, hf.closes, fun _ => hdrained,
        ⟨hnone, hcount⟩, fun c n hn => (hnone' hn).elim, hchildren⟩
  | true =>
      refine Inv.of_frame h.fault hfresh ⟨fun op hop => ?_, ?_, ?_, fun _ => hdrained, ⟨hnone, ?_⟩,
        fun c n hn => ?_, hchildren⟩
      · rcases List.mem_cons.mp hop with rfl | hop
        · rfl
        · exact hf.call op hop
      · exact hf.opens.trans (List.countP_cons_of_neg Bool.false_ne_true).symm
      · change f.closeRemaining + 1 = _
        rw [hf.closes]
        exact (List.countP_cons_of_pos rfl).symm
      · exact (List.countP_cons_of_neg Bool.false_ne_true).trans hcount
      · rcases List.mem_cons.mp hn with hn | hn
        · cases hn
        · exact (hnone' hn).elim

/-- What is in flight once `process_dir_batch` waits for the close operations. -/
theorem FrameOk.inFlight_eq_nil (hf : s.FrameOk f) (hopens : f.openRemaining = 0)
    (hcloses : f.closeRemaining = 0) (hcount : s.statxCount = 0) : s.inFlight = [] := by
  refine List.eq_nil_iff_forall_not_mem.mpr fun op hop => ?_
  cases op with
  | openat c i => exact List.countP_eq_zero.mp (hf.opens.symm.trans hopens) _ hop rfl
  | statx c n => exact List.countP_eq_zero.mp hcount _ hop rfl
  | close c => exact List.countP_eq_zero.mp (hf.closes.symm.trans hcloses) _ hop rfl

/-- `process_dir_batch` returns, with nothing in flight. -/
theorem Inv.drainClose (h : s.Inv) (hplace : s.place = .batch f) (hphase : f.phase = .drainClose)
    (hopens : f.openRemaining = 0) (hcloses : f.closeRemaining = 0) :
    Inv { s with place := .loop } := by
  have hf := h.frame f hplace
  have hok := hf.phase
  unfold PhaseOk at hok
  rw [hphase] at hok
  exact ⟨h.fault, h.fresh, fun _ => ⟨hf.inFlight_eq_nil hopens hcloses hok.2, hok.1⟩,
    fun _ hf => (nomatch hf)⟩

/-- **A step of `process_dir_batch`.** -/
theorem Inv.batchStep (h : s.Inv) (hplace : s.place = .batch f) (a : BatchAnswer)
    (hwaits : s.Waits (.go a)) : (s.batchStep config a f).Inv := by
  have hf := h.frame f hplace
  unfold Waits at hwaits
  dsimp only at hwaits
  rw [hplace] at hwaits
  dsimp only at hwaits
  unfold BatchWorker.batchStep
  cases hphase : f.phase with
  | opening i =>
      dsimp only
      cases hd : f.dirs[i]? with
      | some d => exact h.openDir hplace hphase a d
      | none =>
          have hok := hf.phase
          unfold PhaseOk at hok
          rw [hphase] at hok
          exact Inv.of_frame h.fault h.fresh
            ⟨hf.call, hf.opens, hf.closes, nofun, hok, hf.live, hf.bounded⟩
  | drainOpen =>
      dsimp only
      by_cases hwait : 0 < f.openRemaining ∧ s.interrupted = false
      · rw [if_pos hwait]
        exact h
      · rw [if_neg hwait]
        exact h.drainOpen hplace hphase hwait
  | reading i total =>
      dsimp only
      cases hd : f.dirs[i]? with
      | some d => exact h.readDir hplace hphase a hd
      | none => exact h.beginStatx hplace hphase a
  | submitStatx todo =>
      cases todo with
      | nil =>
          have hok := hf.phase
          unfold PhaseOk at hok
          rw [hphase] at hok
          exact Inv.of_frame h.fault h.fresh ⟨hf.call, hf.opens, hf.closes,
            fun _ => hf.drained (by rw [hphase]; rfl), hok.1, hf.live, hf.bounded⟩
      | cons n todo => exact h.statxNode hplace hphase a
  | drainStatx =>
      dsimp only
      rw [hphase] at hwaits
      by_cases hwait : 0 < s.statxRemaining ∧ s.interrupted = false
      · rw [if_pos hwait]
        exact h
      · rw [if_neg hwait]
        refine h.drainStatx hplace hphase ?_
        by_contra hne
        have hinterrupted : s.interrupted = true := by
          by_contra hno
          exact hwait ⟨Nat.pos_of_ne_zero hne, Bool.eq_false_of_not_eq_true hno⟩
        exact hne (hwaits hinterrupted)
  | closing i =>
      dsimp only
      cases hd : f.dirs[i]? with
      | some d => exact h.closeDir hplace hphase a hd
      | none =>
          have hok := hf.phase
          unfold PhaseOk at hok
          rw [hphase] at hok
          exact Inv.of_frame h.fault h.fresh ⟨hf.call, hf.opens, hf.closes,
            fun _ => hf.drained (by rw [hphase]; rfl), hok, hf.live, hf.bounded⟩
  | drainClose =>
      dsimp only
      rw [hphase] at hwaits
      by_cases hwait : 0 < f.closeRemaining ∧ s.interrupted = false
      · rw [if_pos hwait]
        exact h
      · rw [if_neg hwait]
        by_cases hinterrupted : s.interrupted = true
        · exact h.drainClose hplace hphase (hwaits hinterrupted).1 (hwaits hinterrupted).2
        · have hinterrupted := Bool.eq_false_of_not_eq_true hinterrupted
          refine h.drainClose hplace hphase (hf.drained (by rw [hphase]; rfl) hinterrupted) ?_
          by_contra hne
          exact hwait ⟨Nat.pos_of_ne_zero hne, hinterrupted⟩

/-- **A step of the worker.** -/
theorem Inv.go (h : s.Inv) (a : BatchAnswer) (hwaits : s.Waits (.go a)) :
    (s.go config a).Inv := by
  have houtside (hno : ∀ f, s.place ≠ .batch f) (place : BatchPlace)
    (hplace : ∀ f, place ≠ .batch f) :
      Inv { s with place } :=
    ⟨h.fault, h.fresh, fun _ => h.outside hno, fun f hf => absurd hf (hplace f)⟩
  unfold BatchWorker.go
  cases hplace : s.place with
  | loop =>
      refine houtside (by rw [hplace]; exact nofun) _ ?_
      split_ifs
      · exact nofun
      · exact nofun
  | popping =>
      have hno : ∀ f, s.place ≠ .batch f := by
        rw [hplace]
        exact nofun
      obtain ⟨hnil, hnone⟩ := h.outside hno
      dsimp only
      split_ifs with hdirs
      · exact houtside hno _ nofun
      · have hchildren : BatchFrame.children
            { dirs := (a.dirs.take dirsPerBatch).map BatchDir.fresh } = [] := by
          refine List.flatMap_eq_nil_iff.mpr fun d hd => ?_
          obtain ⟨d', -, rfl⟩ := List.mem_map.mp hd
          rfl
        refine Inv.of_frame h.fault h.fresh ⟨fun op hop => ?_, ?_, ?_, nofun,
          ⟨hnone, ?_, hchildren⟩, fun c n hn => ?_, fun n hn => ?_⟩
        · change op ∈ s.inFlight at hop
          rw [hnil] at hop
          cases hop
        · change 0 = s.inFlight.countP _
          rw [hnil]
          rfl
        · change 0 = s.inFlight.countP _
          rw [hnil]
          rfl
        · change s.inFlight.countP _ = 0
          rw [hnil]
          rfl
        · change _ ∈ s.inFlight at hn
          rw [hnil] at hn
          cases hn
        · rw [hchildren] at hn
          cases hn
  | batch f => exact h.batchStep hplace a hwaits
  | destroying => exact houtside (by rw [hplace]; exact nofun) _ nofun
  | gone =>
      have hno : ∀ f, s.place ≠ .batch f := by
        rw [hplace]
        exact nofun
      exact ⟨h.fault, fun n hn => List.mem_range.mp hn, fun _ => h.outside hno,
        fun f hf => (nomatch hf)⟩

/-! ## Completions -/

/-- An operation leaves. -/
theorem countP_erase {op : BatchOp} (hop : op ∈ s.inFlight) (p : BatchOp → Bool) :
    s.inFlight.countP p = (s.inFlight.erase op).countP p + if p op then 1 else 0 := by
  rw [(List.perm_cons_erase hop).countP_eq p, List.countP_cons]

/-- What a completion leaves as it is. -/
theorem PhaseOk.congr {t : BatchWorker} {g : BatchFrame} (h : s.PhaseOk f)
    (hbatch : t.statxBatch = s.statxBatch) (hcount : t.statxCount = s.statxCount)
    (hcalls : t.calls = s.calls) (hfreed : t.freed = s.freed) (hphase : g.phase = f.phase)
    (hchildren : g.children = f.children) (hreading : ∀ i total, f.phase ≠ .reading i total) :
    t.PhaseOk g := by
  unfold PhaseOk at h ⊢
  rw [hphase, hbatch, hcount, hcalls, hfreed, hchildren]
  cases hf : f.phase with
  | reading i total => exact absurd hf (hreading i total)
  | _ =>
      rw [hf] at h
      exact h

/-- **A completion callback finds its context.** -/
theorem Inv.deliver (h : s.Inv) {op : BatchOp} (hop : op ∈ s.inFlight) (hpolls : s.polls = true)
    (result : ℤ) (isDir : Bool) : (s.deliver op result isDir).Inv := by
  obtain ⟨f, hplace⟩ : ∃ f, s.place = .batch f := by
    by_contra hno
    rw [(h.outside fun f hf => hno ⟨f, hf⟩).1] at hop
    cases hop
  have hf := h.frame f hplace
  have hreading (i total : ℕ) : f.phase ≠ .reading i total := by
    intro hphase
    unfold polls at hpolls
    rw [hplace] at hpolls
    dsimp only at hpolls
    rw [hphase] at hpolls
    cases hpolls
  have hcall := hf.call op hop
  have hmem {op' : BatchOp} (hop' : op' ∈ s.inFlight.erase op) : op' ∈ s.inFlight :=
    List.mem_of_mem_erase hop'
  have hopens := countP_erase hop BatchOp.isOpenat
  have hcloses := countP_erase hop BatchOp.isClose
  have hstatx := countP_erase hop BatchOp.isStatx
  rw [← hf.opens] at hopens
  rw [← hf.closes] at hcloses
  unfold BatchWorker.deliver
  cases op with
  | openat call i =>
      obtain rfl : call = s.calls := hcall
      dsimp only
      rw [hplace]
      dsimp only
      rw [if_pos rfl]
      refine Inv.of_frame h.fault h.fresh ⟨fun op' hop' => hf.call op' (hmem hop'), ?_, hcloses,
        fun hopened hinterrupted => ?_, hf.phase.congr rfl hstatx.symm rfl rfl rfl
          (BatchFrame.children_setFd i result) hreading,
        fun c n hn => hf.live c n (hmem hn), fun n hn => ?_⟩
      · change f.openRemaining - 1 = _
        rw [hopens]
        rfl
      · change f.openRemaining - 1 = 0
        rw [hf.drained hopened hinterrupted]
      · change n ∈ (f.setFd i result).children at hn
        rw [BatchFrame.children_setFd] at hn
        exact hf.bounded n hn
  | close call =>
      obtain rfl : call = s.calls := hcall
      dsimp only
      rw [hplace]
      dsimp only
      rw [if_pos rfl]
      refine Inv.of_frame h.fault h.fresh ⟨fun op' hop' => hf.call op' (hmem hop'), hopens, ?_,
        hf.drained, hf.phase.congr rfl hstatx.symm rfl rfl rfl rfl hreading,
        fun c n hn => hf.live c n (hmem hn), hf.bounded⟩
      change f.closeRemaining - 1 = _
      rw [hcloses]
      rfl
  | statx call n =>
      obtain rfl : call = s.calls := hcall
      have hlive := hf.live _ n hop
      have hpos : s.statxCount ≠ 0 := fun hzero => List.countP_eq_zero.mp hzero _ hop rfl
      have hstatx :
          s.statxCount = (s.inFlight.erase (.statx s.calls n)).countP BatchOp.isStatx + 1 :=
        hstatx
      have hok := hf.phase
      unfold PhaseOk at hok
      obtain ⟨m, hbatch, hm⟩ : ∃ m, s.statxBatch = some (s.calls, m) ∧
          ∀ t : BatchWorker, t.statxBatch = some (s.calls, m - 1) → t.calls = s.calls →
            t.freed = s.freed → t.statxCount + 1 = s.statxCount → t.PhaseOk f := by
        cases hphase : f.phase with
        | submitStatx todo =>
            rw [hphase] at hok
            refine ⟨_, hok.1, fun t hbatch hcalls hfreed hcount => ?_⟩
            unfold PhaseOk
            rw [hphase, hbatch, hcalls, hfreed]
            refine ⟨?_, hok.2⟩
            congr 2
            omega
        | drainStatx =>
            rw [hphase] at hok
            refine ⟨_, hok, fun t hbatch hcalls hfreed hcount => ?_⟩
            unfold PhaseOk
            rw [hphase, hbatch, hcalls, ← hcount]
            rfl
        | opening i | drainOpen | closing i | drainClose =>
            rw [hphase] at hok
            exact absurd hok.2 (by simp [hpos])
        | reading i total => exact absurd hphase (hreading i total)
      dsimp only
      rw [hplace, hbatch]
      dsimp only
      rw [if_pos ⟨rfl, hlive⟩]
      refine ⟨h.fault, h.fresh, fun hno => absurd rfl (hno f), fun f' hf' => ?_⟩
      cases hf'
      exact ⟨fun op' hop' => hf.call op' (hmem hop'), hopens, hcloses, hf.drained,
        hm _ rfl rfl rfl hstatx.symm, fun c n' hn => hf.live c n' (hmem hn),
        hf.bounded⟩

/-- **Every step that meets the condition keeps the invariant.** -/
theorem step_inv (h : s.Inv) {l : BatchLabel} {s' : BatchWorker} (hwaits : s.Waits l)
    (hs : s.step config l = some s') : s'.Inv := by
  cases l with
  | go a =>
      cases hs
      exact h.go a hwaits
  | deliver op result isDir =>
      obtain ⟨⟨hop, hpolls⟩, rfl⟩ :
          (op ∈ s.inFlight ∧ s.polls = true) ∧ s.deliver op result isDir = s' := by
        simpa only [step, Option.ite_none_right_eq_some, Option.some.injEq] using hs
      exact h.deliver hop hpolls result isDir
  | write op =>
      obtain ⟨hop, rfl⟩ : op ∈ s.inFlight ∧ s.write op = s' := by
        simpa only [step, Option.ite_none_right_eq_some, Option.some.injEq] using hs
      cases op with
      | statx c n =>
          obtain ⟨f, hplace⟩ : ∃ f, s.place = .batch f := by
            by_contra hno
            rw [(h.outside fun f hf => hno ⟨f, hf⟩).1] at hop
            cases hop
          have hf := h.frame f hplace
          refine ⟨?_, h.fresh, h.outside, fun f' hf' => ?_⟩
          · change (s.fault || decide (n ∈ s.freed)) = false
            rw [h.fault, decide_eq_false (hf.live c n hop)]
            rfl
          · have hf' := h.frame f' hf'
            exact ⟨hf'.call, hf'.opens, hf'.closes, hf'.drained, hf'.phase, hf'.live, hf'.bounded⟩
      | openat c i => exact h
      | close c => exact h
  | interrupt =>
      cases hs
      refine ⟨h.fault, h.fresh, h.outside, fun f hf => ?_⟩
      have hf := h.frame f hf
      exact ⟨hf.call, hf.opens, hf.closes, fun _ => nofun, hf.phase, hf.live, hf.bounded⟩

/-- **In every run whose steps all meet the condition** the invariant holds. -/
theorem batchSystem_inv (hs : Reachable ((batchSystem config).restrict Waits) s) : s.Inv := by
  refine Reachable.invariant (I := Inv) (fun s hinit => ?_) (fun s l s' h hstep => ?_) hs
  · obtain rfl := hinit
    exact ⟨rfl, fun _ hn => (nomatch hn), fun _ => ⟨rfl, rfl⟩, fun _ hf => (nomatch hf)⟩
  · exact step_inv h hstep.1 hstep.2

/-! ## Without the condition -/

/-- Some operation of a kind is in flight. -/
theorem exists_of_countP {p : BatchOp → Bool} {n : ℕ} (hn : n = s.inFlight.countP p) (hne : n ≠ 0) :
    ∃ op ∈ s.inFlight, p op = true := by
  obtain ⟨op, hop, hp⟩ := List.countP_pos_iff.mp (Nat.pos_of_ne_zero (hn ▸ hne))
  exact ⟨op, hop, hp⟩

/-- After `process_dir_batch` has returned, `aura_destroy` runs the callback of an operation. -/
theorem fault_of_returned (hplace : s.place = .loop) (hinterrupted : s.interrupted = true)
    {op : BatchOp} (hop : op ∈ s.inFlight) (hkind : op.isStatx = false) :
    ∃ ls s', Run (batchSystem config) s ls s' ∧ s'.fault = true := by
  have hgo : s.step config (.go {}) = some { s with place := .destroying } := by
    change some (s.go config {}) = _
    unfold BatchWorker.go
    rw [hplace]
    dsimp only
    rw [if_pos hinterrupted]
  have hdeliver : step config { s with place := .destroying } (.deliver op 0 false) =
      some (deliver { s with place := .destroying } op 0 false) := if_pos ⟨hop, rfl⟩
  refine ⟨_, _, (Run.single (S := batchSystem config) hgo).append
    (Run.single (S := batchSystem config) hdeliver), ?_⟩
  cases op with
  | openat c i => rfl
  | statx c n => cases hkind
  | close c => rfl

/-- **A step that does not meet the condition leads to a fault.** -/
theorem Inv.fault_of_not_waits (h : s.Inv) {a : BatchAnswer} (hwaits : ¬ s.Waits (.go a)) :
    ∃ ls s', Run (batchSystem config) (s.go config a) ls s' ∧ s'.fault = true := by
  unfold Waits at hwaits
  dsimp only at hwaits
  cases hplace : s.place with
  | batch f =>
      have hf := h.frame f hplace
      have hok := hf.phase
      unfold PhaseOk at hok
      rw [hplace] at hwaits
      dsimp only at hwaits
      have hgo : s.go config a = s.batchStep config a f := by
        unfold BatchWorker.go
        rw [hplace]
      cases hphase : f.phase with
      | drainStatx =>
          rw [hphase] at hwaits hok
          dsimp only at hwaits hok
          rw [Classical.not_imp] at hwaits
          obtain ⟨hinterrupted, hne⟩ := hwaits
          have hremaining : s.statxRemaining = s.statxCount := by
            unfold statxRemaining
            rw [hok]
            rfl
          obtain ⟨op, hop, hkind⟩ := exists_of_countP hremaining hne
          have hleave : s.batchStep config a f =
              BatchWorker.inBatch { s with statxBatch := none } { f with phase := .closing 0 } := by
            unfold BatchWorker.batchStep
            rw [hphase]
            dsimp only
            rw [if_neg fun hno => by rw [hinterrupted] at hno; cases hno.2]
          rw [hgo, hleave]
          refine ⟨_, _, Run.single (S := batchSystem config) (l := .deliver op 0 false)
            (if_pos ⟨hop, rfl⟩), ?_⟩
          cases op with
          | openat c i => cases hkind
          | statx c n => rfl
          | close c => cases hkind
      | drainClose =>
          rw [hphase] at hwaits
          dsimp only at hwaits
          rw [Classical.not_imp] at hwaits
          obtain ⟨hinterrupted, hne⟩ := hwaits
          have hleave : s.batchStep config a f = { s with place := .loop } := by
            unfold BatchWorker.batchStep
            rw [hphase]
            dsimp only
            rw [if_neg fun hno => by rw [hinterrupted] at hno; cases hno.2]
          rw [hgo, hleave]
          by_cases hopens : f.openRemaining = 0
          · obtain ⟨op, hop, hkind⟩ := exists_of_countP hf.closes fun hcloses =>
              hne ⟨hopens, hcloses⟩
            refine fault_of_returned (s := { s with place := .loop }) rfl hinterrupted hop ?_
            cases op with
            | statx c n => cases hkind
            | _ => rfl
          · obtain ⟨op, hop, hkind⟩ := exists_of_countP hf.opens hopens
            refine fault_of_returned (s := { s with place := .loop }) rfl hinterrupted hop ?_
            cases op with
            | statx c n => cases hkind
            | _ => rfl
      | _ =>
          rw [hphase] at hwaits
          exact absurd trivial hwaits
  | _ =>
      rw [hplace] at hwaits
      exact absurd trivial hwaits

end BatchWorker

/-- **The contexts of a batch outlive its operations** in every run whose steps all meet the
condition: no completion callback and no write of a result is a fault. A step that does not meet it
leads to a fault. -/
theorem batch_contexts {config : ScanConfig} {s : BatchWorker}
    (hs : Reachable ((batchSystem config).restrict BatchWorker.Waits) s) :
    s.fault = false ∧ ∀ a, ¬ s.Waits (.go a) →
      ∃ ls s', Run (batchSystem config) (s.go config a) ls s' ∧ s'.fault = true :=
  ⟨(BatchWorker.batchSystem_inv hs).fault, fun _ hwaits =>
    (BatchWorker.batchSystem_inv hs).fault_of_not_waits hwaits⟩

/-- A directory that is opened, read, with a file whose statx is done, and closed. -/
def oneDirRun : List BatchLabel :=
  [.go {}, .go { dirs := [{ fullPath := [slash], depth := 0 }] },
    .go {}, .go {}, .deliver (.openat 1 0) 3 false, .go {},
    .go { entries := [{ name := [97], type := .other, dir := none }] }, .go {}, .go {}, .go {},
    .write (.statx 1 0), .deliver (.statx 1 0) 0 false, .go {}, .go {}, .go {}]

instance (s : BatchWorker) (l : BatchLabel) : Decidable (s.Waits l) := by
  unfold BatchWorker.Waits
  split
  · split
    · split <;> infer_instance
    · infer_instance
  · infer_instance

theorem batch_contexts_one : ∃ s, Reachable ((batchSystem {}).restrict BatchWorker.Waits) s ∧
    s.inFlight = [.close 1] ∧ s.fault = false := by
  have hrun : (execute (fun s l => if BatchWorker.Waits s l then s.step {} l else none)
      {} oneDirRun).any (fun s => s.inFlight = [.close 1]) = true := by rfl
  obtain ⟨s, hs, hfacts⟩ := (Option.any_eq_true _ _).mp hrun
  have hreach : Reachable ((batchSystem {}).restrict BatchWorker.Waits) s :=
    Reachable.of_guarded rfl hs
  exact ⟨s, hreach, of_decide_eq_true hfacts, (batch_contexts hreach).1⟩

/-- **After an interrupt** `process_dir_batch` returns with an openat in flight, and the callback
that `aura_destroy` runs writes to its stack frame. -/
theorem batch_interrupted : ∃ s, Reachable (batchSystem {}) s ∧ s.fault = true := by
  have hrun : (execute (BatchWorker.step {}) {}
      [.go {}, .go { dirs := [{ fullPath := [slash], depth := 0 }] }, .go {}, .go {}, .interrupt,
        .go {}, .go {}, .go {}, .go {}, .go {}, .go {}, .go {},
        .deliver (.openat 1 0) 3 false]).any BatchWorker.fault = true := by rfl
  obtain ⟨s, hs, hfault⟩ := (Option.any_eq_true _ _).mp hrun
  exact ⟨s, Reachable.of_execute rfl hs, hfault⟩

end Aura
