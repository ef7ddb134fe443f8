import Aura.Hash.Drain

/-!
# aura-hash ends

The work left (`HashCtx.work`) counts the bytes not read yet, the tasks not done and the reads in
flight; it falls at every callback. Where no completion leaves a gap, every slot is free once
nothing is in flight, and the next submission is progress.

* `hash_never_stalls`: under that condition the pipeline comes to its end in every run in which all
  reads complete.
* `hash_stalls`: a failed read before a chunk that waits in its slot.
-/

namespace Aura

open Lib

/-- The work left on a task: its bytes, its last read, its end. -/
def HashTask.work (task : HashTask) : ℕ :=
  2 * (task.fileSize - task.readOffset) + (if task.readsDone then 0 else 2) +
    if task.done then 0 else 1

namespace HashCtx

variable {c d : HashCtx} {op : HashOp} {t i n : ℕ} {a : HashAnswer} {r : ℤ} {s : Segment ℕ}

/-- The work left on the tasks. -/
def taskWork (c : HashCtx) : ℕ := ∑ t ∈ Finset.range c.totalFiles, (c.tasks t).work

/-- The work left. -/
def work (c : HashCtx) : ℕ := c.taskWork + c.inFlight.card

/-! ## The work left falls -/

theorem taskWork_add_le (hbeside : Beside t c d) (ht : t < c.totalFiles) (k : ℕ)
    (h : (d.tasks t).work + k ≤ (c.tasks t).work) : d.taskWork + k ≤ c.taskWork := by
  unfold taskWork
  rw [hbeside.totalFiles]
  refine Pipeline.sum_range_add_le k ht (fun t' ht' => ?_) h
  rw [hbeside.tasks t' ht']

theorem taskWork_le (hbeside : Beside t c d) (h : (d.tasks t).work ≤ (c.tasks t).work) :
    d.taskWork ≤ c.taskWork := by
  unfold taskWork
  rw [hbeside.totalFiles]
  refine Finset.sum_le_sum fun t' _ => ?_
  by_cases ht : t' = t
  · rw [ht]
    exact h
  · rw [hbeside.tasks t' ht]

/-- What a drain keeps of its task: the reads, and the end once it has come. -/
structure Drained (t : ℕ) (c d : HashCtx) : Prop where
  inFlight : d.inFlight = c.inFlight
  file : (d.tasks t).file = (c.tasks t).file
  fileSize : (d.tasks t).fileSize = (c.tasks t).fileSize
  readOffset : (d.tasks t).readOffset = (c.tasks t).readOffset
  readsDone : (d.tasks t).readsDone = (c.tasks t).readsDone
  done : (c.tasks t).done = true → (d.tasks t).done = true

theorem Drained.refl : Drained t c c := ⟨rfl, rfl, rfl, rfl, rfl, id⟩

theorem Drained.trans {x : HashCtx} (h : Drained t c d) (h' : Drained t d x) : Drained t c x :=
  ⟨h'.inFlight.trans h.inFlight, h'.file.trans h.file, h'.fileSize.trans h.fileSize,
    h'.readOffset.trans h.readOffset, h'.readsDone.trans h.readsDone,
    fun hdone => h'.done (h.done hdone)⟩

theorem Drained.work (h : Drained t c d) : (d.tasks t).work ≤ (c.tasks t).work := by
  unfold HashTask.work
  rw [h.fileSize, h.readOffset, h.readsDone]
  refine Nat.add_le_add_left ?_ _
  cases hdone : (c.tasks t).done with
  | true => rw [h.done hdone]
  | false =>
      rw [if_neg Bool.false_ne_true]
      split_ifs
      · exact Nat.zero_le 1
      · exact le_refl 1

theorem release_drained : Drained t c (c.release i t) := by
  have hself := release_self (c := c) (i := i) (t := t)
  refine ⟨rfl, ?_, ?_, ?_, ?_, ?_⟩
  all_goals rw [hself]
  exact id

theorem setError_drained (e : ℤ) : Drained t c (c.setError e) := by
  unfold setError
  split_ifs
  · exact ⟨rfl, rfl, rfl, rfl, rfl, id⟩
  · exact .refl

theorem drainCompleted_drained : Drained t c (c.drainCompleted t) := by
  have hloop : Drained t c (drainLoop c.config.pipelineDepth c t) := by
    refine drainLoop_rule (P := fun d => Drained t c d) (fun {d i} h _ => h.trans ?_) .refl
    have hself := feed_self (c := d) (i := i) (t := t)
    refine ⟨rfl, ?_, ?_, ?_, ?_, ?_⟩
    all_goals rw [hself]
    exact id
  refine hloop.trans ?_
  unfold drainCompleted finishTask
  split_ifs
  · refine ⟨rfl, ?_, ?_, ?_, ?_, fun _ => ?_⟩
    all_goals rw [closeTask_self]
  · exact .refl

theorem drainCompleted_beside : Beside t c (c.drainCompleted t) :=
  drainLoop_beside.trans finishTask_beside

/-- **A callback**: one read less in flight, its task drained, the others left alone. -/
theorem complete_drained (h : c.Good) (heq : complete op r c = some d) :
    op ∈ c.inFlight ∧ Beside op.task c d ∧
      Drained op.task { c with inFlight := c.inFlight.erase op } d := by
  obtain ⟨hop, -, -, f, -, hcase⟩ := complete_cases h heq
  refine ⟨hop, ?_⟩
  set x : HashCtx := { c with inFlight := c.inFlight.erase op }
  have hx : Beside op.task c x := ⟨rfl, rfl, rfl, id, fun _ _ => rfl⟩
  have hslot (y : HashCtx) : Beside op.task y (y.modifySlot op.slot f) ∧
      Drained op.task y (y.modifySlot op.slot f) :=
    ⟨⟨rfl, rfl, rfl, id, fun _ _ => rfl⟩, ⟨rfl, rfl, rfl, rfl, rfl, id⟩⟩
  rcases hcase with ⟨-, -, rfl⟩ | ⟨-, -, -, rfl⟩
  · have herr : Beside op.task x (if r < 0 then x.setError r else x) ∧
        Drained op.task x (if r < 0 then x.setError r else x) := by
      split_ifs
      · exact ⟨setError_beside r, setError_drained r⟩
      · exact ⟨.refl, .refl⟩
    exact ⟨hx.trans (herr.1.trans ((hslot _).1.trans release_beside)),
      herr.2.trans ((hslot _).2.trans release_drained)⟩
  · exact ⟨hx.trans ((hslot x).1.trans drainCompleted_beside),
      (hslot x).2.trans drainCompleted_drained⟩

/-- **Every callback is progress.** -/
theorem complete_work (h : c.Good) (heq : complete op r c = some d) : d.work < c.work := by
  obtain ⟨hop, hbeside, hdrained⟩ := complete_drained h heq
  have htasks : d.taskWork ≤ c.taskWork := taskWork_le hbeside hdrained.work
  have hcard : d.inFlight.card + 1 = c.inFlight.card := by
    rw [hdrained.inFlight]
    exact Multiset.card_erase_add_one hop
  unfold work
  omega

/-! ## Submissions add no work -/

/-- A submission did part of the work or recorded an error. -/
def Advanced (c d : HashCtx) : Prop := d.work < c.work ∨ d.work ≤ c.work ∧ d.error ≠ 0

theorem Advanced.of_le {x : HashCtx} (h : Advanced d x) (hle : d.work ≤ c.work) :
    Advanced c x :=
  h.imp (fun hlt => lt_of_lt_of_le hlt hle) fun hrest => ⟨hrest.1.trans hle, hrest.2⟩

/-- A task that is over without a read. -/
theorem close_work (hbeside : Beside t c d) (ht : t < c.totalFiles) (hun : (c.tasks t).Unread)
    (hin : d.inFlight = c.inFlight) (hsize : (d.tasks t).fileSize = (c.tasks t).fileSize)
    (hoff : (d.tasks t).readOffset = (c.tasks t).readOffset) (hreads : (d.tasks t).readsDone = true)
    (hdone : (d.tasks t).done = true) : d.work < c.work := by
  have htasks : d.taskWork + 1 ≤ c.taskWork := by
    refine taskWork_add_le hbeside ht 1 ?_
    unfold HashTask.work
    rw [hun.1, hun.2, hsize, hoff, hreads, hdone, if_pos rfl, if_pos rfl, if_neg Bool.false_ne_true,
      if_neg Bool.false_ne_true]
    omega
  unfold work
  rw [hin]
  omega

/-- A chunk has bytes, or it is the last one. -/
theorem chunk_pos_or : 0 < c.chunk t ∨ c.lastChunk t = true := by
  by_cases hlt : (c.tasks t).readOffset < (c.tasks t).fileSize
  · exact .inl (chunk_pos hlt)
  · exact .inr (decide_eq_true (by omega))

/-- A submitted read is progress, and one that fails leaves an error. -/
theorem submitRead_advanced (ht : t < c.totalFiles) (hun : (c.tasks t).Unread) :
    Advanced c (submitRead a c t i) := by
  have hle := chunk_le (c := c) (t := t)
  by_cases hans : a.read = 0
  · left
    have htasks : (submitRead a c t i).taskWork + 2 ≤ c.taskWork := by
      refine taskWork_add_le submitRead_beside ht 2 ?_
      rw [submitRead_self hans]
      unfold HashTask.work
      rw [hun.1, if_neg Bool.false_ne_true]
      dsimp only
      rw [Bool.false_or]
      rcases chunk_pos_or (c := c) (t := t) with hpos | hlast
      · split_ifs <;> omega
      · rw [if_pos hlast]
        omega
    have hcard : (submitRead a c t i).inFlight.card = c.inFlight.card + 1 := by
      unfold submitRead
      rw [if_pos hans]
      exact Multiset.card_cons _ _
    unfold work
    omega
  · right
    have hin : (submitRead a c t i).inFlight = c.inFlight := by
      unfold submitRead setError
      rw [if_neg hans]
      split_ifs <;> rfl
    refine ⟨Nat.add_le_add (taskWork_le submitRead_beside ?_) (le_of_eq (congrArg _ hin)),
      fun hzero => hans (submitRead_error hzero).1⟩
    rw [submitRead_self_of_ne hans]
    unfold HashTask.work
    rw [hun.1, if_neg Bool.false_ne_true]
    dsimp only
    rw [Bool.false_or]
    split_ifs <;> omega

/-- **A submission that finds a task to read advances**; any other one changes nothing. -/
theorem submitNextRead_advanced : Advanced c (submitNextRead a i c) ∨
    submitNextRead a i c = c ∧
      ∀ t, c.current ≤ t → t < c.totalFiles → ¬ (c.tasks t).Unread := by
  unfold submitNextRead
  refine submitFrom_rule
    (I := fun n t d => (∀ t', t ≤ t' → t' < t + n → t' < d.totalFiles) ∧
      d.totalFiles ≤ t + n ∧ d.totalFiles = c.totalFiles ∧
      (d.work < c.work ∨ d = c ∧ ∀ t', c.current ≤ t' → t' < t → ¬ (c.tasks t').Unread))
    (F := fun d => Advanced c d ∨
      d = c ∧ ∀ t, c.current ≤ t → t < c.totalFiles → ¬ (c.tasks t).Unread)
    ?_ ?_ ?_ ?_ ?_ ?_ ⟨fun t' _ hlt => by omega, by omega, rfl,
      .inr ⟨rfl, fun t' hle hlt => by omega⟩⟩
  · rintro t d ⟨-, hend, htotal, hwork | ⟨rfl, hread⟩⟩
    · exact .inl (.inl hwork)
    · exact .inr ⟨rfl, fun t' hle hlt => hread t' hle (by omega)⟩
  · rintro n t d ⟨hin, hend, htotal, hwork⟩ hpass
    refine ⟨fun t' hle hlt => hin t' (by omega) (by omega), by omega, htotal,
      hwork.imp id fun ⟨heq, hread⟩ => ⟨heq, fun t' hle hlt => ?_⟩⟩
    rcases Nat.lt_succ_iff_lt_or_eq.mp hlt with hlt | rfl
    · exact hread t' hle hlt
    · exact heq ▸ hpass
  · rintro n t d ⟨hin, hend, htotal, hwork⟩ hun - -
    have hself := skipTask_self (c := d) (t := t)
    have hlt : (d.skipTask t).work < d.work :=
      close_work skipTask_beside (hin t (le_refl t) (by omega)) hun rfl (by rw [hself])
        (by rw [hself]) (by rw [hself]) (by rw [hself])
    rw [skipTask_beside.totalFiles]
    refine ⟨fun t' hle hlt => hin t' (by omega) (by omega), by omega, htotal, .inl ?_⟩
    rcases hwork with hwork | ⟨rfl, -⟩
    · exact hlt.trans hwork
    · exact hlt
  · rintro n t d ⟨hin, hend, htotal, hwork⟩ hun - - -
    set x := d.modifyTask t fun task => { task with isOpen := true }
    have hself : (x.finishEmpty t).tasks t = _ := finishEmpty_self
    have htask : x.tasks t = _ := modifyTask_self _
    rw [htask] at hself
    have hbeside : Beside t d (x.finishEmpty t) := (modifyTask_beside _).trans finishEmpty_beside
    have hlt : (x.finishEmpty t).work < d.work :=
      close_work hbeside (hin t (le_refl t) (by omega)) hun rfl (by rw [hself])
        (by rw [hself]) (by rw [hself]) (by rw [hself])
    rw [hbeside.totalFiles]
    refine ⟨fun t' hle hlt => hin t' (by omega) (by omega), by omega, htotal, .inl ?_⟩
    rcases hwork with hwork | ⟨rfl, -⟩
    · exact hlt.trans hwork
    · exact hlt
  · rintro n t d ⟨hin, hend, htotal, hwork⟩ hun hopen
    refine .inl (Advanced.of_le (submitRead_advanced (hin t (le_refl t) (by omega)) hun) ?_)
    exact hwork.elim le_of_lt fun heq => le_of_eq (congrArg work heq.1)
  · rintro n t d ⟨hin, hend, htotal, hwork⟩ hun - - -
    set x := d.modifyTask t fun task => { task with isOpen := true }
    have htask : x.tasks t = { d.tasks t with isOpen := true } := modifyTask_self _
    have hx : x.work ≤ d.work := by
      refine Nat.add_le_add_right (taskWork_le (modifyTask_beside _) ?_) _
      rw [htask]
      exact le_refl _
    have hadvanced : Advanced x (submitRead a x t i) :=
      submitRead_advanced (hin t (le_refl t) (by omega)) (by rw [htask]; exact hun)
    refine .inl (hadvanced.of_le (hx.trans ?_))
    exact hwork.elim le_of_lt fun heq => le_of_eq (congrArg work heq.1)

theorem allTasksDone_iff : c.allTasksDone = true ↔ ∀ t < c.totalFiles, (c.tasks t).done = true := by
  unfold allTasksDone
  rw [List.all_eq_true]
  exact ⟨fun h t ht => h t (List.mem_range.mpr ht), fun h t ht => h t (List.mem_range.mp ht)⟩

/-- With all tasks done there is nothing to submit. -/
theorem submitNextRead_of_done (hdone : c.allTasksDone = true) : submitNextRead a i c = c := by
  have hun {t : ℕ} (ht : t < c.totalFiles) : ¬ (c.tasks t).Unread := by
    intro hun
    have := allTasksDone_iff.mp hdone t ht
    rw [hun.2] at this
    cases this
  unfold submitNextRead
  refine submitFrom_rule
    (I := fun n t d => (∀ t', t ≤ t' → t' < t + n → t' < c.totalFiles) ∧ d = c)
    (F := fun d => d = c) (fun h => h.2) ?_ ?_ ?_ ?_ ?_ ⟨fun t' _ hlt => by omega, rfl⟩
  · rintro n t d ⟨hin, rfl⟩ -
    exact ⟨fun t' hle hlt => hin t' (by omega) (by omega), rfl⟩
  · rintro n t d ⟨hin, rfl⟩ hun' -
    exact absurd hun' (hun (hin t (le_refl t) (by omega)))
  · rintro n t d ⟨hin, rfl⟩ hun' -
    exact absurd hun' (hun (hin t (le_refl t) (by omega)))
  · rintro n t d ⟨hin, rfl⟩ hun' -
    exact absurd hun' (hun (hin t (le_refl t) (by omega)))
  · rintro n t d ⟨hin, rfl⟩ hun' -
    exact absurd hun' (hun (hin t (le_refl t) (by omega)))

/-! ## What is read -/

/-- A submission leaves the other slots, the files and what arrived alone. -/
structure Quiet (i : ℕ) (c d : HashCtx) : Prop where
  files : d.files = c.files
  totalFiles : d.totalFiles = c.totalFiles
  file : ∀ t, (d.tasks t).file = (c.tasks t).file
  fed : ∀ t, (d.tasks t).fed = (c.tasks t).fed ∧ (d.tasks t).hashOffset = (c.tasks t).hashOffset
  slots : ∀ j, j ≠ i → d.slots j = c.slots j

theorem Quiet.refl : Quiet i c c := ⟨rfl, rfl, fun _ => rfl, fun _ => ⟨rfl, rfl⟩, fun _ _ => rfl⟩

theorem Quiet.trans {x : HashCtx} (h : Quiet i c d) (h' : Quiet i d x) : Quiet i c x :=
  ⟨h'.files.trans h.files, h'.totalFiles.trans h.totalFiles,
    fun t => (h'.file t).trans (h.file t),
    fun t => ⟨(h'.fed t).1.trans (h.fed t).1, (h'.fed t).2.trans (h.fed t).2⟩,
    fun j hj => (h'.slots j hj).trans (h.slots j hj)⟩

/-- A change to one task that leaves its file and its digest alone. -/
theorem quiet_of_beside (hbeside : Beside t c d) (hslots : d.slots = c.slots)
    (hfile : (d.tasks t).file = (c.tasks t).file) (hfed : (d.tasks t).fed = (c.tasks t).fed)
    (hoff : (d.tasks t).hashOffset = (c.tasks t).hashOffset) : Quiet i c d := by
  refine ⟨hbeside.files, hbeside.totalFiles, fun t' => ?_, fun t' => ?_,
    fun j _ => congrFun hslots j⟩
  · by_cases ht : t' = t
    · rw [ht, hfile]
    · rw [hbeside.tasks t' ht]
  · by_cases ht : t' = t
    · rw [ht, hfed, hoff]
      exact ⟨rfl, rfl⟩
    · rw [hbeside.tasks t' ht]
      exact ⟨rfl, rfl⟩

theorem open_quiet : Quiet i c (c.modifyTask t fun task => { task with isOpen := true }) := by
  have hself := modifyTask_self (c := c) (t := t) fun task => { task with isOpen := true }
  refine quiet_of_beside (modifyTask_beside _) rfl ?_ ?_ ?_
  all_goals rw [hself]

theorem skipTask_quiet : Quiet i c (c.skipTask t) := by
  refine quiet_of_beside skipTask_beside rfl ?_ ?_ ?_
  all_goals rw [skipTask_self]

theorem finishEmpty_quiet : Quiet i c (c.finishEmpty t) := by
  refine quiet_of_beside finishEmpty_beside rfl ?_ ?_ ?_
  all_goals rw [finishEmpty_self]

theorem submitRead_quiet : Quiet i c (submitRead a c t i) := by
  have hself : ((submitRead a c t i).tasks t).file = (c.tasks t).file ∧
      ((submitRead a c t i).tasks t).fed = (c.tasks t).fed ∧
      ((submitRead a c t i).tasks t).hashOffset = (c.tasks t).hashOffset := by
    by_cases hans : a.read = 0
    · rw [submitRead_self hans]
      exact ⟨rfl, rfl, rfl⟩
    · rw [submitRead_self_of_ne hans]
      exact ⟨rfl, rfl, rfl⟩
  refine ⟨submitRead_beside.files, submitRead_beside.totalFiles, fun t' => ?_, fun t' => ?_,
    fun j hj => ?_⟩
  · by_cases ht : t' = t
    · rw [ht, hself.1]
    · rw [submitRead_of_ne ht]
  · by_cases ht : t' = t
    · rw [ht]
      exact hself.2
    · rw [submitRead_of_ne ht]
      exact ⟨rfl, rfl⟩
  · have htake : (c.takeChunk t i).slots j = c.slots j := Function.update_of_ne hj _ _
    unfold submitRead setError
    split_ifs
    · exact htake
    · exact (Function.update_of_ne hj _ _).trans htake
    · exact (Function.update_of_ne hj _ _).trans htake

theorem submitNextRead_quiet : Quiet i c (submitNextRead a i c) := by
  unfold submitNextRead
  refine submitFrom_rule (I := fun _ _ d => Quiet i c d) (F := fun d => Quiet i c d) (fun h => h)
    (fun h _ => h) (fun h _ _ _ => h.trans skipTask_quiet)
    (fun h _ _ _ _ => h.trans (open_quiet.trans finishEmpty_quiet))
    (fun h _ _ => h.trans submitRead_quiet)
    (fun h _ _ _ _ => h.trans (open_quiet.trans submitRead_quiet)) .refl

/-- What arrived is part of its file. -/
def Inside (c : HashCtx) : Prop :=
  ∀ i s, c.window.slots i = some s → s.arrived = true →
    s.offset + s.len ≤ (c.files (c.tasks s.stream).file).size

/-- A submission puts no bytes into its slot. -/
theorem submitNextRead_arrived (hfree : c.window.slots i = none) {j : ℕ}
    (hs : (submitNextRead a i c).window.slots j = some s) (harr : s.arrived = true) :
    j ≠ i ∧ c.window.slots j = some s := by
  have hslot : ∀ s, (submitNextRead a i c).window.slots i = some s → s.arrived = false := by
    unfold submitNextRead
    refine submitFrom_rule (I := fun _ _ d => d.window.slots i = none)
      (F := fun d => ∀ s, d.window.slots i = some s → s.arrived = false) ?_ (fun h _ => h)
      ?_ ?_ ?_ ?_ hfree
    · intro t c h s hs
      rw [h] at hs
      cases hs
    · intro n t c h _ _ _
      rw [window_skipTask]
      exact h
    · intro n t c h _ _ _ _
      rw [window_finishEmpty, window_modifyTask (fun task => { task with isOpen := true }) rfl rfl]
      exact h
    · intro n t c h _ _ s hs
      rw [window_submitRead h] at hs
      split_ifs at hs
      · obtain rfl := Option.some.inj (Lib.Window.reserve_slot.symm.trans hs)
        rfl
      · rw [h] at hs
        cases hs
    · intro n t c h _ _ _ _ s hs
      rw [window_submitRead] at hs
      · rw [window_modifyTask (fun task => { task with isOpen := true }) rfl rfl] at hs
        split_ifs at hs
        · obtain rfl := Option.some.inj (Lib.Window.reserve_slot.symm.trans hs)
          rfl
        · rw [h] at hs
          cases hs
      · rw [window_modifyTask (fun task => { task with isOpen := true }) rfl rfl]
        exact h
  have hne : j ≠ i := by
    rintro rfl
    rw [hslot s hs] at harr
    cases harr
  refine ⟨hne, ?_⟩
  change ((submitNextRead a i c).slots j).segment = some s at hs
  rw [submitNextRead_quiet.slots j hne] at hs
  exact hs

/-- A drain only empties slots. -/
theorem drainCompleted_segments {j : ℕ} (hs : (c.drainCompleted t).window.slots j = some s) :
    c.window.slots j = some s := by
  unfold drainCompleted at hs
  rw [window_finishTask] at hs
  refine drainLoop_rule (P := fun d => d.window.slots j = some s → c.window.slots j = some s)
    (fun {d i} h _ hj => ?_) (fun hj => hj) hs
  rw [window_feed] at hj
  exact h (Lib.Window.eq_of_clear (w := d.window) hj).2

/-- What waits after a callback waited before, or was just read. -/
theorem complete_arrived (h : c.Good) (heq : complete op r c = some d) {j : ℕ}
    (hs : d.window.slots j = some s) (harr : s.arrived = true) :
    (j ≠ op.slot ∧ c.window.slots j = some s) ∨
      (j = op.slot ∧ s = ⟨op.task, op.offset, r.toNat, true⟩ ∧
        op.offset + r.toNat ≤ (c.files (c.tasks op.task).file).size) := by
  obtain ⟨hop, -, hsize, f, hf, hcase⟩ := complete_cases h heq
  obtain ⟨-, hwin⟩ := arrive_good h hop f hf
  rcases hcase with ⟨-, -, rfl⟩ | ⟨hpos, hbytes, -, rfl⟩
  · rw [window_release] at hs
    obtain ⟨hne, hold⟩ := Lib.Window.eq_of_clear (w := window _) hs
    refine .inl ⟨hne, ?_⟩
    set x := if r < 0 then setError { c with inFlight := c.inFlight.erase op } r
      else { c with inFlight := c.inFlight.erase op } with hx
    have hslot : (x.modifySlot op.slot f).slots j = x.slots j := Function.update_of_ne hne _ _
    have hslots : x.slots = c.slots := by
      rw [hx]
      unfold setError
      split_ifs <;> rfl
    change ((x.modifySlot op.slot f).slots j).segment = some s at hold
    rw [hslot, hslots] at hold
    exact hold
  · have hy := drainCompleted_segments hs
    rw [hwin, hbytes] at hy
    rcases Lib.Window.eq_of_update (w := c.window) hy with ⟨hj, hnew⟩ | ⟨hne, hold⟩
    · obtain rfl := Option.some.inj hnew
      exact .inr ⟨hj, rfl, hsize hpos⟩
    · exact .inl ⟨hne, hold⟩

/-! ## Runs -/

/-- The condition on a step: no completion leaves a gap. -/
def KeepsFlowing (c : HashCtx) : PipelineAct HashAnswer HashOp → Prop
  | .submit _ _ => True
  | .complete _ op r => c.LeavesNoGap op r

/-- Nothing is in flight, but operations still count as active, or no error was recorded, no read is
left to submit and a task is not done: neither loop can end. -/
def Stalled (c : HashCtx) : Prop :=
  c.inFlight = 0 ∧ (0 < c.activeOps ∨
    c.error = 0 ∧ (∀ t < c.totalFiles, ¬ (c.tasks t).Unread) ∧
      ∃ t < c.totalFiles, (c.tasks t).done = false)

/-- **Once nothing is in flight every slot is free.** -/
theorem Flows.eq_none (h : c.Flows) (hidle : ∀ op, op ∉ c.inFlight) (i : ℕ) :
    c.window.slots i = none := by
  refine Lib.Window.eq_none_of_idle h.ordered h.gapless h.waits (fun j s hj => ?_) i
  by_contra hno
  obtain ⟨op, hop, -⟩ := h.good.reading hj (Bool.eq_false_of_not_eq_true hno)
  exact hidle op hop

theorem Flows.active_eq_zero (h : c.Flows) (hidle : ∀ op, op ∉ c.inFlight) (t : ℕ) :
    c.activeOps = 0 ∧ (c.tasks t).activeOps = 0 := by
  rw [h.good.active, h.good.taskActive, Lib.Window.count_eq_zero, Lib.Window.count_eq_zero]
  · exact ⟨rfl, rfl⟩
  · intro i _
    rw [h.eq_none hidle i, Option.any_none]
  · intro i _
    rw [h.eq_none hidle i, Option.any_none]

/-- Then a task that is not done is to be read. -/
theorem Flows.unread (h : c.Flows) (hidle : ∀ op, op ∉ c.inFlight) (hzero : c.error = 0)
    (ht : t < c.totalFiles) (hdone : (c.tasks t).done = false) :
    c.current ≤ t ∧ (c.tasks t).Unread := by
  have hreads : (c.tasks t).readsDone = false := by
    by_contra hread
    exact h.live hzero t ht (Bool.eq_true_of_not_eq_false hread) hdone (h.active_eq_zero hidle t).2
  refine ⟨?_, hreads, hdone⟩
  by_contra hlt
  have hread := h.good.behind t (not_le.mp hlt)
  rw [hreads] at hread
  cases hread

theorem Flows.not_stalled (h : c.Flows) : ¬ c.Stalled := by
  rintro ⟨hnone, hcase⟩
  have hidle (op : HashOp) : op ∉ c.inFlight := by
    rw [hnone]
    exact Multiset.notMem_zero op
  rcases hcase with hpos | ⟨hzero, hread, t, ht, hdone⟩
  · have hactive := (h.active_eq_zero hidle 0).1
    omega
  · exact hread t ht (h.unread hidle hzero ht hdone).2

theorem setError_flows (h : c.Flows) (e : ℤ) : (c.setError e).Flows := by
  refine ⟨setError_good h.good e, ?_, fun t => ?_, ?_, fun hzero => ?_⟩
  · rw [window_setError]
    exact h.ordered
  · rw [window_setError]
    exact h.waits t
  · rw [window_setError]
    exact h.gapless
  · have hbeside : Beside 0 c (c.setError e) := setError_beside e
    rw [setError_tasks, hbeside.totalFiles]
    exact h.live (hbeside.error hzero)

theorem Inside.setError (h : c.Inside) (e : ℤ) : (c.setError e).Inside := by
  unfold HashCtx.setError
  split_ifs
  · exact h
  · exact h

theorem Inside.submit (h : c.Inside) (hfree : (c.slots i).state = .free) :
    (submitNextRead a i c).Inside := by
  intro j s hs harr
  obtain ⟨-, hold⟩ := submitNextRead_arrived (if_pos hfree) hs harr
  rw [submitNextRead_quiet.files, submitNextRead_quiet.file]
  exact h j s hold harr

theorem Inside.complete (h : c.Inside) (hgood : c.Good) (heq : complete op r c = some d) :
    d.Inside := by
  obtain ⟨-, hbeside, hdrained⟩ := complete_drained hgood heq
  have hfile (t : ℕ) : (d.tasks t).file = (c.tasks t).file := by
    by_cases ht : t = op.task
    · rw [ht]
      exact hdrained.file
    · rw [hbeside.tasks t ht]
  intro j s hs harr
  rw [hbeside.files, hfile]
  rcases complete_arrived hgood heq hs harr with ⟨-, hold⟩ | ⟨-, rfl, hsize⟩
  · exact h j s hold harr
  · exact hsize

theorem flows_keeps (config : HashConfig) :
    (hashPipeline config).Keeps KeepsFlowing fun c => c.Flows ∧ c.Inside ∧ c.config = config where
  submit {c a i} h hi hfree _ _ := by
    have hfree' : (c.slots i).state = .free := of_decide_eq_true hfree
    obtain ⟨hflows, hinside, rfl⟩ := h
    refine ⟨submitNextRead_flows hflows hi hfree', hinside.submit hfree', ?_⟩
    change (submitNextRead a i c).config = c.config
    unfold submitNextRead
    exact submitFrom_rule (I := fun _ _ d => d.config = c.config)
      (F := fun d => d.config = c.config)
      (fun h => h) (fun h _ => h) (fun h _ _ _ => h) (fun h _ _ _ _ => h)
      (fun h _ _ => submitRead_config.trans h) (fun h _ _ _ _ => submitRead_config.trans h) rfl
  complete {c d a op r} h hok heq := by
    obtain ⟨hflows, hinside, rfl⟩ := h
    exact ⟨complete_flows hflows hok heq, hinside.complete hflows.good heq,
      (complete_drained hflows.good heq).2.1.config⟩
  setError {c e} h := by
    obtain ⟨hflows, hinside, rfl⟩ := h
    exact ⟨setError_flows hflows e, hinside.setError e, (setError_beside (t := 0) e).config⟩
  others hj := congrArg (fun slot : HashSlot => decide (slot.state = .free))
    (submitNextRead_quiet.slots _ hj)

/-- A read in flight can complete without a gap: in full where a later chunk waits, with an error
otherwise. -/
theorem Flows.can_complete (h : c.Flows) (hinside : c.Inside) (hop : op ∈ c.inFlight) :
    ∃ r d, c.LeavesNoGap op r ∧ complete op r c = some d := by
  have hs := h.good.ops op hop
  by_cases hwait : c.NoneWaits op
  · refine ⟨-1, _, ⟨fun hpos => (by omega), fun _ => hwait, fun hzero => (by omega)⟩,
      if_pos ⟨hop, ?_⟩⟩
    exact Bool.and_eq_true_iff.mpr ⟨decide_eq_true (by omega), decide_eq_true (by omega)⟩
  · unfold NoneWaits at hwait
    push Not at hwait
    obtain ⟨i, hi, hstate, htask, hlt⟩ := hwait
    have hseg : c.window.slots i = some ⟨op.task, (c.slots i).offset, (c.slots i).bytes, true⟩ := by
      refine (HashSlot.segment_eq (by rw [hstate]; exact fun heq => (by cases heq)) htask).trans ?_
      rw [decide_eq_true hstate]
    have hreach := h.gapless i _ hseg rfl
    have hne : op.slot ≠ i := by
      rintro rfl
      rw [hs] at hseg
      have harr : false = true := congrArg Segment.arrived (Option.some.inj hseg)
      cases harr
    have hsize := hinside i _ hseg rfl
    have hbetween := h.ordered.apart hne hs hseg rfl
    have hpos := h.ordered.pos hseg
    have hlen := h.ordered.pos hs
    refine ⟨op.len, _, ⟨fun _ => hreach.mono (le_of_lt hlt), fun hno => absurd rfl hno,
      fun hzero => ?_⟩, if_pos ⟨hop, ?_⟩⟩
    · have hlen' : 0 < op.len := hlen
      omega
    · refine Bool.and_eq_true_iff.mpr ⟨decide_eq_true (le_refl _), decide_eq_true ?_⟩
      have hbetween' : op.offset + op.len ≤ (c.slots i).offset ∨
          (c.slots i).offset + (c.slots i).bytes ≤ op.offset := hbetween
      have hsize' : (c.slots i).offset + (c.slots i).bytes ≤
          (c.files (c.tasks op.task).file).size := hsize
      omega

theorem hash_progress (config : HashConfig) :
    (hashPipeline config).Progress KeepsFlowing
      (fun c => c.Flows ∧ c.Inside ∧ c.config = config) (fun c op => op ∈ c.inFlight) work where
  depth_pos := config.depth_range.1
  alive h := h.1.good.alive
  active {c} h hpos := by
    by_contra hno
    have hactive := (h.1.active_eq_zero (fun op hop => hno ⟨op, hop⟩) 0).1
    have hpos' : 0 < c.activeOps := hpos
    omega
  complete_lt h _ heq := complete_work h.1.good heq
  submit_le _ _ _ _ := by
    rcases submitNextRead_advanced with h | ⟨h, -⟩
    · exact h.elim le_of_lt fun hrest => hrest.1
    · exact le_of_eq (congrArg work h)
  setError_le {c e} := by
    change (c.setError e).work ≤ c.work
    unfold setError
    split_ifs <;> exact le_refl _
  setError_of_ne hne := if_neg hne
  setError_ne he := setError_error_ne he
  idle_free h hidle _ := decide_eq_true (h.1.good.free _ (h.1.eq_none hidle _))
  idle_submit {c a i} h hidle hzero hdone _ _ := by
    have hnot : ¬ ∀ t < c.totalFiles, (c.tasks t).done = true := fun hall => by
      have htrue := allTasksDone_iff.mpr hall
      rw [show c.allTasksDone = false from hdone] at htrue
      cases htrue
    push Not at hnot
    obtain ⟨t, ht, hdone⟩ := hnot
    obtain ⟨hle, hun⟩ := h.1.unread hidle hzero ht (Bool.eq_false_of_not_eq_true hdone)
    rcases submitNextRead_advanced with hadv | ⟨-, hread⟩
    · exact hadv.imp id fun hrest => hrest.2
    · exact absurd hun (hread t hle ht)
  done_submit _ hdone := submitNextRead_of_done hdone
  can_submit _ _ := ⟨{}, trivial⟩
  can_complete h hop := by
    obtain ⟨r, d, hok, heq⟩ := h.1.can_complete h.2.1 hop
    exact ⟨{}, r, d, hok, heq⟩

theorem start_flows (config : HashConfig) (files : ℕ → ByteFile UInt8) (sources : List (ℕ × ℕ)) :
    (start config files sources).Flows ∧ (start config files sources).Inside := by
  have hnone (i : ℕ) : (start config files sources).window.slots i = none := rfl
  have habsurd {P : Prop} {i : ℕ} {s : Segment ℕ}
      (hs : (start config files sources).window.slots i = some s) : P := by
    rw [hnone] at hs
    cases hs
  refine ⟨⟨⟨rfl, fun _ _ => rfl, habsurd, fun op hop => absurd hop (Multiset.notMem_zero op),
    Multiset.nodup_zero, fun hs _ => habsurd hs, ?_, fun t => ?_, habsurd, fun t => ?_,
    fun t ht => absurd ht (Nat.not_lt_zero t)⟩, ⟨habsurd, habsurd, habsurd, fun _ hs => habsurd hs,
    fun t => le_refl _⟩, fun t i s hs => habsurd hs, fun i s hs => habsurd hs,
    fun _ t _ hreads => (by cases hreads)⟩, fun i s hs => habsurd hs⟩
  · rw [Lib.Window.count_eq_zero fun i _ => by rw [hnone, Option.any_none]]
    rfl
  · rw [Lib.Window.count_eq_zero fun i _ => by rw [hnone, Option.any_none]]
    rfl
  · exact ⟨fun hdone => (by cases hdone), fun _ _ => rfl, fun _ hopen => (by cases hopen)⟩

end HashCtx

/-- Every read that is in flight completes at some time. -/
def ReadsComplete (f : ℕ → PipelineState HashCtx) (l : ℕ → PipelineLabel HashAnswer HashOp) :
    Prop :=
  ∀ n, ∀ op ∈ (f n).core.inFlight, ∃ m ≥ n, ∃ a r, l m = .complete a op r

/-- **aura-hash never stalls** where no completion leaves a gap: no reachable state is stalled,
before the end a step is possible, and no run in which all reads complete goes on for ever. -/
theorem hash_never_stalls (config : HashConfig) (files : ℕ → ByteFile UInt8)
    (sources : List (ℕ × ℕ)) :
    (∀ s, Reachable (((hashPipeline config).system
        (HashCtx.start config files sources)).restrict
          ((hashPipeline config).Allows HashCtx.KeepsFlowing)) s →
      ¬ s.core.Stalled ∧ (s.pc ≠ .returned → ∃ l s', l ≠ .interrupt ∧
        (hashPipeline config).Allows HashCtx.KeepsFlowing s l ∧
          (hashPipeline config).step s l = some s')) ∧
    ∀ f l, InfiniteRun (((hashPipeline config).system
        (HashCtx.start config files sources)).restrict
          ((hashPipeline config).Allows HashCtx.KeepsFlowing)) f l → ¬ ReadsComplete f l := by
  have hkeeps := HashCtx.flows_keeps config
  have hprogress := HashCtx.hash_progress config
  obtain ⟨hflows, hinside⟩ := HashCtx.start_flows config files sources
  have hstart := And.intro hflows (And.intro hinside (show
    (HashCtx.start config files sources).config = config from rfl))
  refine ⟨fun s hs => ?_, fun f l hrun hfair => ?_⟩
  · have hkept := hkeeps.reachable hstart (fun _ _ => rfl) hs
    exact ⟨hkept.1.1.not_stalled, fun hpc => hprogress.enabled hkept hpc⟩
  · exact hprogress.terminates hkeeps hstart (fun _ _ => rfl) hrun hfair

/-- Two slots, chunks of a byte. -/
def twoSlots : HashConfig where
  chunkSize := 1
  pipelineDepth := 2
  chunk_pos := Nat.one_pos
  depth_range := by decide

/-- A file of two bytes. -/
def twoByteFile : ByteFile UInt8 := ByteFile.empty.write 0 (fun _ => 7) 2

/-- The second byte is read, and the read of the first one fails: the second waits for ever, and the
last loop for it. -/
theorem hash_stalls :
    ∃ s, Reachable ((hashPipeline twoSlots).system
        (HashCtx.start twoSlots (fun _ => twoByteFile) [(1, 2)])) s ∧
      s.core.Stalled ∧ s.pc = .drain ∧
      ∀ a, (hashPipeline twoSlots).step s (.run a) = none := by
  have hrun : (execute (hashPipeline twoSlots).step
      { core := HashCtx.start twoSlots (fun _ => twoByteFile) [(1, 2)] }
      [.run {}, .run {}, .run {}, .run {},
        .complete {} { slot := 1, task := 0, offset := 1, len := 1 } 1,
        .complete {} { slot := 0, task := 0, offset := 0, len := 1 } (-5),
        .waitReturns 0, .run {}, .run {}, .run {}, .run {}]).isSome = true := by decide
  obtain ⟨s, hs⟩ := Option.isSome_iff_exists.mp hrun
  refine ⟨s, Reachable.of_execute rfl hs, ?_, ?_, fun a => ?_⟩
  · obtain rfl := Option.some.inj hs
    exact ⟨by decide, .inl (by decide)⟩
  · obtain rfl := Option.some.inj hs
    decide
  · obtain rfl := Option.some.inj hs
    rfl

end Aura
