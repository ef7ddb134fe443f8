import Aura.Copy.Slots

/-!
# The copy pipeline ends

The work left (`CopyCtx.work`) counts the bytes not read yet, the tasks not done and the operations
in flight; it falls at every callback. `CopyCtx.Live` says that a task whose reads were all
submitted has an operation in flight until it is done. A read without bytes breaks it where it is
the last operation of such a task, since its callback does not look whether the task is complete.

* `copy_never_stalls`: without such a read, and with one operation on a slot, the pipeline comes to
  its end in every run in which all operations complete.
* `copy_stalls`: a file that lost its only byte since it was listed.
-/

namespace Aura

open Lib

/-- The work left on a task: its bytes, its last read, its end. -/
def FileTask.work (task : FileTask) : ℕ :=
  4 * (task.fileSize - task.readOffset) + (if task.readsDone then 0 else 4) +
    if task.done then 0 else 1

/-- The work left on an operation, with those that its callback may start. -/
def CopyKind.work : CopyKind → ℕ
  | .read => 3
  | .write => 2
  | .fsync => 1

namespace CopyCtx

variable {c d : CopyCtx} {op : CopyOp} {t i n : ℕ} {a : CopyAnswer} {r : ℤ}

/-- The work left on the operations in flight. -/
def opWork (c : CopyCtx) : ℕ := (c.inFlight.map fun op => op.kind.work).sum

/-- The work left on the tasks. -/
def taskWork (c : CopyCtx) : ℕ := ∑ t ∈ Finset.range c.totalFiles, (c.tasks t).work

/-- The work left. -/
def work (c : CopyCtx) : ℕ := c.taskWork + c.opWork

/-! ## The work left falls -/

/-- Tasks on which no work was added. -/
theorem taskWork_le (htotal : d.totalFiles = c.totalFiles)
    (h : ∀ t, (d.tasks t).work ≤ (c.tasks t).work) : d.taskWork ≤ c.taskWork := by
  unfold taskWork
  rw [htotal]
  exact Finset.sum_le_sum fun t _ => h t

/-- Work done on one task. -/
theorem taskWork_add_le (hbeside : Beside t c d) (ht : t < c.totalFiles) (k : ℕ)
    (h : (d.tasks t).work + k ≤ (c.tasks t).work) : d.taskWork + k ≤ c.taskWork := by
  unfold taskWork
  rw [hbeside.totalFiles]
  refine Pipeline.sum_range_add_le k ht (fun t' ht' => ?_) h
  rw [hbeside.tasks t' ht']

theorem modifyTask_work (f : FileTask → FileTask) (hf : (f (c.tasks t)).work ≤ (c.tasks t).work) :
    (c.modifyTask t f).taskWork ≤ c.taskWork := by
  refine taskWork_le rfl fun t' => ?_
  unfold modifyTask
  dsimp only
  by_cases ht' : t' = t
  · rw [ht', Function.update_self]
    exact hf
  · rw [Function.update_of_ne ht']

theorem work_modifySlot (f : BufSlot → BufSlot) : (c.modifySlot i f).work = c.work := rfl

theorem work_setError (e : ℤ) : (c.setError e).work = c.work := by
  unfold setError
  split_ifs <;> rfl

theorem closeTask_work : (c.closeTask t).work ≤ c.work := by
  refine Nat.add_le_add_right (modifyTask_work _ ?_) _
  unfold FileTask.work
  dsimp only
  rw [if_pos rfl]
  exact Nat.add_le_add_left (Nat.zero_le _) _

theorem release_work : (c.release i t).work ≤ c.work :=
  Nat.add_le_add_right (modifyTask_work (c := c)
    (fun task => { task with activeOps := task.activeOps - 1 }) (le_refl _)) _

theorem enqueue_work : (c.enqueue op).work = c.work + op.kind.work := by
  unfold work opWork enqueue
  rw [Multiset.map_cons, Multiset.sum_cons]
  change c.taskWork + (_ + _) = _
  omega

/-- Finishing a task starts an fsync at most. -/
theorem finishTask_work : (finishTask a c t i).work ≤ c.work + 1 := by
  obtain ⟨files, error, htrim⟩ :=
    trimTask_eq a { c with completedFiles := c.completedFiles + 1 } t
  unfold finishTask syncTask
  rw [htrim]
  split_ifs
  · change (CopyCtx.enqueue c _).work ≤ _
    rw [enqueue_work]
    exact le_refl _
  · exact (closeTask_work (c := c)).trans (Nat.le_succ _)
  · exact (closeTask_work (c := c)).trans (Nat.le_succ _)

theorem onReadComplete_work : (onReadComplete a i r c).work ≤ c.work + 2 := by
  unfold onReadComplete
  cases (c.slots i).task with
  | none => exact Nat.le_add_right _ _
  | some t =>
      dsimp only
      by_cases hres : r ≤ 0
      · rw [if_pos hres]
        refine release_work.trans ?_
        split_ifs
        · rw [work_setError]
          exact Nat.le_add_right _ _
        · exact Nat.le_add_right _ _
      rw [if_neg hres]
      by_cases hans : a.write = 0
      · rw [if_pos hans, enqueue_work, work_modifySlot]
        exact le_refl _
      · rw [if_neg hans]
        refine release_work.trans ?_
        rw [work_setError, work_modifySlot]
        exact Nat.le_add_right _ _

theorem onWriteComplete_work : (onWriteComplete a i r c).work ≤ c.work + 1 := by
  unfold onWriteComplete
  cases (c.slots i).task with
  | none => exact Nat.le_add_right _ _
  | some t =>
      dsimp only
      set d := if r < 0 then c.setError r
        else if r.toNat ≠ (c.slots i).bytes then c.setError (-5)
        else
          { c.modifyTask t fun task =>
              { task with bytesWritten := task.bytesWritten + (c.slots i).dataBytes } with
            totalWritten := c.totalWritten + (c.slots i).dataBytes } with hc
      have hle : d.work ≤ c.work := by
        rw [hc]
        split_ifs
        · rw [work_setError]
        · rw [work_setError]
        · exact Nat.add_le_add_right (modifyTask_work (c := c) (fun task =>
            { task with bytesWritten := task.bytesWritten + (c.slots i).dataBytes })
            (le_refl _)) _
      have hrelease : (d.release i t).work ≤ c.work := release_work.trans hle
      split_ifs
      · exact finishTask_work.trans (Nat.add_le_add_right hrelease 1)
      · exact hrelease.trans (Nat.le_succ _)

theorem onFsyncComplete_work : (onFsyncComplete i r c).work ≤ c.work := by
  unfold onFsyncComplete
  cases (c.slots i).task with
  | none => exact le_refl _
  | some t =>
      dsimp only
      refine (closeTask_work (c := if r < 0 then c.setError r else c)).trans ?_
      split_ifs
      · rw [work_setError]
      · exact le_refl _

/-- **Every callback is progress.** -/
theorem complete_work (heq : complete a op r c = some d) : d.work < c.work := by
  unfold complete at heq
  split_ifs at heq with hcan
  obtain rfl := Option.some.inj heq
  have hwork : CopyCtx.work { c with inFlight := c.inFlight.erase op } + op.kind.work =
      c.work := by
    have hsum : c.opWork =
        op.kind.work + ((c.inFlight.erase op).map fun op => op.kind.work).sum := by
      unfold opWork
      conv_lhs => rw [← Multiset.cons_erase hcan.1]
      rw [Multiset.map_cons, Multiset.sum_cons]
    unfold work
    rw [hsum]
    change c.taskWork + ((c.inFlight.erase op).map fun op => op.kind.work).sum +
      op.kind.work = _
    omega
  have htransfer : (transfer op r { c with inFlight := c.inFlight.erase op }).work =
      CopyCtx.work { c with inFlight := c.inFlight.erase op } := by
    unfold transfer
    cases op.kind <;> rfl
  rw [← hwork, ← htransfer]
  unfold dispatch
  cases op.kind with
  | read => exact Nat.lt_succ_of_le onReadComplete_work
  | write => exact Nat.lt_succ_of_le onWriteComplete_work
  | fsync => exact Nat.lt_succ_of_le onFsyncComplete_work

/-! ## Submissions add no work -/

theorem work_modifyFile (inode : ℕ) (f : ByteFile UInt8 → ByteFile UInt8) :
    (c.modifyFile inode f).work = c.work := rfl

theorem work_modifyTask (f : FileTask → FileTask)
    (hf : (f (c.tasks t)).work = (c.tasks t).work) : (c.modifyTask t f).work = c.work := by
  refine congrArg (· + c.opWork) (Finset.sum_congr rfl fun t' _ => ?_)
  by_cases ht' : t' = t
  · rw [ht', modifyTask_self, hf]
  · rw [modifyTask_of_ne _ _ ht']

theorem openTask_work : (openTask a c t).2.work = c.work := by
  unfold openTask
  dsimp only
  split_ifs
  · rw [work_modifyFile, work_modifyFile, work_modifyTask _ rfl, work_modifyTask _ rfl]
  · rw [work_modifyFile, work_modifyTask _ rfl, work_modifyTask _ rfl]
  · rw [work_modifyTask _ rfl, work_modifyTask _ rfl]
  · rfl

theorem skipTask_work (ht : t < c.totalFiles) (hun : (c.tasks t).Unread) :
    (c.skipTask t).work < c.work := by
  refine Nat.add_lt_add_right (Nat.lt_of_succ_le (taskWork_add_le skipTask_beside ht 1 ?_)) _
  rw [skipTask_self]
  unfold FileTask.work
  rw [hun.1, hun.2, if_pos rfl, if_pos rfl, if_neg Bool.false_ne_true, if_neg Bool.false_ne_true]
  dsimp only
  omega

theorem finishEmpty_work (ht : t < c.totalFiles) (hun : (c.tasks t).readsDone = false) :
    (finishEmpty a c t i).work < c.work := by
  set d := c.modifyTask t fun task => { task with readsDone := true }
  have hmark : d.taskWork + 4 ≤ c.taskWork := by
    refine taskWork_add_le (modifyTask_beside _) ht 4 ?_
    rw [modifyTask_self]
    unfold FileTask.work
    rw [hun, if_pos rfl, if_neg Bool.false_ne_true]
    dsimp only
    omega
  have hfinish := finishTask_work (a := a) (i := i) (t := t) (c := d)
  have hop : d.opWork = c.opWork := rfl
  have hwork : (finishEmpty a c t i).work = (finishTask a d t i).work := rfl
  rw [hwork]
  unfold work at hfinish ⊢
  omega

theorem chunk_le : c.chunk t ≤ (c.tasks t).fileSize - (c.tasks t).readOffset := by
  unfold chunk
  dsimp only
  split_ifs <;> omega

/-- A chunk has bytes, or it is the last one. -/
theorem chunk_pos : 0 < c.chunk t ∨ c.lastChunk t = true := by
  unfold lastChunk chunk
  dsimp only
  have hpos := c.config.chunk_pos
  split_ifs
  · rw [decide_eq_true_eq]
    omega
  · exact .inl hpos

theorem submitRead_beside : Beside t c (submitRead a c t i) := by
  have htake : Beside t c (c.takeChunk t i) :=
    ⟨rfl, rfl, fun _ ht' => Function.update_of_ne ht' _ _⟩
  unfold submitRead
  split_ifs
  · have h := htake.trans (modifyTask_beside fun task =>
      { task with activeOps := task.activeOps + 1 })
    exact ⟨h.config, h.totalFiles, h.tasks⟩
  · have h := htake.trans (setError_beside (-(a.read : ℤ)))
    have h' : Beside t c (((c.takeChunk t i).setError (-a.read)).freeSlot i) :=
      ⟨h.config, h.totalFiles, h.tasks⟩
    exact h'.trans (modifyTask_beside _)

/-- A submitted read is progress, and one that fails leaves an error. -/
theorem submitRead_work (ht : t < c.totalFiles) (hun : (c.tasks t).readsDone = false) :
    (submitRead a c t i).work < c.work ∨
      (submitRead a c t i).work ≤ c.work ∧ (submitRead a c t i).error ≠ 0 := by
  have hle := chunk_le (c := c) (t := t)
  have hpos := chunk_pos (c := c) (t := t)
  by_cases hans : a.read = 0
  · left
    have htask : (submitRead a c t i).taskWork + 4 ≤ c.taskWork := by
      refine taskWork_add_le submitRead_beside ht 4 ?_
      rw [submitRead_self c t i hans]
      unfold FileTask.work
      rw [hun, if_neg Bool.false_ne_true]
      dsimp only
      rw [Bool.false_or]
      rcases hpos with hpos | hlast
      · split_ifs <;> omega
      · rw [if_pos hlast]
        omega
    have hop : (submitRead a c t i).opWork = 3 + c.opWork := by
      unfold submitRead opWork
      rw [if_pos hans]
      exact (congrArg Multiset.sum (Multiset.map_cons _ _ _)).trans (Multiset.sum_cons _ _)
    unfold work
    omega
  · right
    have hrest : (submitRead a c t i).opWork = c.opWork := by
      unfold submitRead setError
      rw [if_neg hans]
      split_ifs <;> rfl
    refine ⟨Nat.add_le_add (taskWork_le submitRead_beside.totalFiles fun t' => ?_)
      (le_of_eq hrest), ?_⟩
    · by_cases ht' : t' = t
      · rw [ht', submitRead_self_of_ne c t i hans]
        unfold FileTask.work
        rw [hun, if_neg Bool.false_ne_true]
        dsimp only
        rw [Bool.false_or]
        split_ifs <;> omega
      · rw [submitRead_beside.tasks t' ht']
    · have herr : ((c.takeChunk t i).setError (-a.read)).error ≠ 0 := by
        unfold setError
        split_ifs with hzero
        · change -(a.read : ℤ) ≠ 0
          omega
        · exact hzero
      unfold submitRead
      rw [if_neg hans]
      exact herr

/-- A submission did part of the work or recorded an error. -/
def Advanced (c d : CopyCtx) : Prop := d.work < c.work ∨ d.work ≤ c.work ∧ d.error ≠ 0

theorem Advanced.of_le {x : CopyCtx} (h : Advanced d x) (hle : d.work ≤ c.work) :
    Advanced c x :=
  h.imp (fun hlt => lt_of_lt_of_le hlt hle) fun hrest => ⟨hrest.1.trans hle, hrest.2⟩

/-- **A submission that finds a task to read advances**; any other one changes nothing. -/
theorem submitNextRead_advanced : Advanced c (submitNextRead a i c) ∨
    submitNextRead a i c = c ∧
      ∀ t, c.current ≤ t → t < c.totalFiles → ¬ (c.tasks t).Unread := by
  unfold submitNextRead
  refine submitFrom_rule
    (I := fun n t d => (∀ t', t ≤ t' → t' < t + n → t' < d.totalFiles) ∧
      d.totalFiles ≤ t + n ∧ d.totalFiles = c.totalFiles ∧
      (d.work < c.work ∨ d = c ∧ ∀ t', c.current ≤ t' → t' < t → ¬ (c.tasks t').Unread))
    (F := fun d => Advanced c d ∨
      d = c ∧ ∀ t, c.current ≤ t → t < c.totalFiles → ¬ (c.tasks t).Unread)
    ?_ ?_ ?_ ?_ ?_ ?_ ⟨fun t' _ hlt => by omega, by omega, rfl,
      .inr ⟨rfl, fun t' hle hlt => by omega⟩⟩
  · rintro t d ⟨-, hend, htotal, hwork | ⟨rfl, hread⟩⟩
    · exact .inl (.inl hwork)
    · exact .inr ⟨rfl, fun t' hle hlt => hread t' hle (by omega)⟩
  · rintro n t d ⟨hin, hend, htotal, hwork⟩ hpass
    refine ⟨fun t' hle hlt => hin t' (by omega) (by omega), by omega, htotal,
      hwork.imp id fun ⟨heq, hread⟩ => ⟨heq, fun t' hle hlt => ?_⟩⟩
    rcases Nat.lt_succ_iff_lt_or_eq.mp hlt with hlt | rfl
    · exact hread t' hle hlt
    · exact heq ▸ hpass
  · rintro n t d ⟨hin, hend, htotal, hwork⟩ hun hclosed hopens
    have ht : t < d.totalFiles := hin t (le_refl t) (by omega)
    have hbeside : Beside t d ((openTask a d t).2.skipTask t) :=
      openTask_beside.trans skipTask_beside
    have hun' : ((openTask a d t).2.tasks t).Unread := by
      obtain ⟨fd, -, htask⟩ := openTask_task_of_not_opens (c := d) hopens
      rw [htask]
      exact hun
    have hlt : ((openTask a d t).2.skipTask t).work < d.work := by
      refine lt_of_lt_of_eq (skipTask_work ?_ hun') openTask_work
      rwa [openTask_beside.totalFiles]
    rw [hbeside.totalFiles]
    refine ⟨fun t' hle hlt => hin t' (by omega) (by omega), by omega, htotal, .inl ?_⟩
    rcases hwork with hwork | ⟨rfl, -⟩
    · exact hlt.trans hwork
    · exact hlt
  · rintro n t d ⟨hin, hend, htotal, hwork⟩ hun hclosed hopens hsize
    have ht : t < d.totalFiles := hin t (le_refl t) (by omega)
    have hbeside : Beside t d (finishEmpty a (openTask a d t).2 t i) :=
      openTask_beside.trans finishEmpty_beside
    have hlt : (finishEmpty a (openTask a d t).2 t i).work < d.work := by
      refine lt_of_lt_of_eq (finishEmpty_work ?_ ?_) openTask_work
      · rwa [openTask_beside.totalFiles]
      · rw [openTask_task_of_opens hopens]
        exact hun.1
    rw [hbeside.totalFiles]
    refine ⟨fun t' hle hlt => hin t' (by omega) (by omega), by omega, htotal, .inl ?_⟩
    rcases hwork with hwork | ⟨rfl, -⟩
    · exact hlt.trans hwork
    · exact hlt
  · rintro n t d ⟨hin, hend, htotal, hwork⟩ hun hopen
    refine .inl (Advanced.of_le (submitRead_work (hin t (le_refl t) (by omega)) hun.1) ?_)
    exact hwork.elim le_of_lt fun heq => le_of_eq (congrArg work heq.1)
  · rintro n t d ⟨hin, hend, htotal, hwork⟩ hun hclosed hopens hsize
    have hadvanced : Advanced (openTask a d t).2 (submitRead a (openTask a d t).2 t i) := by
      refine submitRead_work ?_ ?_
      · rw [openTask_beside.totalFiles]
        exact hin t (le_refl t) (by omega)
      · rw [openTask_task_of_opens hopens]
        exact hun.1
    refine .inl (hadvanced.of_le (openTask_work.le.trans ?_))
    exact hwork.elim le_of_lt fun heq => le_of_eq (congrArg work heq.1)

theorem allTasksDone_iff : c.allTasksDone = true ↔ ∀ t < c.totalFiles, (c.tasks t).done = true := by
  unfold allTasksDone
  rw [List.all_eq_true]
  exact ⟨fun h t ht => h t (List.mem_range.mpr ht), fun h t ht => h t (List.mem_range.mp ht)⟩

/-- With all tasks done there is nothing to submit. -/
theorem submitNextRead_of_done (hdone : c.allTasksDone = true) :
    submitNextRead a i c = c := by
  have hun {t : ℕ} (ht : t < c.totalFiles) : ¬ (c.tasks t).Unread := by
    intro hun
    have := allTasksDone_iff.mp hdone t ht
    rw [hun.2] at this
    cases this
  unfold submitNextRead
  refine submitFrom_rule
    (I := fun n t d => (∀ t', t ≤ t' → t' < t + n → t' < c.totalFiles) ∧ d = c)
    (F := fun d => d = c) (fun h => h.2) ?_ ?_ ?_ ?_ ?_ ⟨fun t' _ hlt => by omega, rfl⟩
  · rintro n t d ⟨hin, rfl⟩ -
    exact ⟨fun t' hle hlt => hin t' (by omega) (by omega), rfl⟩
  · rintro n t d ⟨hin, rfl⟩ hun' -
    exact absurd hun' (hun (hin t (le_refl t) (by omega)))
  · rintro n t d ⟨hin, rfl⟩ hun' -
    exact absurd hun' (hun (hin t (le_refl t) (by omega)))
  · rintro n t d ⟨hin, rfl⟩ hun' -
    exact absurd hun' (hun (hin t (le_refl t) (by omega)))
  · rintro n t d ⟨hin, rfl⟩ hun' -
    exact absurd hun' (hun (hin t (le_refl t) (by omega)))

/-! ## Tasks that wait for something -/

/-- **A task whose reads were all submitted has an operation in flight until it is done**, as long
as no error was recorded. -/
def Live (c : CopyCtx) : Prop :=
  c.error = 0 → ∀ t < c.totalFiles, (c.tasks t).readsDone = true →
    (c.tasks t).done = false → ∃ op ∈ c.inFlight, op.task = t

/-- A step on one task that takes no operation away from the others. -/
theorem Live.step (h : c.Live) (hbeside : Beside t c d) (herr : d.error = 0 → c.error = 0)
    (hin : ∀ op ∈ c.inFlight, op.task ≠ t → op ∈ d.inFlight)
    (ht : d.error = 0 → (d.tasks t).readsDone = true → (d.tasks t).done = false →
      ∃ op ∈ d.inFlight, op.task = t) : d.Live := by
  intro hzero t' ht' hreads hdone
  by_cases heq : t' = t
  · rw [heq] at hreads hdone ⊢
    exact ht hzero hreads hdone
  · rw [hbeside.tasks t' heq] at hreads hdone
    rw [hbeside.totalFiles] at ht'
    obtain ⟨op, hop, htask⟩ := h (herr hzero) t' ht' hreads hdone
    exact ⟨op, hin op hop (by rw [htask]; exact heq), htask⟩

theorem error_of_setError {e : ℤ} (h : (c.setError e).error = 0) : c.error = 0 := by
  unfold setError at h
  split_ifs at h with hzero
  · exact hzero
  · exact h

theorem setError_error_ne {e : ℤ} (he : e ≠ 0) : (c.setError e).error ≠ 0 := by
  unfold setError
  split_ifs with hzero
  · exact he
  · exact hzero

theorem trimTask_error (h : (trimTask a c t).error = 0) : c.error = 0 := by
  unfold trimTask at h
  dsimp only at h
  split_ifs at h
  · exact h
  · exact error_of_setError h
  · exact h

/-- A finished task is done or waits for its fsync. -/
theorem finishTask_live : ((finishTask a c t i).tasks t).done = true ∨
      ∃ op ∈ (finishTask a c t i).inFlight, op.task = t := by
  unfold finishTask syncTask
  split_ifs
  · exact .inr ⟨_, Multiset.mem_cons_self _ _, rfl⟩
  · exact .inl (congrArg FileTask.done (modifyTask_self _ _ _))
  · exact .inl (congrArg FileTask.done (modifyTask_self _ _ _))

theorem finishTask_error (h : (finishTask a c t i).error = 0) : c.error = 0 := by
  have htrim : (trimTask a { c with completedFiles := c.completedFiles + 1 } t).error = 0 := by
    unfold finishTask syncTask at h
    split_ifs at h <;> exact h
  exact trimTask_error (c := { c with completedFiles := c.completedFiles + 1 }) htrim

theorem mem_finishTask (hop : op ∈ c.inFlight) : op ∈ (finishTask a c t i).inFlight := by
  obtain ⟨files, error, htrim⟩ :=
    trimTask_eq a { c with completedFiles := c.completedFiles + 1 } t
  unfold finishTask syncTask
  rw [htrim]
  split_ifs
  · exact Multiset.mem_cons_of_mem hop
  · exact hop
  · exact hop

theorem openTask_error : (openTask a c t).2.error = c.error := by
  unfold openTask
  dsimp only
  split_ifs <;> rfl

theorem submitRead_error (h : (submitRead a c t i).error = 0) :
    a.read = 0 ∧ c.error = 0 := by
  unfold submitRead at h
  split_ifs at h with hans
  · exact ⟨hans, h⟩
  · exact absurd h (setError_error_ne (by omega))

theorem mem_submitRead (hans : a.read = 0) :
    (submitRead a c t i).inFlight =
      { kind := .read, slot := i, task := t, offset := (c.tasks t).readOffset
        len := c.ioLen t } ::ₘ c.inFlight := by
  unfold submitRead
  rw [if_pos hans]
  rfl

theorem submitRead_live (h : c.Live) : (submitRead a c t i).Live := by
  by_cases hans : a.read = 0
  · refine h.step submitRead_beside (fun hzero => (submitRead_error hzero).2) (fun op hop _ => ?_)
      fun _ _ _ => ?_
    · rw [mem_submitRead hans]
      exact Multiset.mem_cons_of_mem hop
    · rw [mem_submitRead hans]
      exact ⟨_, Multiset.mem_cons_self _ _, rfl⟩
  · exact fun hzero => absurd (submitRead_error hzero).1 hans

/-- `open_task` alone submits and finishes nothing. -/
theorem openTask_live (h : c.Live) : (openTask a c t).2.Live := by
  intro hzero t' ht' hreads hdone
  rw [openTask_error] at hzero
  rw [openTask_beside.totalFiles] at ht'
  rw [openTask_inFlight]
  have htask : ((openTask a c t).2.tasks t').readsDone = (c.tasks t').readsDone ∧
      ((openTask a c t).2.tasks t').done = (c.tasks t').done := by
    by_cases heq : t' = t
    · subst heq
      cases hopens : a.opens t' with
      | true =>
          rw [openTask_task_of_opens hopens]
          exact ⟨rfl, rfl⟩
      | false =>
          obtain ⟨fd, -, htask⟩ := openTask_task_of_not_opens (c := c) hopens
          rw [htask]
          exact ⟨rfl, rfl⟩
    · rw [openTask_beside.tasks t' heq]
      exact ⟨rfl, rfl⟩
  exact h hzero t' ht' (htask.1 ▸ hreads) (htask.2 ▸ hdone)

theorem submitNextRead_live (h : c.Live) : (submitNextRead a i c).Live := by
  unfold submitNextRead
  refine submitFrom_rule (I := fun _ _ d => d.Live) (F := Live) (fun h => h) (fun h _ => h)
    ?_ ?_ (fun h _ _ => submitRead_live h) (fun h _ _ _ _ => submitRead_live (openTask_live h)) h
  · intro n t d h _ _ _
    refine (openTask_live h).step skipTask_beside id (fun op hop _ => hop) fun _ _ hdone => ?_
    rw [skipTask_self] at hdone
    cases hdone
  · intro n t d h hun _ hopens _
    set x := (openTask a d t).2.modifyTask t fun task => { task with readsDone := true }
    refine (openTask_live h).step finishEmpty_beside (fun hzero => ?_) (fun op hop _ => ?_)
      fun _ _ hnot => ?_
    · exact finishTask_error (c := x) hzero
    · exact mem_finishTask (c := x) hop
    · rcases finishTask_live (a := a) (i := i) (t := t) (c := x) with hdone | hop
      · exact absurd (hdone.symm.trans hnot) (fun heq => by cases heq)
      · exact hop

/-- A read or write that was not the last operation of its task leaves another one. -/
theorem exists_other (h : c.view.Good) (hop : op ∈ c.inFlight) (hkind : op.kind ≠ .fsync)
    (hne : (c.tasks op.task).activeOps ≠ 1) : ∃ op' ∈ c.inFlight.erase op, op'.task = op.task := by
  have hcount : (c.tasks op.task).activeOps = c.inFlight.countP (CopyOp.Counts op.task) :=
    h.taskActive op.task
  rw [← Multiset.cons_erase hop, Multiset.countP_cons_of_pos _ ⟨rfl, hkind⟩] at hcount
  have hpos : 0 < (c.inFlight.erase op).countP (CopyOp.Counts op.task) := by omega
  obtain ⟨op', hop', hcounts⟩ := Multiset.countP_pos.mp hpos
  exact ⟨op', hop', hcounts.1⟩

/-- A callback of the task `t`: the others are left alone, errors stay and operations are only
added. -/
structure Steps (t : ℕ) (c d : CopyCtx) : Prop where
  beside : Beside t c d
  error : d.error = 0 → c.error = 0
  mem : ∀ op ∈ c.inFlight, op ∈ d.inFlight

theorem Steps.refl : Steps t c c := ⟨.refl, id, fun _ => id⟩

theorem Steps.trans {x : CopyCtx} (h : Steps t c d) (h' : Steps t d x) : Steps t c x :=
  ⟨h.beside.trans h'.beside, fun hzero => h.error (h'.error hzero),
    fun op hop => h'.mem op (h.mem op hop)⟩

theorem setError_steps (e : ℤ) : Steps t c (c.setError e) := by
  refine ⟨setError_beside e, error_of_setError, ?_⟩
  unfold setError
  split_ifs <;> exact fun _ => id

theorem release_steps : Steps t c (c.release i t) :=
  ⟨⟨rfl, rfl, fun _ ht' => Function.update_of_ne ht' _ _⟩, id, fun _ => id⟩

theorem modifySlot_steps (f : BufSlot → BufSlot) : Steps t c (c.modifySlot i f) :=
  ⟨⟨rfl, rfl, fun _ _ => rfl⟩, id, fun _ => id⟩

theorem finishTask_steps : Steps t c (finishTask a c t i) :=
  ⟨finishTask_beside, finishTask_error, fun _ => mem_finishTask⟩

/-- After a read either its write is in flight, or it brought nothing, or an error was recorded. -/
theorem onReadComplete_steps (htask : (c.slots i).task = some t) :
    Steps t c (onReadComplete a i r c) ∧
      ((onReadComplete a i r c).error = 0 →
        (∃ op ∈ (onReadComplete a i r c).inFlight, op.task = t) ∨
          r = 0 ∧ onReadComplete a i r c = c.release i t) := by
  unfold onReadComplete
  rw [htask]
  dsimp only
  by_cases hres : r ≤ 0
  · rw [if_pos hres]
    by_cases hneg : r < 0
    · rw [if_pos hneg]
      exact ⟨(setError_steps _).trans release_steps,
        fun hzero => absurd hzero (setError_error_ne (ne_of_lt hneg))⟩
    · rw [if_neg hneg]
      exact ⟨release_steps, fun _ => .inr ⟨by omega, rfl⟩⟩
  rw [if_neg hres]
  by_cases hans : a.write = 0
  · rw [if_pos hans]
    refine ⟨⟨⟨rfl, rfl, fun _ _ => rfl⟩, id, fun _ hop => Multiset.mem_cons_of_mem hop⟩,
      fun _ => .inl ⟨_, Multiset.mem_cons_self _ _, rfl⟩⟩
  · rw [if_neg hans]
    refine ⟨(modifySlot_steps _).trans ((setError_steps _).trans release_steps), fun hzero => ?_⟩
    exact absurd hzero (setError_error_ne (by omega))

/-- After a write its task is done, waits for its fsync, or has other operations in flight. -/
theorem onWriteComplete_steps (htask : (c.slots i).task = some t) :
    Steps t c (onWriteComplete a i r c) ∧
      ((onWriteComplete a i r c).tasks t).readsDone = (c.tasks t).readsDone ∧
      (((onWriteComplete a i r c).tasks t).readsDone = true →
        ((onWriteComplete a i r c).tasks t).done = false →
          (∃ op ∈ (onWriteComplete a i r c).inFlight, op.task = t) ∨
            (c.tasks t).activeOps ≠ 1) := by
  unfold onWriteComplete
  rw [htask]
  dsimp only
  set d := if r < 0 then c.setError r
    else if r.toNat ≠ (c.slots i).bytes then c.setError (-5)
    else
      { c.modifyTask t fun task =>
          { task with bytesWritten := task.bytesWritten + (c.slots i).dataBytes } with
        totalWritten := c.totalWritten + (c.slots i).dataBytes } with hd
  have hsteps : Steps t c d := by
    rw [hd]
    split_ifs
    · exact setError_steps _
    · exact setError_steps _
    · exact ⟨⟨rfl, rfl, fun _ ht' => Function.update_of_ne ht' _ _⟩, id, fun _ => id⟩
  have hfields : (d.tasks t).readsDone = (c.tasks t).readsDone ∧
      (d.tasks t).activeOps = (c.tasks t).activeOps := by
    rw [hd]
    split_ifs
    · rw [setError_tasks]
      exact ⟨rfl, rfl⟩
    · rw [setError_tasks]
      exact ⟨rfl, rfl⟩
    · change (Function.update c.tasks t _ t).readsDone = _ ∧
        (Function.update c.tasks t _ t).activeOps = _
      rw [Function.update_self]
      exact ⟨rfl, rfl⟩
  have hreads : ((d.release i t).tasks t).readsDone = (c.tasks t).readsDone := by
    rw [release_self]
    exact hfields.1
  split_ifs with hfin
  · refine ⟨hsteps.trans (release_steps.trans finishTask_steps), ?_, fun _ hnot => ?_⟩
    · rw [finishTask_readsDone, hreads]
    · rcases finishTask_live (a := a) (i := i) (t := t) (c := d.release i t) with hdone | hop
      · exact absurd (hdone.symm.trans hnot) (fun heq => by cases heq)
      · exact .inl hop
  · refine ⟨hsteps.trans release_steps, hreads, fun hread hnot => .inr fun hone => ?_⟩
    refine hfin ⟨hread, ?_, hnot⟩
    rw [release_self, hfields.2, hone]
    rfl

/-- After an fsync its task is done. -/
theorem onFsyncComplete_steps (htask : (c.slots i).task = some t) :
    Steps t c (onFsyncComplete i r c) ∧
      ((onFsyncComplete i r c).tasks t).done = true := by
  unfold onFsyncComplete
  rw [htask]
  dsimp only
  set d := if r < 0 then c.setError r else c with hd
  have hsteps : Steps t c d := by
    rw [hd]
    split_ifs
    · exact setError_steps _
    · exact .refl
  have hclose : Steps t d { (d.closeTask t).freeSlot i with activeOps := d.activeOps - 1 } :=
    ⟨⟨rfl, rfl, fun _ ht' => Function.update_of_ne ht' _ _⟩, id, fun _ => id⟩
  exact ⟨hsteps.trans hclose, congrArg FileTask.done (closeTask_self d t)⟩

/-- The condition on a read without bytes: it is not the last operation of a task whose reads were
all submitted, unless an error was recorded before. -/
def ReadsOn (c : CopyCtx) (op : CopyOp) (r : ℤ) : Prop :=
  op.kind = .read → r = 0 → c.error = 0 →
    ¬ ((c.tasks op.task).readsDone = true ∧ (c.tasks op.task).activeOps = 1)

theorem complete_live (h : c.view.Good) (hlive : c.Live) (hreads : c.ReadsOn op r)
    (heq : complete a op r c = some d) : d.Live := by
  unfold complete at heq
  split_ifs at heq with hcan
  obtain rfl := Option.some.inj heq
  have hop := hcan.1
  set x := transfer op r { c with inFlight := c.inFlight.erase op } with hx
  have htransfer : x.config = c.config ∧ x.totalFiles = c.totalFiles ∧ x.tasks = c.tasks ∧
      x.error = c.error ∧ x.inFlight = c.inFlight.erase op := by
    rw [hx]
    unfold transfer
    cases op.kind <;> exact ⟨rfl, rfl, rfl, rfl, rfl⟩
  obtain ⟨hconfig, htotal, htasks, herror, hin⟩ := htransfer
  have htask : (x.slots op.slot).task = some op.task := (Over.transfer h hop).task
  have hrest (op' : CopyOp) (hop' : op' ∈ c.inFlight) (hne : op'.task ≠ op.task) :
      op' ∈ c.inFlight.erase op :=
    (Multiset.mem_erase_of_ne fun heq => hne (congrArg CopyOp.task heq)).mpr hop'
  have hstep {y : CopyCtx} (hs : Steps op.task x y)
      (ht : y.error = 0 → (y.tasks op.task).readsDone = true → (y.tasks op.task).done = false →
        ∃ op' ∈ y.inFlight, op'.task = op.task) : y.Live := by
    refine hlive.step ⟨hs.beside.config.trans hconfig, hs.beside.totalFiles.trans htotal,
      fun t' ht' => (hs.beside.tasks t' ht').trans (congrFun htasks t')⟩
      (fun hzero => herror ▸ hs.error hzero) (fun op' hop' hne => hs.mem op' ?_) ht
    rw [hin]
    exact hrest op' hop' hne
  have hother (hkind : op.kind ≠ .fsync) (hne : (c.tasks op.task).activeOps ≠ 1) :
      ∃ op' ∈ x.inFlight, op'.task = op.task := by
    rw [hin]
    exact exists_other h hop hkind hne
  unfold dispatch
  cases hkind : op.kind with
  | read =>
      obtain ⟨hs, hcase⟩ := onReadComplete_steps (a := a) (r := r) htask
      refine hstep hs fun hzero hread hnot => ?_
      rcases hcase hzero with hop' | ⟨hnone, hrelease⟩
      · exact hop'
      · rw [hrelease, release_self, htasks] at hread
        rw [hrelease]
        refine hother (by rw [hkind]; exact fun heq => (by cases heq)) fun hone => ?_
        exact hreads hkind hnone (herror ▸ hs.error hzero) ⟨hread, hone⟩
  | write =>
      obtain ⟨hs, -, hcase⟩ := onWriteComplete_steps (a := a) (r := r) htask
      refine hstep hs fun _ hread hnot => ?_
      rcases hcase hread hnot with hop' | hne
      · exact hop'
      · rw [htasks] at hne
        obtain ⟨op', hop', ht'⟩ := hother (by rw [hkind]; exact fun heq => (by cases heq)) hne
        exact ⟨op', hs.mem op' hop', ht'⟩
  | fsync =>
      obtain ⟨hs, hdone⟩ := onFsyncComplete_steps (r := r) htask
      refine hstep hs fun _ _ hnot => ?_
      rw [hdone] at hnot
      cases hnot

/-! ## Runs -/

/-- The condition on a step: a submission puts at most one operation on its slot, and a read without
bytes is not the last operation of its task. -/
def EndsTasks (c : CopyCtx) : PipelineAct CopyAnswer CopyOp → Prop
  | .submit a i => c.SubmitsSafely (.submit a i)
  | .complete _ op r => c.ReadsOn op r

/-- Nothing is in flight, no error was recorded, no read is left to submit, and a task is not done.
-/
def Stalled (c : CopyCtx) : Prop :=
  c.inFlight = 0 ∧ c.error = 0 ∧ (∀ t < c.totalFiles, ¬ (c.tasks t).Unread) ∧
    ∃ t < c.totalFiles, (c.tasks t).done = false

theorem setError_live {e : ℤ} (h : c.Live) : (c.setError e).Live := by
  unfold setError
  split_ifs with hzero
  · intro _ t ht hreads hdone
    exact h hzero t ht hreads hdone
  · exact h

theorem live_keeps (config : CopyConfig) :
    (copyPipeline config).Keeps EndsTasks fun c => c.view.Good ∧ c.Live where
  submit h _ hfree _ hok :=
    ⟨submitNextRead_good h.1 (of_decide_eq_true hfree) hok, submitNextRead_live h.2⟩
  complete h hok heq := ⟨complete_good h.1 heq, complete_live h.1 h.2 hok heq⟩
  setError h := ⟨(view_keeps config).setError h.1, setError_live h.2⟩
  others hj := (view_keeps config).others hj

/-- Where nothing is in flight and no error was recorded, a task that is not done is to be read. -/
theorem Live.unread (h : c.Live) (hgood : c.view.Good) (hidle : ∀ op, op ∉ c.inFlight)
    (hzero : c.error = 0) (ht : t < c.totalFiles) (hdone : (c.tasks t).done = false) :
    c.current ≤ t ∧ (c.tasks t).Unread := by
  have hreads : (c.tasks t).readsDone = false := by
    by_contra hread
    obtain ⟨op, hop, -⟩ := h hzero t ht (Bool.eq_true_of_not_eq_false hread) hdone
    exact hidle op hop
  refine ⟨?_, hreads, hdone⟩
  by_contra hlt
  have hread : (c.tasks t).readsDone = true := hgood.behind t (not_le.mp hlt)
  rw [hreads] at hread
  cases hread

theorem not_stalled (h : c.Live) (hgood : c.view.Good) : ¬ c.Stalled := by
  rintro ⟨hnone, hzero, hread, t, ht, hdone⟩
  refine hread t ht (h.unread hgood (fun op hop => ?_) hzero ht hdone).2
  rw [hnone] at hop
  exact Multiset.notMem_zero op hop

/-- A submission that opens nothing keeps its slot. -/
theorem keepsSlot_of_closed : KeepsSlot { openSrc := fun _ => false } c n t := by
  induction n generalizing t with
  | zero => exact trivial
  | succ n ih =>
      unfold KeepsSlot
      split
      · exact ih
      split
      · exact trivial
      rw [if_pos (show CopyAnswer.opens { openSrc := fun _ => false } t = false from rfl)]
      exact ih

theorem copy_progress (config : CopyConfig) :
    (copyPipeline config).Progress EndsTasks (fun c => c.view.Good ∧ c.Live)
      (fun c op => op ∈ c.inFlight) work where
  depth_pos := config.depth_range.1
  alive h := h.1.alive
  active h hpos := by
    have hactive := h.1.active
    have hcard : 0 < (Multiset.card _ : ℤ) := lt_of_lt_of_eq hpos hactive
    exact Multiset.card_pos_iff_exists_mem.mp (by exact_mod_cast hcard)
  complete_lt _ _ heq := complete_work heq
  submit_le _ _ _ _ := by
    rcases submitNextRead_advanced with h | ⟨h, -⟩
    · exact h.elim le_of_lt fun hrest => hrest.1
    · exact le_of_eq (congrArg work h)
  setError_le := le_of_eq (work_setError _)
  setError_of_ne hne := if_neg hne
  setError_ne he := setError_error_ne he
  idle_free h hidle _ := by
    refine decide_eq_true ?_
    by_contra hbusy
    obtain ⟨op, hop, -⟩ := h.1.busy _ hbusy
    exact hidle op hop
  idle_submit {c a i} h hidle hzero hdone _ _ := by
    have hnot : ¬ ∀ t < c.totalFiles, (c.tasks t).done = true := fun hall => by
      have htrue := allTasksDone_iff.mpr hall
      rw [show c.allTasksDone = false from hdone] at htrue
      cases htrue
    push Not at hnot
    obtain ⟨t, ht, hdone⟩ := hnot
    obtain ⟨hle, hun⟩ :=
      h.2.unread h.1 hidle hzero ht (Bool.eq_false_of_not_eq_true hdone)
    rcases submitNextRead_advanced with hadv | ⟨-, hread⟩
    · exact hadv.imp id fun hrest => hrest.2
    · exact absurd hun (hread t hle ht)
  done_submit _ hdone := submitNextRead_of_done hdone
  can_submit _ _ := ⟨{ openSrc := fun _ => false }, keepsSlot_of_closed⟩
  can_complete {c op} _ hop := by
    refine ⟨{}, -1, _, fun _ hzero => absurd hzero (by decide), if_pos ⟨hop, ?_⟩⟩
    unfold permitted
    cases op.kind with
    | read => exact Bool.and_eq_true_iff.mpr ⟨decide_eq_true (by omega), decide_eq_true (by omega)⟩
    | write => exact decide_eq_true (by omega)
    | fsync => exact decide_eq_true (by omega)

end CopyCtx

/-- Every operation that is in flight completes at some time. -/
def CompletesAll (f : ℕ → PipelineState CopyCtx) (l : ℕ → PipelineLabel CopyAnswer CopyOp) : Prop :=
  ∀ n, ∀ op ∈ (f n).core.inFlight, ∃ m ≥ n, ∃ a r, l m = .complete a op r

/-- **The copy pipeline does not stall**, where a submission puts at most one operation on its slot
and no read without bytes is the last operation of its task: no reachable state is stalled, before
the end a step is possible, and no run in which all operations complete goes on for ever. -/
theorem copy_never_stalls (config : CopyConfig) (files : ℕ → ByteFile UInt8)
    (sources : List CopySource) :
    (∀ s, Reachable (((copyPipeline config).system
        (CopyCtx.start config files sources)).restrict
          ((copyPipeline config).Allows CopyCtx.EndsTasks)) s →
      ¬ s.core.Stalled ∧ (s.pc ≠ .returned → ∃ l s', l ≠ .interrupt ∧
        (copyPipeline config).Allows CopyCtx.EndsTasks s l ∧
          (copyPipeline config).step s l = some s')) ∧
    ∀ f l, InfiniteRun (((copyPipeline config).system
        (CopyCtx.start config files sources)).restrict
          ((copyPipeline config).Allows CopyCtx.EndsTasks)) f l → ¬ CompletesAll f l := by
  have hkeeps := CopyCtx.live_keeps config
  have hprogress := CopyCtx.copy_progress config
  have hstart : (CopyCtx.start config files sources).view.Good ∧
      (CopyCtx.start config files sources).Live :=
    ⟨CopyCtx.start_good config files sources, fun _ t _ hreads => (by cases hreads)⟩
  refine ⟨fun s hs => ?_, fun f l hrun hfair => ?_⟩
  · have hkept := hkeeps.reachable hstart (fun _ _ => rfl) hs
    exact ⟨CopyCtx.not_stalled hkept.1.2 hkept.1.1, fun hpc => hprogress.enabled hkept hpc⟩
  · exact hprogress.terminates hkeeps hstart (fun _ _ => rfl) hrun hfair

/-- A file of one byte that lost it since it was listed: its read brings nothing, and the pipeline
stalls. -/
theorem copy_stalls :
    ∃ s, Reachable ((copyPipeline byteChunks).system
      (CopyCtx.start byteChunks (fun _ => ByteFile.empty) [⟨1, 2, 1⟩])) s ∧ s.core.Stalled := by
  have hrun : (execute (copyPipeline byteChunks).step
      { core := CopyCtx.start byteChunks (fun _ => ByteFile.empty) [⟨1, 2, 1⟩] }
      [.run {}, .run {}, .run {}, .complete {}
        { kind := .read, slot := 0, task := 0, offset := 0, len := 1 } 0]).isSome = true := by
    decide
  obtain ⟨s, hs⟩ := Option.isSome_iff_exists.mp hrun
  refine ⟨s, Reachable.of_execute rfl hs, ?_⟩
  obtain rfl := Option.some.inj hs
  refine ⟨by decide, by decide, fun t ht hun => ?_, 0, by decide, by decide⟩
  obtain rfl : t = 0 := Nat.lt_one_iff.mp ht
  exact absurd hun.1 (by decide)

end Aura
