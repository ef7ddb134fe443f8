import Aura.Copy.Callbacks

/-!
# Submissions of the copy pipeline

`submitFrom_rule` is the induction along `submit_next_read`, which skips tasks, finishes empty ones
and submits at most one read. An fsync that it submits for an empty file stays on the slot while it
looks for the next task, and `CopyCtx.KeepsSlot` says that it finds none.

* `CopyCtx.submitNextRead_good`: under this condition submissions keep the invariant of slots and
  descriptors.
-/

namespace Aura

open Lib

/-- Whether `open_task` succeeds. -/
def CopyAnswer.opens (a : CopyAnswer) (t : ℕ) : Bool := a.openSrc t && a.openDst t

/-- The loop of `submit_next_read` stops at the task. -/
def FileTask.Unread (task : FileTask) : Prop :=
  task.readsDone = false ∧ task.done = false

theorem FileTask.Unread.not_or {task : FileTask} (h : task.Unread) :
    ¬ (task.readsDone = true ∨ task.done = true) := by
  rw [h.1, h.2]
  rintro (hr | hd) <;> cases ‹false = true›

namespace CopyCtx

variable {c d : CopyCtx} {t i n : ℕ} {a : CopyAnswer}

/-! ## Submissions -/

theorem openTask_fst : (openTask a c t).1 = a.opens t := by
  unfold openTask CopyAnswer.opens
  dsimp only
  cases a.openSrc t <;> cases a.openDst t <;> rfl

/-- The induction along `submit_next_read`: `I n t` holds of the context where the code comes to the
task `t` with `n` tasks left, `F` where it returns. -/
theorem submitFrom_rule {I : ℕ → ℕ → CopyCtx → Prop} {F : CopyCtx → Prop}
    (stop : ∀ {t c}, I 0 t c → F c)
    (pass : ∀ {n t c}, I (n + 1) t c → ¬ (c.tasks t).Unread → I n (t + 1) c)
    (fail : ∀ {n t c}, I (n + 1) t c → (c.tasks t).Unread →
      (c.tasks t).srcFd.isOpen = false → a.opens t = false →
      I n (t + 1) ((openTask a c t).2.skipTask t))
    (empty : ∀ {n t c}, I (n + 1) t c → (c.tasks t).Unread →
      (c.tasks t).srcFd.isOpen = false → a.opens t = true → (c.tasks t).fileSize = 0 →
      I n (t + 1) (finishEmpty a (openTask a c t).2 t i))
    (read : ∀ {n t c}, I (n + 1) t c → (c.tasks t).Unread →
      (c.tasks t).srcFd.isOpen = true → F (submitRead a c t i))
    (first : ∀ {n t c}, I (n + 1) t c → (c.tasks t).Unread →
      (c.tasks t).srcFd.isOpen = false → a.opens t = true → (c.tasks t).fileSize ≠ 0 →
      F (submitRead a (openTask a c t).2 t i))
    (h : I n t c) : F (submitFrom a i n t c) := by
  induction n generalizing t c with
  | zero => exact stop h
  | succ n ih =>
      unfold submitFrom
      dsimp only
      by_cases hread : (c.tasks t).readsDone = true ∨ (c.tasks t).done = true
      · rw [if_pos hread]
        refine ih (pass h fun hun => ?_)
        rw [hun.1, hun.2] at hread
        rcases hread with hread | hread <;> cases hread
      have hun : (c.tasks t).Unread :=
        ⟨Bool.eq_false_of_not_eq_true fun hr => hread (.inl hr),
          Bool.eq_false_of_not_eq_true fun hd => hread (.inr hd)⟩
      rw [if_neg hread]
      by_cases hopen : (c.tasks t).srcFd.isOpen = true
      · rw [if_pos hopen]
        exact read h hun hopen
      have hclosed := Bool.eq_false_of_not_eq_true hopen
      rw [if_neg hopen, openTask_fst]
      by_cases hopens : a.opens t = false
      · rw [if_pos hopens]
        exact ih (fail h hun hclosed hopens)
      rw [if_neg hopens]
      have hopens := Bool.eq_true_of_not_eq_false hopens
      by_cases hsize : (c.tasks t).fileSize = 0
      · rw [if_pos hsize]
        exact ih (empty h hun hclosed hopens hsize)
      · rw [if_neg hsize]
        exact first h hun hclosed hopens hsize

/-- All that changes is at the task `t` or outside the queue. -/
structure Beside (t : ℕ) (c d : CopyCtx) : Prop where
  config : d.config = c.config
  totalFiles : d.totalFiles = c.totalFiles
  tasks : ∀ t', t' ≠ t → d.tasks t' = c.tasks t'

theorem Beside.refl : Beside t c c := ⟨rfl, rfl, fun _ _ => rfl⟩

theorem Beside.trans {x : CopyCtx} (h : Beside t c d) (h' : Beside t d x) : Beside t c x :=
  ⟨h'.config.trans h.config, h'.totalFiles.trans h.totalFiles,
    fun t' ht' => (h'.tasks t' ht').trans (h.tasks t' ht')⟩

theorem modifyTask_beside (f : FileTask → FileTask) : Beside t c (c.modifyTask t f) :=
  ⟨rfl, rfl, fun _ ht' => Function.update_of_ne ht' _ _⟩

theorem setError_beside (e : ℤ) : Beside t c (c.setError e) := by
  unfold setError
  split_ifs
  · exact ⟨rfl, rfl, fun _ _ => rfl⟩
  · exact .refl

theorem openTask_beside : Beside t c (openTask a c t).2 := by
  unfold openTask
  dsimp only
  split_ifs
  all_goals
    refine ⟨rfl, rfl, fun t' ht' => ?_⟩
    simp only [modifyTask, modifyFile, Function.update_of_ne ht']

theorem finishTask_beside : Beside t c (finishTask a c t i) := by
  have htrim (d : CopyCtx) : Beside t d (trimTask a d t) := by
    unfold trimTask
    dsimp only
    split_ifs
    · exact ⟨rfl, rfl, fun _ _ => rfl⟩
    · exact setError_beside _
    · exact .refl
  have hsync (d : CopyCtx) : Beside t d (syncTask a d t i) := by
    unfold syncTask
    split_ifs
    · exact ⟨rfl, rfl, fun _ _ => rfl⟩
    · exact ⟨rfl, rfl, fun _ ht' => Function.update_of_ne ht' _ _⟩
    · exact modifyTask_beside _
  have hfirst : Beside t c { c with completedFiles := c.completedFiles + 1 } :=
    ⟨rfl, rfl, fun _ _ => rfl⟩
  exact hfirst.trans ((htrim _).trans (hsync _))

theorem finishEmpty_beside : Beside t c (finishEmpty a c t i) := by
  have h : Beside t c
      (finishTask a (c.modifyTask t fun task => { task with readsDone := true }) t i) :=
    (modifyTask_beside _).trans finishTask_beside
  exact ⟨h.config, h.totalFiles, h.tasks⟩

theorem skipTask_beside : Beside t c (c.skipTask t) :=
  ⟨rfl, rfl, fun _ ht' => Function.update_of_ne ht' _ _⟩

/-- **The condition on a submission**: once it has put the fsync of an empty file on its slot, no
task is left in the queue that it could open. `n` tasks are left from `t` on. -/
def KeepsSlot (a : CopyAnswer) (c : CopyCtx) : (n t : ℕ) → Prop
  | 0, _ => True
  | n + 1, t =>
      if (c.tasks t).readsDone = true ∨ (c.tasks t).done = true then KeepsSlot a c n (t + 1)
      else if (c.tasks t).srcFd.isOpen then True
      else if a.opens t = false then KeepsSlot a c n (t + 1)
      else if (c.tasks t).fileSize = 0 then
        if c.config.noFsync = false ∧ a.fsync t = 0 then
          ∀ t', t < t' → t' < t + 1 + n → (c.tasks t').Unread → a.opens t' = false
        else KeepsSlot a c n (t + 1)
      else True

theorem keepsSlot_fail (h : KeepsSlot a c (n + 1) t) (hun : (c.tasks t).Unread)
    (hclosed : (c.tasks t).srcFd.isOpen = false) (hopens : a.opens t = false) :
    KeepsSlot a c n (t + 1) := by
  unfold KeepsSlot at h
  rwa [if_neg hun.not_or, if_neg (by rw [hclosed]; exact Bool.false_ne_true), if_pos hopens] at h

theorem keepsSlot_empty (h : KeepsSlot a c (n + 1) t) (hun : (c.tasks t).Unread)
    (hclosed : (c.tasks t).srcFd.isOpen = false) (hopens : a.opens t = true)
    (hsize : (c.tasks t).fileSize = 0) :
    if c.config.noFsync = false ∧ a.fsync t = 0 then
      ∀ t', t < t' → t' < t + 1 + n → (c.tasks t').Unread → a.opens t' = false
    else KeepsSlot a c n (t + 1) := by
  unfold KeepsSlot at h
  rwa [if_neg hun.not_or, if_neg (by rw [hclosed]; exact Bool.false_ne_true),
    if_neg (by rw [hopens]; exact fun heq => (by cases heq)), if_pos hsize] at h

/-- The condition reads the tasks from `t` on. -/
theorem KeepsSlot.congr (h : KeepsSlot a c n t) (hconfig : d.config = c.config)
    (htasks : ∀ t', t ≤ t' → d.tasks t' = c.tasks t') : KeepsSlot a d n t := by
  induction n generalizing t with
  | zero => exact trivial
  | succ n ih =>
      have hrest (hrest : KeepsSlot a c n (t + 1)) : KeepsSlot a d n (t + 1) :=
        ih hrest fun t' ht' => htasks t' (by omega)
      unfold KeepsSlot at h ⊢
      rw [htasks t (le_refl t), hconfig]
      split
      · rename_i hread
        rw [if_pos hread] at h
        exact hrest h
      rename_i hread
      rw [if_neg hread] at h
      split
      · exact trivial
      rename_i hopen
      rw [if_neg hopen] at h
      split
      · rename_i hopens
        rw [if_pos hopens] at h
        exact hrest h
      rename_i hopens
      rw [if_neg hopens] at h
      split
      · rename_i hsize
        rw [if_pos hsize] at h
        split
        · rename_i hsync
          rw [if_pos hsync] at h
          intro t' hlt hlt' hun
          rw [htasks t' (by omega)] at hun
          exact h t' hlt hlt' hun
        · rename_i hsync
          rw [if_neg hsync] at h
          exact hrest h
      · exact trivial

/-- No task is left that the submission could open. -/
def Skips (a : CopyAnswer) (c : CopyCtx) (n t : ℕ) : Prop :=
  ∀ t', t ≤ t' → t' < t + n → (c.tasks t').Unread →
    (c.tasks t').srcFd.isOpen = false ∧ a.opens t' = false

theorem openTask_view : (openTask a c t).2.view =
    c.view.modifyTask t ((openTask a c t).2.tasks t).view := by
  have hid : c.view = c.view.modifyTask t (c.tasks t).view :=
    CopyView.ext (Function.update_eq_self t c.view.tasks).symm rfl rfl rfl rfl rfl rfl
  have hof (f : FileTask → FileTask)
      (hf : (f (c.tasks t)).activeOps = (c.tasks t).activeOps) :
      (c.modifyTask t f).view = c.view.modifyTask t ((c.modifyTask t f).tasks t).view := by
    rw [view_modifyTask_of f hf]
    unfold modifyTask
    dsimp only
    rw [Function.update_self]
  have htwice (f g : FileTask → FileTask) :
      (c.modifyTask t f).modifyTask t g = c.modifyTask t fun task => g (f task) := by
    unfold modifyTask
    dsimp only
    rw [Function.update_self, Function.update_idem]
  unfold openTask
  dsimp only
  split_ifs
  · rw [htwice]
    exact hof (fun task => { task with srcFd := task.srcFd.open, dstFd := task.dstFd.open }) rfl
  · rw [htwice]
    exact hof (fun task => { task with srcFd := task.srcFd.open, dstFd := task.dstFd.open }) rfl
  · rw [htwice]
    exact hof (fun task => { task with srcFd := task.srcFd.open.close }) rfl
  · exact hid

theorem openTask_task_of_opens (hopens : a.opens t = true) :
    (openTask a c t).2.tasks t =
      { c.tasks t with srcFd := (c.tasks t).srcFd.open, dstFd := (c.tasks t).dstFd.open } := by
  obtain ⟨hsrc, hdst⟩ := Bool.and_eq_true_iff.mp hopens
  unfold openTask
  dsimp only
  rw [if_pos hsrc, if_pos hdst]
  split_ifs
  all_goals
    unfold modifyFile modifyTask
    dsimp only
    rw [Function.update_self, Function.update_self]

theorem openTask_task_of_not_opens (hopens : a.opens t = false) :
    ∃ fd, (fd = (c.tasks t).srcFd ∨ fd = (c.tasks t).srcFd.open.close) ∧
      (openTask a c t).2.tasks t = { c.tasks t with srcFd := fd } := by
  unfold openTask
  dsimp only
  split_ifs with hsrc hdst
  · rw [CopyAnswer.opens, hsrc, hdst] at hopens
    cases hopens
  · rw [CopyAnswer.opens, hsrc, hdst] at hopens
    cases hopens
  · refine ⟨_, .inr rfl, ?_⟩
    unfold modifyTask
    dsimp only
    rw [Function.update_self, Function.update_self]
  · exact ⟨_, .inl rfl, rfl⟩

/-- What the loop of `submit_next_read` keeps. -/
structure Submits (a : CopyAnswer) (i n t : ℕ) (c : CopyCtx) : Prop where
  good : c.view.Good
  behind : ∀ t' < t, (c.tasks t').readsDone = true
  slot : (c.slots i).state = .free ∧ KeepsSlot a c n t ∨ Skips a c n t

/-- A task that is about to be opened. -/
theorem fresh_of_unread (h : c.view.Good) (hun : (c.tasks t).Unread)
    (hclosed : (c.tasks t).srcFd.isOpen = false) : (c.tasks t).view.Fresh :=
  (h.phase t).fresh hun.1 hclosed

/-- No operation is in flight for a task that is not open. -/
theorem ne_of_fresh (h : c.view.Good) (hfresh : (c.tasks t).view.Fresh) :
    ∀ op ∈ c.inFlight, op.task ≠ t := by
  rintro op hop rfl
  have hsrc := (h.opened op hop).src
  have hsrc' : (c.view.tasks op.task).srcFd = {} := hfresh.src
  rw [hsrc'] at hsrc
  cases hsrc

theorem skip_good (h : c.view.Good) (hbehind : ∀ t' < t, (c.tasks t').readsDone = true)
    (hfresh : (c.tasks t).view.Fresh) (hopens : a.opens t = false) :
    ((openTask a c t).2.skipTask t).view.Good := by
  obtain ⟨fd, hfd, htask⟩ := openTask_task_of_not_opens (c := c) hopens
  set task : TaskView := { (c.tasks t).view with srcFd := fd, readsDone := true, done := true }
    with htaskv
  have hfin : task.Finished := by
    have hsrc : (c.tasks t).srcFd = {} := hfresh.src
    have hdst : task.dstFd = {} := hfresh.dst
    rw [hsrc] at hfd
    refine ⟨rfl, rfl, ?_, ?_⟩
    · change fd.isOpen = false ∧ fd.opened = fd.closed ∧ fd.opened ≤ 1
      rcases hfd with rfl | rfl <;> exact ⟨rfl, rfl, by decide⟩
    · rw [hdst]
      exact ⟨rfl, rfl, Nat.zero_le _⟩
  have hview : ((openTask a c t).2.skipTask t).view =
      { c.view.modifyTask t task with current := t + 1 } := by
    have hskip : ((openTask a c t).2.skipTask t).view =
        { ((openTask a c t).2.modifyTask t fun task =>
            { task with readsDone := true, done := true }).view with current := t + 1 } := rfl
    rw [hskip, view_modifyTask_of _ rfl, openTask_view, htask]
    unfold CopyView.modifyTask
    dsimp only
    rw [Function.update_idem]
    rfl
  rw [hview]
  refine (h.modifyTask (.inr (.inr hfin)) (fun op hop ht => absurd ht (ne_of_fresh h hfresh op hop))
    (fun _ => rfl) ?_).advance fun t' ht' => ?_
  · rw [hfin.src.1]
    exact fun hopen => (by cases hopen)
  · change (Function.update c.view.tasks t task t').readsDone = true
    by_cases heq : t' = t
    · rw [heq, Function.update_self]
    · rw [Function.update_of_ne heq]
      exact hbehind t' (by omega)

/-- A task after a successful `open_task`. -/
theorem open_good (h : c.view.Good) (hbehind : ∀ t' < t, (c.tasks t').readsDone = true)
    (hfresh : (c.tasks t).view.Fresh) (hopens : a.opens t = true) :
    (openTask a c t).2.view.Good ∧ ((openTask a c t).2.tasks t).view.Opened := by
  have hopened : ((openTask a c t).2.tasks t).view.Opened := by
    rw [openTask_task_of_opens hopens]
    have hsrc : (c.tasks t).srcFd = {} := hfresh.src
    have hdst : (c.tasks t).dstFd = {} := hfresh.dst
    refine ⟨hfresh.done, ?_, ?_⟩
    · change (c.tasks t).srcFd.open = _
      rw [hsrc]
      rfl
    · change (c.tasks t).dstFd.open = _
      rw [hdst]
      rfl
  refine ⟨?_, hopened⟩
  rw [openTask_view]
  refine h.modifyTask (.inr (.inl hopened)) (fun op hop ht => hopened) (fun hreads => ?_)
    fun _ => hbehind
  rw [openTask_task_of_opens hopens]
  exact hreads

theorem openTask_slots : (openTask a c t).2.slots = c.slots := by
  unfold openTask
  dsimp only
  split_ifs <;> rfl

theorem openTask_inFlight : (openTask a c t).2.inFlight = c.inFlight := by
  unfold openTask
  dsimp only
  split_ifs <;> rfl

theorem finishEmpty_readsDone : ((finishEmpty a c t i).tasks t).readsDone = true := by
  change ((finishTask a _ t i).tasks t).readsDone = true
  rw [finishTask_readsDone]
  unfold modifyTask
  dsimp only
  rw [Function.update_self]

/-- An empty file is finished at once; the slot stays free unless an fsync was submitted. -/
theorem empty_good (h : c.view.Good) (hbehind : ∀ t' < t, (c.tasks t').readsDone = true)
    (hopened : (c.tasks t).view.Opened) (hfree : (c.slots i).state = .free)
    (hnone : ∀ op ∈ c.inFlight, op.task ≠ t) :
    (finishEmpty a c t i).view.Good ∧
      (¬ (c.config.noFsync = false ∧ a.fsync t = 0) →
        ((finishEmpty a c t i).slots i).state = .free) := by
  set d := c.modifyTask t fun task => { task with readsDone := true } with hc
  have htask : d.tasks t = { c.tasks t with readsDone := true } := Function.update_self _ _ _
  have hopened' : (d.tasks t).view.Opened := by
    rw [htask]
    exact ⟨hopened.done, hopened.src, hopened.dst⟩
  have hgood : d.view.Good := by
    rw [hc, view_modifyTask_of _ rfl]
    refine h.modifyTask (.inr (.inl ?_)) (fun op hop ht => absurd ht (hnone op hop)) (fun _ => rfl)
      fun _ => hbehind
    exact ⟨hopened.done, hopened.src, hopened.dst⟩
  have hreads : (d.tasks t).readsDone = true := by rw [htask]
  have hfinish : (finishTask a d t i).view.Good :=
    finishTask_good hgood hopened' hreads hfree hnone
  refine ⟨hfinish.advance fun t' ht' => ?_, fun hsync => finishTask_slot hfree hsync⟩
  change t' < t + 1 at ht'
  change ((finishTask a d t i).tasks t').readsDone = true
  rw [finishTask_readsDone]
  by_cases heq : t' = t
  · rw [heq]
    exact hreads
  · rw [hc, (modifyTask_beside (c := c) (t := t) _).tasks t' heq]
    exact hbehind t' (by omega)

/-- What a task looks like once it has taken a chunk. -/
def chunkView (c : CopyCtx) (t : ℕ) : TaskView :=
  { (c.tasks t).view with readsDone := (c.tasks t).readsDone || c.lastChunk t }

/-- A task takes its next chunk, and the queue moves on after the last one. -/
def readView (c : CopyCtx) (t : ℕ) : CopyView :=
  { c.view.modifyTask t (c.chunkView t) with
    current := if c.lastChunk t then t + 1 else c.current }

theorem readView_good (h : c.view.Good) (hbehind : ∀ t' < t, (c.tasks t').readsDone = true)
    (hopened : (c.tasks t).view.Opened) (hunread : (c.tasks t).readsDone = false) :
    (c.readView t).Good ∧ (c.chunkView t).Opened := by
  have hopened' : (c.chunkView t).Opened := ⟨hopened.done, hopened.src, hopened.dst⟩
  refine ⟨(h.modifyTask (.inr (.inl hopened')) (fun op hop ht => hopened') (fun hreads => ?_)
    fun _ => hbehind).advance fun t' ht' => ?_, hopened'⟩
  · rw [show (c.view.tasks t).readsDone = false from hunread] at hreads
    cases hreads
  · change (Function.update c.view.tasks t (c.chunkView t) t').readsDone = true
    by_cases heq : t' = t
    · rw [heq, Function.update_self]
      unfold chunkView
      cases hlast : c.lastChunk t with
      | true => exact Bool.or_true _
      | false =>
          rw [hlast, if_neg Bool.false_ne_true, heq] at ht'
          have hread : (c.tasks t).readsDone = true := h.behind t ht'
          rw [hunread] at hread
          cases hread
    · rw [Function.update_of_ne heq]
      split_ifs at ht'
      · exact hbehind t' (by omega)
      · exact h.behind t' ht'

theorem takeChunk_view : (c.takeChunk t i).view =
    { c.readView t with slots := Function.update c.view.slots i ⟨.reading, some t⟩ } := by
  have hfirst : (c.takeChunk t i).view =
      { CopyCtx.view ((c.modifySlot i fun slot =>
          { slot with
            offset := (c.tasks t).readOffset
            bytes := c.ioLen t
            dataBytes := c.chunk t
            state := .reading
            task := some t }).modifyTask t fun task =>
          { task with
            readOffset := task.readOffset + c.chunk t
            readsDone := task.readsDone || c.lastChunk t }) with
        current := if c.lastChunk t then t + 1 else c.current } := rfl
  rw [hfirst, view_modifyTask_of _ rfl, view_modifySlot]
  rfl

/-- The next chunk of an open task is read into a free slot, or the submission fails. -/
theorem submitRead_good (h : c.view.Good) (hbehind : ∀ t' < t, (c.tasks t').readsDone = true)
    (hopened : (c.tasks t).view.Opened) (hunread : (c.tasks t).readsDone = false)
    (hfree : (c.slots i).state = .free) : (submitRead a c t i).view.Good := by
  obtain ⟨hgood, hopened'⟩ := readView_good h hbehind hopened hunread
  unfold submitRead
  split_ifs with hans
  · set op : CopyOp :=
      { kind := .read, slot := i, task := t, offset := (c.tasks t).readOffset, len := c.ioLen t }
    have heq : CopyCtx.view
        { ((c.takeChunk t i).modifyTask t fun task =>
            { task with activeOps := task.activeOps + 1 }).enqueue op with
          activeOps := c.activeOps + 1 } = (c.readView t).attach op := by
      have hfirst : CopyCtx.view
          { ((c.takeChunk t i).modifyTask t fun task =>
              { task with activeOps := task.activeOps + 1 }).enqueue op with
            activeOps := c.activeOps + 1 } =
          { ((c.takeChunk t i).modifyTask t fun task =>
              { task with activeOps := task.activeOps + 1 }).view with
            inFlight := op ::ₘ c.inFlight
            activeOps := c.activeOps + 1 } := rfl
      rw [hfirst, view_modifyTask]
      unfold CopyView.attach
      rw [if_neg fun heq : op.kind = CopyKind.fsync => (by cases heq)]
      have hview := takeChunk_view (c := c) (t := t) (i := i)
      refine CopyView.ext ?_ ?_ ?_ rfl rfl rfl rfl
      · change Function.update (c.takeChunk t i).view.tasks t ((c.takeChunk t i).view.tasks t) = _
        rw [Function.update_eq_self, hview]
      · change Function.update (c.takeChunk t i).view.taskOps t
          ((c.takeChunk t i).view.taskOps t + 1) = _
        rw [hview]
      · change (c.takeChunk t i).view.slots = _
        rw [hview]
        rfl
    rw [heq]
    refine hgood.attach hfree ?_ (fun hk => (by cases hk)) fun op' hop ht hk => ?_
    · change (Function.update c.view.tasks t (c.chunkView t) t).Opened
      rw [Function.update_self]
      exact hopened'
    · have hsync : (c.tasks op'.task).readsDone = true := (h.syncs op' hop hk).1
      rw [show op'.task = t from ht, hunread] at hsync
      cases hsync
  · rw [view_modifyTask_eq _ rfl rfl, view_freeSlot, view_setError, takeChunk_view]
    dsimp only
    rw [Function.update_idem]
    have hclear := hgood.clear_eq (i := i) hfree
    exact hclear.symm ▸ hgood

/-- **Submissions keep the invariant**, as long as each puts at most one operation on its slot. -/
theorem submitNextRead_good (h : c.view.Good) (hfree : (c.slots i).state = .free)
    (hkeeps : KeepsSlot a c (c.totalFiles - c.current) c.current) :
    (submitNextRead a i c).view.Good := by
  unfold submitNextRead
  refine submitFrom_rule (I := Submits a i) (F := fun c => c.view.Good)
    (fun h => h.good) ?_ ?_ ?_ ?_ ?_ ⟨h, h.behind, .inl ⟨hfree, hkeeps⟩⟩
  · rintro n t c ⟨hgood, hbehind, hslot⟩ hread
    have hreads : (c.tasks t).readsDone = true := by
      by_contra hno
      have hno := Bool.eq_false_of_not_eq_true hno
      exact hread ⟨hno, (hgood.phase t).of_reads hno⟩
    refine ⟨hgood, fun t' ht' => ?_, hslot.imp (fun hs => ⟨hs.1, ?_⟩) fun hs t' hle hlt => ?_⟩
    · rcases Nat.lt_succ_iff_lt_or_eq.mp ht' with hlt | rfl
      · exact hbehind t' hlt
      · exact hreads
    · have hk := hs.2
      unfold KeepsSlot at hk
      rwa [if_pos (Or.inl hreads)] at hk
    · exact hs t' (by omega) (by omega)
  · rintro n t c ⟨hgood, hbehind, hslot⟩ hun hclosed hopens
    have hfresh := fresh_of_unread hgood hun hclosed
    have hbeside : Beside t c ((openTask a c t).2.skipTask t) :=
      openTask_beside.trans skipTask_beside
    have hslots : ((openTask a c t).2.skipTask t).slots = c.slots := openTask_slots
    refine ⟨skip_good hgood hbehind hfresh hopens, fun t' ht' => ?_,
      hslot.imp (fun hs => ⟨?_, ?_⟩) fun hs t' hle hlt hun' => ?_⟩
    · rcases Nat.lt_succ_iff_lt_or_eq.mp ht' with hlt | rfl
      · rw [hbeside.tasks t' (ne_of_lt hlt)]
        exact hbehind t' hlt
      · unfold skipTask modifyTask
        dsimp only
        rw [Function.update_self]
    · rw [hslots]
      exact hs.1
    · exact (keepsSlot_fail hs.2 hun hclosed hopens).congr hbeside.config
        fun t' ht' => hbeside.tasks t' (by omega)
    · rw [hbeside.tasks t' (by omega)] at hun' ⊢
      exact hs t' (by omega) (by omega) hun'
  · rintro n t c ⟨hgood, hbehind, hslot⟩ hun hclosed hopens hsize
    have hfresh := fresh_of_unread hgood hun hclosed
    obtain ⟨hgood', hopened⟩ := open_good hgood hbehind hfresh hopens
    rcases hslot with ⟨hfree, hk⟩ | hs
    · have hfree' : ((openTask a c t).2.slots i).state = .free := by
        rw [openTask_slots]
        exact hfree
      have hbehind' (t' : ℕ) (ht' : t' < t) :
          ((openTask a c t).2.tasks t').readsDone = true := by
        rw [openTask_beside.tasks t' (ne_of_lt ht')]
        exact hbehind t' ht'
      have hbeside : Beside t c (finishEmpty a (openTask a c t).2 t i) :=
        openTask_beside.trans finishEmpty_beside
      have hkempty := keepsSlot_empty hk hun hclosed hopens hsize
      obtain ⟨hgood'', hslot'⟩ := empty_good (a := a) hgood' hbehind' hopened hfree' (by
        rw [openTask_inFlight]
        exact ne_of_fresh hgood hfresh)
      refine ⟨hgood'', fun t' ht' => ?_, ?_⟩
      · rcases Nat.lt_succ_iff_lt_or_eq.mp ht' with hlt | rfl
        · rw [hbeside.tasks t' (ne_of_lt hlt)]
          exact hbehind t' hlt
        · exact finishEmpty_readsDone
      · by_cases hsync : c.config.noFsync = false ∧ a.fsync t = 0
        · rw [if_pos hsync] at hkempty
          refine .inr fun t' hle hlt hun' => ?_
          rw [hbeside.tasks t' (by omega)] at hun' ⊢
          refine ⟨Bool.eq_false_of_not_eq_true fun hopen => ?_, hkempty t' (by omega) hlt hun'⟩
          have hread : (c.tasks t).readsDone = true := hgood.order t t' (by omega) hopen
          rw [hun.1] at hread
          cases hread
        · rw [if_neg hsync] at hkempty
          refine .inl ⟨hslot' ?_, hkempty.congr hbeside.config
            fun t' ht' => hbeside.tasks t' (by omega)⟩
          rw [openTask_beside.config]
          exact hsync
    · have hno := (hs t (le_refl t) (by omega) hun).2
      rw [hopens] at hno
      cases hno
  · rintro n t c ⟨hgood, hbehind, hslot⟩ hun hopen
    rcases hslot with ⟨hfree, -⟩ | hs
    · exact submitRead_good hgood hbehind ((hgood.phase t).opened hopen) hun.1 hfree
    · have hno := (hs t (le_refl t) (by omega) hun).1
      rw [hopen] at hno
      cases hno
  · rintro n t c ⟨hgood, hbehind, hslot⟩ hun hclosed hopens hsize
    obtain ⟨hgood', hopened⟩ :=
      open_good hgood hbehind (fresh_of_unread hgood hun hclosed) hopens
    rcases hslot with ⟨hfree, -⟩ | hs
    · refine submitRead_good hgood' (fun t' ht' => ?_) hopened ?_ ?_
      · rw [openTask_beside.tasks t' (ne_of_lt ht')]
        exact hbehind t' ht'
      · rw [openTask_task_of_opens hopens]
        exact hun.1
      · rw [openTask_slots]
        exact hfree
    · have hno := (hs t (le_refl t) (by omega) hun).2
      rw [hopens] at hno
      cases hno

end CopyCtx

end Aura
