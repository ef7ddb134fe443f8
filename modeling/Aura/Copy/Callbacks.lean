import Aura.Copy.Ownership

/-!
# The callbacks of the copy pipeline

What the callbacks do, seen as moves of `Aura.Copy.Ownership`: a read turns into a write on the same
slot, a write gives its slot back and may finish the task, an fsync closes it.

* `CopyCtx.complete_good`: callbacks keep the invariant of slots and descriptors.
-/

namespace Aura

open Lib

namespace CopyCtx

variable {c d : CopyCtx} {op : CopyOp} {t i : ℕ} {a : CopyAnswer} {r : ℤ}

/-! ## What shows of the code -/

theorem view_modifySlot (f : BufSlot → BufSlot) :
    (c.modifySlot i f).view =
      { c.view with slots := Function.update c.view.slots i (f (c.slots i)).view } := by
  unfold CopyCtx.view modifySlot
  congr 1
  funext j
  exact Function.apply_update (fun _ => BufSlot.view) c.slots i _ j

theorem view_modifyTask (f : FileTask → FileTask) :
    (c.modifyTask t f).view =
      { c.view.modifyTask t (f (c.tasks t)).view with
        taskOps := Function.update c.view.taskOps t (f (c.tasks t)).activeOps } := by
  unfold CopyCtx.view modifyTask CopyView.modifyTask
  congr 1
  · funext j
    exact Function.apply_update (fun _ => FileTask.view) c.tasks t _ j
  · funext j
    exact Function.apply_update (fun _ => FileTask.activeOps) c.tasks t _ j

/-- A change to a task that leaves its count of operations alone. -/
theorem view_modifyTask_of (f : FileTask → FileTask)
    (hf : (f (c.tasks t)).activeOps = (c.tasks t).activeOps) :
    (c.modifyTask t f).view = c.view.modifyTask t (f (c.tasks t)).view := by
  rw [view_modifyTask, hf]
  exact CopyView.ext rfl (Function.update_eq_self _ _) rfl rfl rfl rfl rfl

/-- A change to a task that does not show. -/
theorem view_modifyTask_eq (f : FileTask → FileTask)
    (hf : (f (c.tasks t)).activeOps = (c.tasks t).activeOps)
    (hview : (f (c.tasks t)).view = (c.tasks t).view) :
    (c.modifyTask t f).view = c.view := by
  rw [view_modifyTask_of f hf, hview]
  exact CopyView.ext (Function.update_eq_self _ _) rfl rfl rfl rfl rfl rfl

@[simp] theorem view_setError (e : ℤ) : (c.setError e).view = c.view := by
  unfold setError
  split_ifs <;> rfl

@[simp] theorem view_modifyFile (inode : ℕ) (f : ByteFile UInt8 → ByteFile UInt8) :
    (c.modifyFile inode f).view = c.view := rfl

@[simp] theorem view_trimTask : (trimTask a c t).view = c.view := by
  unfold trimTask
  dsimp only
  split_ifs
  · exact view_modifyFile _ _
  · exact view_setError _
  · rfl

theorem view_closeTask : (c.closeTask t).view = c.view.modifyTask t (c.view.tasks t).close :=
  view_modifyTask_of _ rfl

theorem view_freeSlot :
    (c.freeSlot i).view =
      { c.view with slots := Function.update c.view.slots i ⟨.free, none⟩ } :=
  view_modifySlot _

/-- The kernel is done with an operation, and its callback has the slot. -/
structure Over (c : CopyCtx) (op : CopyOp) (d : CopyCtx) : Prop where
  tasks : d.view.tasks = c.view.tasks
  taskOps : d.view.taskOps = c.view.taskOps
  slots : ∀ i, i ≠ op.slot → d.view.slots i = c.view.slots i
  task : (d.slots op.slot).task = some op.task
  inFlight : d.inFlight = c.inFlight.erase op
  activeOps : d.activeOps = c.activeOps
  current : d.current = c.current
  crashed : d.crashed = c.crashed

/-- The slot of an operation still knows its task when the callback starts. -/
theorem Over.transfer (h : c.view.Good) (hop : op ∈ c.inFlight) :
    Over c op (transfer op r { c with inFlight := c.inFlight.erase op }) := by
  have htask : (c.slots op.slot).task = some op.task := congrArg SlotView.task (h.owner op hop)
  unfold CopyCtx.transfer
  cases op.kind with
  | read =>
      refine ⟨rfl, rfl, fun i hi => ?_, ?_, rfl, rfl, rfl, rfl⟩
      · rw [view_modifySlot]
        exact Function.update_of_ne hi _ _
      · unfold modifySlot
        dsimp only
        rw [Function.update_self]
        exact htask
  | write => exact ⟨rfl, rfl, fun _ _ => rfl, htask, rfl, rfl, rfl, rfl⟩
  | fsync => exact ⟨rfl, rfl, fun _ _ => rfl, htask, rfl, rfl, rfl, rfl⟩

theorem Over.setError (h : Over c op d) (e : ℤ) : Over c op (d.setError e) := by
  unfold CopyCtx.setError
  split_ifs
  · exact ⟨h.tasks, h.taskOps, h.slots, h.task, h.inFlight, h.activeOps, h.current, h.crashed⟩
  · exact h

/-- A read or write callback that ends with the release of its slot. -/
theorem Over.release (h : Over c op d) (hkind : op.kind ≠ .fsync) :
    (d.release op.slot op.task).view = c.view.detach op := by
  have hview : (d.release op.slot op.task).view =
      { ((d.freeSlot op.slot).modifyTask op.task fun task =>
          { task with activeOps := task.activeOps - 1 }).view with
        activeOps := d.activeOps - 1 } := rfl
  rw [hview, view_modifyTask, view_freeSlot]
  unfold CopyView.detach
  rw [if_neg hkind]
  refine CopyView.ext ?_ ?_ ?_ h.inFlight ?_ h.current h.crashed
  · change Function.update d.view.tasks op.task (d.view.tasks op.task) = _
    rw [Function.update_eq_self, h.tasks]
  · change Function.update d.view.taskOps op.task (d.view.taskOps op.task - 1) = _
    rw [h.taskOps]
  · funext i
    change Function.update d.view.slots op.slot _ i = Function.update c.view.slots op.slot _ i
    by_cases hi : i = op.slot
    · rw [hi, Function.update_self, Function.update_self]
    · rw [Function.update_of_ne hi, Function.update_of_ne hi, h.slots i hi]
  · exact congrArg (· - 1) h.activeOps

/-! ## Finishing a task -/

/-- The cut to size changes files and the error only. -/
theorem trimTask_eq (a : CopyAnswer) (c : CopyCtx) (t : ℕ) :
    ∃ files error, trimTask a c t = { c with files, error } := by
  unfold trimTask setError
  dsimp only
  split_ifs <;> exact ⟨_, _, rfl⟩

/-- A finished task is closed, or untouched until its fsync is over. -/
theorem finishTask_tasks :
    (finishTask a c t i).tasks = c.tasks ∨
      (finishTask a c t i).tasks = (c.closeTask t).tasks := by
  obtain ⟨files, error, htrim⟩ :=
    trimTask_eq a { c with completedFiles := c.completedFiles + 1 } t
  unfold finishTask syncTask
  rw [htrim]
  split_ifs
  · exact .inl rfl
  · exact .inr rfl
  · exact .inr rfl

theorem finishTask_readsDone (t' : ℕ) :
    ((finishTask a c t i).tasks t').readsDone = (c.tasks t').readsDone := by
  rcases finishTask_tasks (a := a) (c := c) (t := t) (i := i) with htasks | htasks
  · rw [htasks]
  · rw [htasks]
    unfold closeTask modifyTask
    dsimp only
    by_cases ht' : t' = t
    · rw [ht', Function.update_self]
    · rw [Function.update_of_ne ht']

/-- Without an fsync on it the slot stays free. -/
theorem finishTask_slot (hfree : (c.slots i).state = .free)
    (hsync : ¬ (c.config.noFsync = false ∧ a.fsync t = 0)) :
    ((finishTask a c t i).slots i).state = .free := by
  obtain ⟨files, error, htrim⟩ :=
    trimTask_eq a { c with completedFiles := c.completedFiles + 1 } t
  unfold finishTask syncTask
  rw [htrim]
  dsimp only
  split_ifs with hwant hans
  · exact absurd ⟨hwant.1, hans⟩ hsync
  · unfold closeTask freeSlot modifyTask modifySlot
    dsimp only
    rw [Function.update_self]
  · exact hfree

/-- A finished task is closed at once or gets the slot for its fsync. -/
theorem finishTask_good (h : c.view.Good) (hopened : (c.tasks t).view.Opened)
    (hreads : (c.tasks t).readsDone = true) (hfree : (c.slots i).state = .free)
    (hnone : ∀ op ∈ c.inFlight, op.task ≠ t) : (finishTask a c t i).view.Good := by
  have hclose {v : CopyView} (hv : v.Good) (htask : v.tasks t = (c.tasks t).view)
      (hin : v.inFlight = c.inFlight) : (v.modifyTask t (v.tasks t).close).Good := by
    rw [htask]
    have hfin := hopened.close hreads
    refine hv.modifyTask (.inr (.inr hfin)) (fun op hop ht => ?_) (fun _ => hfin.reads) ?_
    · exact absurd ht (hnone op (hin ▸ hop))
    · rw [hfin.src.1]
      exact fun hopen => (by cases hopen)
  unfold finishTask
  set d := trimTask a { c with completedFiles := c.completedFiles + 1 } t with hc
  have hview : d.view = c.view := view_trimTask
  have htask : (d.tasks t).view = (c.tasks t).view := congrArg (fun v => v.tasks t) hview
  have hslot : (d.view.slots i).state = .free := by
    rw [hview]
    exact hfree
  unfold syncTask
  split_ifs with hsync hans
  · have hgood :
        (d.view.attach { kind := .fsync, slot := i, task := t, offset := 0, len := 0 }).Good := by
      rw [hview]
      refine h.attach hfree hopened (fun _ => ⟨hreads, hnone⟩) fun op hop ht => ?_
      exact absurd ht (hnone op hop)
    have heq : CopyCtx.view
        { (d.modifySlot i fun slot => { slot with task := some t, state := .fsyncing }).enqueue
            { kind := .fsync, slot := i, task := t, offset := 0, len := 0 } with
          activeOps := d.activeOps + 1 } =
        { (d.modifySlot i fun slot => { slot with task := some t, state := .fsyncing }).view with
          inFlight := { kind := .fsync, slot := i, task := t, offset := 0, len := 0 } ::ₘ d.inFlight
          activeOps := d.activeOps + 1 } := rfl
    rw [heq, view_modifySlot]
    exact hgood
  · have hgood : d.view.Good := by
      rw [hview]
      exact h
    rw [view_closeTask, view_freeSlot, hgood.clear_eq hslot]
    exact hclose hgood htask (congrArg CopyView.inFlight hview)
  · rw [view_closeTask]
    refine hclose ?_ htask (congrArg CopyView.inFlight hview)
    rw [hview]
    exact h

/-! ## Callbacks -/

/-- After a read or a write, the task's other operations are no fsync. -/
theorem ne_fsync_of_erase (h : c.view.Good) (hop : op ∈ c.inFlight) (hkind : op.kind ≠ .fsync)
    {op' : CopyOp} (hop' : op' ∈ c.inFlight.erase op) (ht : op'.task = op.task) :
    op'.kind ≠ .fsync := by
  intro hsync
  have halone := (h.syncs op' (Multiset.mem_of_mem_erase hop') hsync).2 op hop ht.symm
  rw [halone] at hkind
  exact hkind hsync

theorem onReadComplete_good (h : c.view.Good) (hop : op ∈ c.inFlight) (hkind : op.kind = .read)
    (hover : Over c op d) : (onReadComplete a op.slot r d).view.Good := by
  have hne : op.kind ≠ .fsync := by
    rw [hkind]
    exact fun heq => (by cases heq)
  have hdetach := h.detach hop
  unfold onReadComplete
  rw [hover.task]
  dsimp only
  by_cases hres : r ≤ 0
  · rw [if_pos hres]
    split_ifs
    · rw [(hover.setError r).release hne]
      exact hdetach
    · rw [hover.release hne]
      exact hdetach
  rw [if_neg hres]
  set wlen := if d.config.useDirect = true then roundUpSz r.toNat else r.toNat
  set d' := d.modifySlot op.slot fun slot =>
    { slot with
      buf := fun p => if r.toNat ≤ p ∧ p < wlen then 0 else slot.buf p
      dataBytes := r.toNat
      bytes := wlen
      state := .writing } with hc'
  have hslot : d'.view.slots op.slot = ⟨.writing, some op.task⟩ := by
    rw [hc', view_modifySlot, BufSlot.view, hover.task]
    exact Function.update_self _ _ _
  have hover' : Over c op d' := by
    refine ⟨hover.tasks, hover.taskOps, fun i hi => ?_, congrArg SlotView.task hslot,
      hover.inFlight, hover.activeOps, hover.current, hover.crashed⟩
    rw [hc', view_modifySlot, ← hover.slots i hi]
    exact Function.update_of_ne hi _ _
  split_ifs with hans
  · set op' : CopyOp :=
      { kind := .write, slot := op.slot, task := op.task, offset := (d'.slots op.slot).offset,
        len := wlen }
    have heq : (d'.enqueue op').view = (c.view.detach op).attach op' := by
      unfold CopyView.attach CopyView.detach
      rw [if_neg hne, if_neg fun heq : CopyKind.write = CopyKind.fsync => (by cases heq)]
      refine CopyView.ext hover'.tasks ?_ (funext fun i => ?_)
        (congrArg (op' ::ₘ ·) hover'.inFlight) ?_ hover'.current hover'.crashed
      · dsimp only
        rw [Function.update_self, Function.update_idem, Int.sub_add_cancel, Function.update_eq_self]
        exact hover'.taskOps
      · dsimp only
        rw [Function.update_idem]
        by_cases hi : i = op.slot
        · rw [hi, Function.update_self]
          exact hslot
        · rw [Function.update_of_ne hi]
          exact hover'.slots i hi
      · dsimp only
        rw [Int.sub_add_cancel]
        exact hover'.activeOps
    rw [heq]
    refine hdetach.attach ?_ (h.opened op hop) (fun hk => (by cases hk)) fun op'' hop'' ht => ?_
    · change (Function.update c.view.slots op.slot _ op.slot).state = .free
      rw [Function.update_self]
    · exact ne_fsync_of_erase h hop hne hop'' ht
  · rw [(hover'.setError _).release hne]
    exact hdetach

theorem onWriteComplete_good (h : c.view.Good) (hop : op ∈ c.inFlight)
    (hkind : op.kind = .write) (hover : Over c op d) :
    (onWriteComplete a op.slot r d).view.Good := by
  have hne : op.kind ≠ .fsync := by
    rw [hkind]
    exact fun heq => (by cases heq)
  have hdetach := h.detach hop
  unfold onWriteComplete
  rw [hover.task]
  dsimp only
  set d' := if r < 0 then d.setError r
    else if r.toNat ≠ (d.slots op.slot).bytes then d.setError (-5)
    else
      { d.modifyTask op.task fun task =>
          { task with bytesWritten := task.bytesWritten + (d.slots op.slot).dataBytes } with
        totalWritten := d.totalWritten + (d.slots op.slot).dataBytes } with hc'
  have hover' : Over c op d' := by
    rw [hc']
    split_ifs
    · exact hover.setError _
    · exact hover.setError _
    · have hview : (d.modifyTask op.task fun task =>
          { task with bytesWritten := task.bytesWritten + (d.slots op.slot).dataBytes }).view =
          d.view := view_modifyTask_eq _ rfl rfl
      exact ⟨(congrArg CopyView.tasks hview).trans hover.tasks,
        (congrArg CopyView.taskOps hview).trans hover.taskOps, hover.slots, hover.task,
        hover.inFlight, hover.activeOps, hover.current, hover.crashed⟩
  have hview := hover'.release hne
  split_ifs with hfin
  · obtain ⟨hreads, hnone, -⟩ := hfin
    have htask : ((d'.release op.slot op.task).tasks op.task).view = c.view.tasks op.task :=
      congrArg (fun v => v.tasks op.task) hview
    have hin : (d'.release op.slot op.task).inFlight = c.inFlight.erase op := hover'.inFlight
    refine finishTask_good ?_ ?_ hreads ?_ fun op' hop' ht => ?_
    · rw [hview]
      exact hdetach
    · rw [htask]
      exact h.opened op hop
    · change ((d'.release op.slot op.task).view.slots op.slot).state = .free
      rw [hview]
      unfold CopyView.detach
      dsimp only
      rw [Function.update_self]
    -- a read or write left would be counted, and no fsync runs beside this write
    · rw [hin] at hop'
      have hcount := hdetach.taskActive op.task
      have hops : (c.view.detach op).taskOps op.task = 0 := by
        rw [← hview]
        exact hnone
      rw [hops] at hcount
      have hzero : (c.inFlight.erase op).countP (CopyOp.Counts op.task) = 0 := by
        exact_mod_cast hcount.symm
      exact Multiset.countP_eq_zero.mp hzero op' hop' ⟨ht, ne_fsync_of_erase h hop hne hop' ht⟩
  · rw [hview]
    exact hdetach

theorem onFsyncComplete_good (h : c.view.Good) (hop : op ∈ c.inFlight)
    (hkind : op.kind = .fsync) (hover : Over c op d) :
    (onFsyncComplete op.slot r d).view.Good := by
  have hdetach := h.detach hop
  have hfin : (c.view.tasks op.task).close.Finished :=
    (h.opened op hop).close (h.syncs op hop hkind).1
  have hgood : ((c.view.detach op).modifyTask op.task (c.view.tasks op.task).close).Good := by
    refine hdetach.modifyTask (.inr (.inr hfin)) (fun op' hop' ht => ?_) (fun _ => hfin.reads) ?_
    · have hin : op' ∈ c.inFlight.erase op := hop'
      have heq := (h.syncs op hop hkind).2 op' (Multiset.mem_of_mem_erase hin) ht
      exact absurd (congrArg CopyOp.slot heq) (h.slot_ne_of_erase hop hin)
    · rw [hfin.src.1]
      exact fun hopen => (by cases hopen)
  unfold onFsyncComplete
  rw [hover.task]
  dsimp only
  set d' := if r < 0 then d.setError r else d with hc'
  have hover' : Over c op d' := by
    rw [hc']
    split_ifs
    · exact hover.setError _
    · exact hover
  have hview : CopyCtx.view { (d'.closeTask op.task).freeSlot op.slot with
      activeOps := d'.activeOps - 1 } =
      (c.view.detach op).modifyTask op.task (c.view.tasks op.task).close := by
    have hfirst : CopyCtx.view { (d'.closeTask op.task).freeSlot op.slot with
        activeOps := d'.activeOps - 1 } =
        { ((d'.closeTask op.task).freeSlot op.slot).view with activeOps := d'.activeOps - 1 } := rfl
    rw [hfirst, view_freeSlot, view_closeTask]
    unfold CopyView.modifyTask CopyView.detach
    rw [if_pos hkind]
    refine CopyView.ext ?_ hover'.taskOps (funext fun i => ?_) hover'.inFlight
      (congrArg (· - 1) hover'.activeOps) hover'.current hover'.crashed
    · dsimp only
      rw [hover'.tasks]
    · dsimp only
      by_cases hi : i = op.slot
      · rw [hi, Function.update_self, Function.update_self]
      · rw [Function.update_of_ne hi, Function.update_of_ne hi, hover'.slots i hi]
  rw [hview]
  exact hgood

/-- **Callbacks keep the invariant.** -/
theorem complete_good (h : c.view.Good) (heq : complete a op r c = some d) :
    d.view.Good := by
  unfold complete at heq
  split_ifs at heq with hcan
  obtain rfl := Option.some.inj heq
  have hover : Over c op (transfer op r { c with inFlight := c.inFlight.erase op }) :=
    .transfer h hcan.1
  unfold dispatch
  cases hkind : op.kind with
  | read => exact onReadComplete_good h hcan.1 hkind hover
  | write => exact onWriteComplete_good h hcan.1 hkind hover
  | fsync => exact onFsyncComplete_good h hcan.1 hkind hover

end CopyCtx

end Aura
