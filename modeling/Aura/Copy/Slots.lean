import Aura.Copy.Submissions

/-!
# The slots of the copy pipeline

* `copy_slots_exclusive`: in every run whose submissions put at most one operation on their slot, a
  slot carries at most one operation, and descriptors are closed once and never under an operation
  in flight.
* `copy_slot_shared`: an empty file followed by another one, and the fsync of the first finishes the
  second.
-/

namespace Aura

open Lib

/-- Every descriptor that was opened was closed, once. -/
def FileTask.ClosedOnce (task : FileTask) : Prop :=
  task.srcFd.isOpen = false ∧ task.srcFd.closed = task.srcFd.opened ∧ task.srcFd.opened ≤ 1 ∧
    task.dstFd.isOpen = false ∧ task.dstFd.closed = task.dstFd.opened ∧ task.dstFd.opened ≤ 1

namespace CopyCtx

variable {c d : CopyCtx} {op : CopyOp} {t i n : ℕ} {a : CopyAnswer} {result : ℤ}

/-! ## Runs -/

theorem finishTask_slots_of_ne {j : ℕ} (hj : j ≠ i) :
    (finishTask a c t i).slots j = c.slots j := by
  obtain ⟨files, error, htrim⟩ :=
    trimTask_eq a { c with completedFiles := c.completedFiles + 1 } t
  unfold finishTask syncTask
  rw [htrim]
  split_ifs
  · exact Function.update_of_ne hj _ _
  · exact Function.update_of_ne hj _ _
  · rfl

theorem submitRead_slots_of_ne {j : ℕ} (hj : j ≠ i) :
    (submitRead a c t i).slots j = c.slots j := by
  have htake : (c.takeChunk t i).slots j = c.slots j := Function.update_of_ne hj _ _
  unfold submitRead setError
  split_ifs
  · exact htake
  · exact (Function.update_of_ne hj _ _).trans htake
  · exact (Function.update_of_ne hj _ _).trans htake

/-- A submission uses its own slot only. -/
theorem submitNextRead_slots_of_ne {j : ℕ} (hj : j ≠ i) :
    (submitNextRead a i c).slots j = c.slots j := by
  unfold submitNextRead
  refine submitFrom_rule (I := fun _ _ d => d.slots j = c.slots j)
    (F := fun d => d.slots j = c.slots j) (fun h => h) (fun h _ => h) ?_ ?_ ?_ ?_ rfl
  · intro n t d h _ _ _
    exact (congrFun openTask_slots j).trans h
  · intro n t d h _ _ _ _
    change (finishTask a ((openTask a d t).2.modifyTask t _) t i).slots j = c.slots j
    exact (finishTask_slots_of_ne hj).trans ((congrFun openTask_slots j).trans h)
  · intro n t d h _ _
    exact (submitRead_slots_of_ne hj).trans h
  · intro n t d h _ _ _ _
    exact ((submitRead_slots_of_ne hj).trans (congrFun openTask_slots j)).trans h

/-- The condition on a step: a submission puts at most one operation on its slot. -/
def SubmitsSafely (c : CopyCtx) : PipelineAct CopyAnswer CopyOp → Prop
  | .submit a _ => KeepsSlot a c (c.totalFiles - c.current) c.current
  | .complete _ _ _ => True

theorem start_good (config : CopyConfig) (files : ℕ → ByteFile UInt8) (sources : List CopySource) :
    (start config files sources).view.Good := by
  refine ⟨rfl, fun op hop => absurd hop (Multiset.notMem_zero op), Multiset.nodup_zero,
    fun i hi => absurd rfl hi, fun i _ => rfl, rfl, fun t => rfl,
    fun op hop => absurd hop (Multiset.notMem_zero op),
    fun t => .inl ⟨rfl, rfl, rfl, rfl⟩, fun op hop => absurd hop (Multiset.notMem_zero op),
    fun t t' _ hopen => (by cases hopen), fun t ht => absurd ht (Nat.not_lt_zero t)⟩

theorem view_keeps (config : CopyConfig) :
    (copyPipeline config).Keeps SubmitsSafely fun c => c.view.Good where
  submit h _ hfree _ hok := submitNextRead_good h (of_decide_eq_true hfree) hok
  complete h _ heq := complete_good h heq
  setError h := by
    rw [show (copyPipeline config).setError = CopyCtx.setError from rfl, view_setError]
    exact h
  others hj := congrArg (fun slot : BufSlot => decide (slot.state = .free))
    (submitNextRead_slots_of_ne hj)

/-! ## Slot exclusivity -/

/-- **Slot exclusivity**: an operation in flight has its slot to itself, a slot is free when its
callback has released it, an fsync finishes its own task, and descriptors are closed at most once
and not under an operation. -/
structure SlotsExclusive (c : CopyCtx) : Prop where
  one : (c.inFlight.map CopyOp.slot).Nodup
  free : ∀ i, (c.slots i).state = .free ↔ ∀ op ∈ c.inFlight, op.slot ≠ i
  owner : ∀ op ∈ c.inFlight, (c.slots op.slot).task = some op.task
  fsync : ∀ op ∈ c.inFlight, op.kind = .fsync → ∀ a result d,
    complete a op result c = some d →
      (d.tasks op.task).done = true ∧ ∀ t, t ≠ op.task → d.tasks t = c.tasks t
  opened : ∀ op ∈ c.inFlight,
    (c.tasks op.task).srcFd.isOpen = true ∧ (c.tasks op.task).srcFd.closed = 0 ∧
      (c.tasks op.task).dstFd.isOpen = true ∧ (c.tasks op.task).dstFd.closed = 0
  closed : ∀ t, (c.tasks t).srcFd.closed ≤ 1 ∧ (c.tasks t).dstFd.closed ≤ 1

/-- An fsync finishes the task that its slot is attached to. -/
theorem complete_fsync (hkind : op.kind = .fsync)
    (htask : (c.slots op.slot).task = some op.task) (heq : complete a op result c = some d) :
    (d.tasks op.task).done = true ∧ ∀ t, t ≠ op.task → d.tasks t = c.tasks t := by
  unfold complete at heq
  split_ifs at heq
  obtain rfl := Option.some.inj heq
  simp only [dispatch, transfer, hkind, onFsyncComplete, htask]
  have htasks (x : CopyCtx) (e : ℤ) (hd : x.tasks = c.tasks) :
      (if e < 0 then x.setError e else x).tasks = c.tasks := by
    split_ifs
    · unfold setError
      split_ifs <;> exact hd
    · exact hd
  unfold freeSlot closeTask modifySlot modifyTask
  dsimp only
  refine ⟨?_, fun t ht => ?_⟩
  · rw [Function.update_self]
  · rw [Function.update_of_ne ht]
    exact congrFun (htasks { c with inFlight := c.inFlight.erase op } result rfl) t

theorem exclusive_of_good (h : c.view.Good) : c.SlotsExclusive where
  one := h.nodup
  free i := by
    constructor
    · exact fun hfree op hop => h.slot_ne hfree hop
    · intro hnone
      by_contra hbusy
      obtain ⟨op, hop, hslot⟩ := h.busy i hbusy
      exact hnone op hop hslot
  owner op hop := congrArg SlotView.task (h.owner op hop)
  fsync op hop hkind a result d heq :=
    complete_fsync hkind (congrArg SlotView.task (h.owner op hop)) heq
  opened op hop := by
    have hsrc : (c.tasks op.task).srcFd = _ := (h.opened op hop).src
    have hdst : (c.tasks op.task).dstFd = _ := (h.opened op hop).dst
    rw [hsrc, hdst]
    exact ⟨rfl, rfl, rfl, rfl⟩
  closed t := by
    rcases h.phase t with hfresh | hopened | hfin
    · have hsrc : (c.tasks t).srcFd = _ := hfresh.src
      have hdst : (c.tasks t).dstFd = _ := hfresh.dst
      rw [hsrc, hdst]
      exact ⟨Nat.zero_le _, Nat.zero_le _⟩
    · have hsrc : (c.tasks t).srcFd = _ := hopened.src
      have hdst : (c.tasks t).dstFd = _ := hopened.dst
      rw [hsrc, hdst]
      exact ⟨Nat.zero_le _, Nat.zero_le _⟩
    · exact ⟨hfin.src.2.1 ▸ hfin.src.2.2, hfin.dst.2.1 ▸ hfin.dst.2.2⟩

/-- `queue_free` closes what is still open. -/
theorem queueFree_closedOnce (h : c.view.Good) (ht : t < c.totalFiles) :
    (c.queueFree.tasks t).ClosedOnce := by
  unfold queueFree FileTask.ClosedOnce
  dsimp only
  rw [if_pos ht]
  dsimp only
  rcases h.phase t with hfresh | hopened | hfin
  · have hsrc : (c.tasks t).srcFd = _ := hfresh.src
    have hdst : (c.tasks t).dstFd = _ := hfresh.dst
    rw [hsrc, hdst]
    exact ⟨rfl, rfl, Nat.zero_le _, rfl, rfl, Nat.zero_le _⟩
  · have hsrc : (c.tasks t).srcFd = _ := hopened.src
    have hdst : (c.tasks t).dstFd = _ := hopened.dst
    rw [hsrc, hdst]
    exact ⟨rfl, rfl, le_refl _, rfl, rfl, le_refl _⟩
  · obtain ⟨hsrc, hsrc', hsrc''⟩ := hfin.src
    obtain ⟨hdst, hdst', hdst''⟩ := hfin.dst
    change (c.tasks t).srcFd.isOpen = false at hsrc
    change (c.tasks t).dstFd.isOpen = false at hdst
    unfold Fd.close
    rw [if_neg (by rw [hsrc]; exact Bool.false_ne_true),
      if_neg (by rw [hdst]; exact Bool.false_ne_true)]
    exact ⟨hsrc, hsrc'.symm, hsrc'', hdst, hdst'.symm, hdst''⟩

end CopyCtx

/-- **Slots are exclusive** in every run whose submissions put at most one operation on their slot,
and at the end every descriptor was closed once. -/
theorem copy_slots_exclusive (config : CopyConfig) (files : ℕ → ByteFile UInt8)
    (sources : List CopySource) {s : PipelineState CopyCtx}
    (hs : Reachable (((copyPipeline config).system (CopyCtx.start config files sources)).restrict
      ((copyPipeline config).Allows CopyCtx.SubmitsSafely)) s) :
    s.core.SlotsExclusive ∧
      (s.pc = .returned → s.core.inFlight = 0 ∧
        ∀ t < s.core.totalFiles, (s.core.queueFree.tasks t).ClosedOnce) := by
  have hgood := ((CopyCtx.view_keeps config).reachable (CopyCtx.start_good config files sources)
    (fun _ _ => rfl) hs).1
  refine ⟨CopyCtx.exclusive_of_good hgood, fun hpc => ⟨?_, fun t ht => ?_⟩⟩
  · have hidle : s.core.activeOps ≤ 0 := Pipeline.idle_of_returned hs hpc
    have hactive : s.core.activeOps = s.core.inFlight.card := hgood.active
    exact Multiset.card_eq_zero.mp (by omega)
  · exact CopyCtx.queueFree_closedOnce hgood ht

/-- One slot, chunks of a byte, fsync wanted. -/
def byteChunks : CopyConfig where
  chunkSize := 1
  pipelineDepth := 1
  chunk_pos := by decide
  depth_range := by decide
  direct_aligned := by decide

/-- The file 3 holds one byte, the others are empty. -/
def oneByteFiles (inode : ℕ) : ByteFile UInt8 :=
  if inode = 3 then ByteFile.empty.write 0 (fun _ => 7) 1 else ByteFile.empty

/-- An open, a read, a write and an fsync of a file of one byte. -/
theorem copy_slots_exclusive_one_byte :
    ((copyPipeline byteChunks).step
      { core := CopyCtx.start byteChunks oneByteFiles [⟨3, 4, 1⟩] } (.run {})).isSome = true ∧
    ∀ s, (copyPipeline byteChunks).step
        { core := CopyCtx.start byteChunks oneByteFiles [⟨3, 4, 1⟩] } (.run {}) = some s →
      s.core.inFlight.card = 1 ∧ s.core.SlotsExclusive := by
  refine ⟨by decide, fun s hs => ⟨?_, ?_⟩⟩
  · obtain rfl := Option.some.inj hs
    decide
  · refine (copy_slots_exclusive byteChunks oneByteFiles [⟨3, 4, 1⟩]
      ((Reachable.of_init rfl).step ⟨?_, hs⟩)).1
    intro x hx
    obtain rfl := Option.some.inj hx
    change CopyCtx.KeepsSlot {} _ 1 0
    unfold CopyCtx.KeepsSlot
    rw [if_neg (by decide), if_neg (by decide), if_neg (by decide), if_neg (by decide)]
    exact trivial

/-- An empty file before one of a byte, on one slot: the submission puts the fsync of the first and
the read of the second on it, and the fsync closes the second under its read. -/
theorem copy_slot_shared :
    ∃ s s', Reachable ((copyPipeline byteChunks).system
        (CopyCtx.start byteChunks oneByteFiles [⟨1, 2, 0⟩, ⟨3, 4, 1⟩])) s ∧
      ¬ (s.core.inFlight.map CopyOp.slot).Nodup ∧
      (copyPipeline byteChunks).step s
        (.complete {} { kind := .fsync, slot := 0, task := 0, offset := 0, len := 0 } 0) = some s' ∧
      (s'.core.tasks 0).done = false ∧ (s'.core.tasks 1).done = true ∧
      (s'.core.tasks 1).srcFd.closed = 1 ∧ ∃ op ∈ s'.core.inFlight, op.task = 1 := by
  have hrun : (execute (copyPipeline byteChunks).step
      { core := CopyCtx.start byteChunks oneByteFiles [⟨1, 2, 0⟩, ⟨3, 4, 1⟩] }
      [.run {}, .run {}, .run {}]).isSome = true := by decide
  obtain ⟨s, hs⟩ := Option.isSome_iff_exists.mp hrun
  have hnext : ((copyPipeline byteChunks).step s
      (.complete {} { kind := .fsync, slot := 0, task := 0, offset := 0, len := 0 } 0)).isSome =
        true := by
    obtain rfl := Option.some.inj hs
    decide
  obtain ⟨s', hs'⟩ := Option.isSome_iff_exists.mp hnext
  refine ⟨s, s', Reachable.of_execute rfl hs, ?_, hs', ?_⟩
  · obtain rfl := Option.some.inj hs
    decide
  · obtain rfl := Option.some.inj hs
    obtain rfl := Option.some.inj hs'
    refine ⟨by decide, by decide, by decide,
      { kind := .read, slot := 0, task := 1, offset := 0, len := 1 }, by decide, rfl⟩

end Aura
