import Mathlib.Data.Fintype.EquivFin
import Aura.Copy.Content

/-!
# The copy pipeline copies

A submission that puts a second operation on the slot of an fsync loses the task of that fsync
(`CopyCtx.Lost`): no callback finishes it any more, so the tool cannot exit with success. Otherwise
the bytes of `Aura.Copy.Content` are kept by submissions too.

* `copy_correct`: where every file can be opened, no read is short and no destination is the file of
  another task, success means that every destination equals its source.
* `copy_skips_unopened`: a file that cannot be opened is skipped, with success.
-/

namespace Aura

open Lib

namespace CopyCtx

variable {c d : CopyCtx} {op : CopyOp} {t t' i n : ℕ} {a : CopyAnswer} {r : ℤ}
  {f : ℕ → ByteFile UInt8}

/-! ## Lost tasks -/

/-- A task that is read and not done, while no slot knows it. -/
structure Lost (c : CopyCtx) (t : ℕ) : Prop where
  queued : t < c.totalFiles
  reads : (c.tasks t).readsDone = true
  done : (c.tasks t).done = false
  slots : ∀ i, (c.slots i).task ≠ some t

/-- A step on another task and on one slot, which does not get the lost task. -/
theorem Lost.step (h : c.Lost t) (hbeside : Beside t' c d) (hne : t ≠ t')
    (hslots : ∀ j, j ≠ i → d.slots j = c.slots j) (hslot : (d.slots i).task ≠ some t) :
    d.Lost t := by
  refine ⟨?_, ?_, ?_, fun j => ?_⟩
  · rw [hbeside.totalFiles]
    exact h.queued
  · rw [hbeside.tasks t hne]
    exact h.reads
  · rw [hbeside.tasks t hne]
    exact h.done
  · by_cases hj : j = i
    · rw [hj]
      exact hslot
    · rw [hslots j hj]
      exact h.slots j

/-- An fsync whose slot goes to another task. -/
theorem lost_of_overwritten (hgood : c.view.Good) (hop : op ∈ c.inFlight) (hkind : op.kind = .fsync)
    (hqueued : op.task < c.totalFiles) (hbeside : Beside t c d) (hne : op.task ≠ t)
    (hslots : ∀ j, j ≠ op.slot → d.slots j = c.slots j)
    (hslot : (d.slots op.slot).task ≠ some op.task) : d.Lost op.task := by
  refine ⟨?_, ?_, ?_, fun j hj => ?_⟩
  · rw [hbeside.totalFiles]
    exact hqueued
  · rw [hbeside.tasks _ hne]
    exact (hgood.syncs op hop hkind).1
  · rw [hbeside.tasks _ hne]
    exact (hgood.opened op hop).done
  -- another busy slot with this task has an operation, and the fsync is its only one
  · have hother : j ≠ op.slot := by
      rintro rfl
      exact hslot hj
    rw [hslots j hother] at hj
    have hbusy : (c.view.slots j).state ≠ .free := by
      intro hfree
      have hnone : (c.slots j).task = none := hgood.idle j hfree
      rw [hj] at hnone
      cases hnone
    obtain ⟨op', hop', rfl⟩ := hgood.busy j hbusy
    have htask : (c.slots op'.slot).task = some op'.task :=
      congrArg SlotView.task (hgood.owner op' hop')
    rw [hj] at htask
    have heq := (hgood.syncs op hop hkind).2 op' hop' (Option.some.inj htask).symm
    exact hother (congrArg CopyOp.slot heq)

theorem task_of_update {slot : BufSlot} (slots : ℕ → BufSlot) :
    (Function.update slots i slot i).task = slot.task := by
  rw [Function.update_self]

/-- The slot of a finished task is left as it is, gets its fsync, or is given back. -/
theorem finishTask_slot_task : ((finishTask a c t i).slots i).task = (c.slots i).task ∨
    ((finishTask a c t i).slots i).task = some t ∨ ((finishTask a c t i).slots i).task = none := by
  obtain ⟨files, error, htrim⟩ :=
    trimTask_eq a { c with completedFiles := c.completedFiles + 1 } t
  unfold finishTask syncTask
  rw [htrim]
  split_ifs
  · exact .inr (.inl (task_of_update _))
  · exact .inr (.inr (task_of_update _))
  · exact .inl rfl

/-- A read takes the slot, or gives it back. -/
theorem submitRead_slot_task : ((submitRead a c t i).slots i).task = some t ∨
    ((submitRead a c t i).slots i).task = none := by
  by_cases hans : a.read = 0
  · rw [submitRead_slot hans]
    exact .inl rfl
  · refine .inr ?_
    unfold submitRead
    rw [if_neg hans]
    exact task_of_update _

theorem onReadComplete_slot_task (htask : (c.slots i).task = some t) :
    ((onReadComplete a i r c).slots i).task = some t ∨
      ((onReadComplete a i r c).slots i).task = none := by
  have hrelease (x : CopyCtx) : ((x.release i t).slots i).task = none :=
    task_of_update _
  unfold onReadComplete
  rw [htask]
  dsimp only
  by_cases hres : r ≤ 0
  · rw [if_pos hres]
    exact .inr (hrelease _)
  rw [if_neg hres]
  by_cases hans : a.write = 0
  · rw [if_pos hans]
    exact .inl ((task_of_update _).trans htask)
  · rw [if_neg hans]
    exact .inr (hrelease _)

theorem onWriteComplete_slot_task (htask : (c.slots i).task = some t) :
    ((onWriteComplete a i r c).slots i).task = some t ∨
      ((onWriteComplete a i r c).slots i).task = none := by
  have hrelease (x : CopyCtx) : ((x.release i t).slots i).task = none :=
    task_of_update _
  have hlast (x : CopyCtx) :
      ((if ((x.release i t).tasks t).readsDone = true ∧ ((x.release i t).tasks t).activeOps = 0 ∧
          ((x.release i t).tasks t).done = false then finishTask a (x.release i t) t i
        else x.release i t).slots i).task = some t ∨
      ((if ((x.release i t).tasks t).readsDone = true ∧ ((x.release i t).tasks t).activeOps = 0 ∧
          ((x.release i t).tasks t).done = false then finishTask a (x.release i t) t i
        else x.release i t).slots i).task = none := by
    split_ifs
    · rcases finishTask_slot_task (a := a) (c := x.release i t) (t := t) (i := i) with h | h | h
      · exact .inr (h.trans (hrelease x))
      · exact .inl h
      · exact .inr h
    · exact .inr (hrelease x)
  unfold onWriteComplete
  rw [htask]
  exact hlast _

theorem onFsyncComplete_slot_task (htask : (c.slots i).task = some t) :
    ((onFsyncComplete i r c).slots i).task = none := by
  unfold onFsyncComplete
  rw [htask]
  exact task_of_update _

theorem onReadComplete_done (htask : (c.slots i).task = some t) :
    ((onReadComplete a i r c).tasks t).done = (c.tasks t).done := by
  unfold onReadComplete
  rw [htask]
  dsimp only
  by_cases hres : r ≤ 0
  · rw [if_pos hres, release_self]
    split_ifs
    · rw [setError_tasks]
    · rfl
  rw [if_neg hres]
  by_cases hans : a.write = 0
  · rw [if_pos hans]
    rfl
  · rw [if_neg hans, release_self, setError_tasks]
    rfl

theorem onWriteComplete_done (htask : (c.slots i).task = some t) (hdone : (c.tasks t).done = true) :
    ((onWriteComplete a i r c).tasks t).done = true := by
  have hlast (x : CopyCtx) (hx : (x.tasks t).done = true) :
      ((if ((x.release i t).tasks t).readsDone = true ∧ ((x.release i t).tasks t).activeOps = 0 ∧
          ((x.release i t).tasks t).done = false then finishTask a (x.release i t) t i
        else x.release i t).tasks t).done = true := by
    have hrelease : ((x.release i t).tasks t).done = true := by
      rw [release_self]
      exact hx
    rw [if_neg fun hfin => (by rw [hrelease] at hfin; cases hfin.2.2)]
    exact hrelease
  unfold onWriteComplete
  rw [htask]
  refine hlast _ ?_
  split_ifs
  · rw [setError_tasks]
    exact hdone
  · rw [setError_tasks]
    exact hdone
  · change (Function.update c.tasks t _ t).done = true
    rw [Function.update_self]
    exact hdone

/-- The kernel leaves the owners of the slots alone. -/
theorem transfer_slot_task (j : ℕ) : ((transfer op r c).slots j).task = (c.slots j).task := by
  unfold transfer
  cases op.kind with
  | read =>
      by_cases hj : j = op.slot
      · rw [hj]
        exact task_of_update _
      · exact congrArg BufSlot.task (Function.update_of_ne hj _ _)
  | write => rfl
  | fsync => rfl

/-- **What a callback does**: without a task it crashes, with one it works on it and on the slot. -/
theorem complete_cases (heq : complete a op r c = some d) :
    ∃ x, Done op r c x ∧ (∀ j, (x.slots j).task = (c.slots j).task) ∧
      (((c.slots op.slot).task = none ∧ d = { x with crashed := true }) ∨
        ∃ t, (c.slots op.slot).task = some t ∧ d = dispatch a op r x ∧
          Leaves t op.slot x d ∧ Steps t x d ∧ ((x.tasks t).done = true → (d.tasks t).done = true) ∧
          ((d.slots op.slot).task = some t ∨ (d.slots op.slot).task = none)) := by
  unfold complete at heq
  split_ifs at heq
  obtain rfl := Option.some.inj heq
  have howner (j : ℕ) : ((transfer op r { c with inFlight := c.inFlight.erase op }).slots j).task =
      (c.slots j).task := transfer_slot_task j
  refine ⟨_, transfer_done, howner, ?_⟩
  generalize transfer op r { c with inFlight := c.inFlight.erase op } = x at howner
  have hslot := howner op.slot
  cases htask : (c.slots op.slot).task with
  | none =>
      rw [htask] at hslot
      refine .inl ⟨rfl, ?_⟩
      unfold dispatch
      cases op.kind with
      | read => simp only [onReadComplete, hslot]
      | write => simp only [onWriteComplete, hslot]
      | fsync => simp only [onFsyncComplete, hslot]
  | some t =>
      rw [htask] at hslot
      refine .inr ⟨t, rfl, rfl, ?_⟩
      unfold dispatch
      cases op.kind with
      | read =>
          exact ⟨onReadComplete_leaves hslot, (onReadComplete_steps hslot).1,
            fun hdone => (onReadComplete_done hslot).trans hdone, onReadComplete_slot_task hslot⟩
      | write =>
          exact ⟨onWriteComplete_leaves hslot, (onWriteComplete_steps hslot).1,
            onWriteComplete_done hslot, onWriteComplete_slot_task hslot⟩
      | fsync =>
          exact ⟨onFsyncComplete_leaves hslot, (onFsyncComplete_steps hslot).1,
            fun _ => (onFsyncComplete_steps hslot).2, .inr (onFsyncComplete_slot_task hslot)⟩

/-- **A lost task stays lost** in callbacks. -/
theorem complete_lost (h : c.Lost t) (heq : complete a op r c = some d) : d.Lost t := by
  obtain ⟨x, hdone, howner, ⟨-, rfl⟩ | ⟨t', htask, -, hleaves, -, -, hslot⟩⟩ := complete_cases heq
  · refine ⟨?_, ?_, ?_, fun j => ?_⟩
    · exact lt_of_lt_of_eq h.queued hdone.totalFiles.symm
    · exact (congrArg FileTask.readsDone (congrFun hdone.tasks t)).trans h.reads
    · exact (congrArg FileTask.done (congrFun hdone.tasks t)).trans h.done
    · rw [howner j]
      exact h.slots j
  · have hx : x.Lost t := by
      refine ⟨?_, ?_, ?_, fun j => ?_⟩
      · rw [hdone.totalFiles]
        exact h.queued
      · rw [hdone.tasks]
        exact h.reads
      · rw [hdone.tasks]
        exact h.done
      · rw [howner j]
        exact h.slots j
    have hne : t ≠ t' := by
      rintro rfl
      exact h.slots _ htask
    refine hx.step hleaves.beside hne hleaves.slots ?_
    rcases hslot with hslot | hslot
    · rw [hslot]
      exact fun heq => hne (Option.some.inj heq).symm
    · rw [hslot]
      exact fun heq => (by cases heq)

theorem complete_error (heq : complete a op r c = some d) (hzero : d.error = 0) : c.error = 0 := by
  obtain ⟨x, hdone, -, ⟨-, rfl⟩ | ⟨t', -, -, -, hsteps, -, -⟩⟩ := complete_cases heq
  · exact hdone.error ▸ hzero
  · exact hdone.error ▸ hsteps.error hzero

/-- Finished tasks stay finished. -/
theorem complete_allDone (heq : complete a op r c = some d) (hall : c.allTasksDone = true) :
    d.allTasksDone = true := by
  rw [allTasksDone_iff] at hall ⊢
  obtain ⟨x, hx, -, ⟨-, rfl⟩ | ⟨t', -, -, hleaves, -, hdone, -⟩⟩ := complete_cases heq
  · intro t ht
    change t < x.totalFiles at ht
    change (x.tasks t).done = true
    rw [hx.totalFiles] at ht
    rw [hx.tasks]
    exact hall t ht
  · intro t ht
    rw [hleaves.beside.totalFiles, hx.totalFiles] at ht
    by_cases heq' : t = t'
    · rw [heq'] at ht ⊢
      refine hdone ?_
      rw [hx.tasks]
      exact hall t' ht
    · rw [hleaves.beside.tasks t heq', hx.tasks]
      exact hall t ht

/-! ## Submissions -/

/-- **The condition on a submission**: the files that it opens can be opened. `n` tasks are left
from `t` on. -/
def OpensAll (a : CopyAnswer) (c : CopyCtx) : (n t : ℕ) → Prop
  | 0, _ => True
  | n + 1, t =>
      if (c.tasks t).readsDone = true ∨ (c.tasks t).done = true then OpensAll a c n (t + 1)
      else if (c.tasks t).srcFd.isOpen then True
      else a.opens t = true ∧ ((c.tasks t).fileSize = 0 → OpensAll a c n (t + 1))

instance decidableOpensAll (a : CopyAnswer) (c : CopyCtx) (n t : ℕ) :
    Decidable (OpensAll a c n t) :=
  match n with
  | 0 => .isTrue trivial
  | n + 1 =>
      have := decidableOpensAll a c n (t + 1)
      inferInstanceAs (Decidable (
        if (c.tasks t).readsDone = true ∨ (c.tasks t).done = true then OpensAll a c n (t + 1)
        else if (c.tasks t).srcFd.isOpen then True
        else a.opens t = true ∧ ((c.tasks t).fileSize = 0 → OpensAll a c n (t + 1))))

/-- The condition reads the tasks from `t` on. -/
theorem OpensAll.congr (h : OpensAll a c n t) (htasks : ∀ t', t ≤ t' → d.tasks t' = c.tasks t') :
    OpensAll a d n t := by
  induction n generalizing t with
  | zero => exact trivial
  | succ n ih =>
      have hrest (hrest : OpensAll a c n (t + 1)) : OpensAll a d n (t + 1) :=
        ih hrest fun t' ht' => htasks t' (by omega)
      unfold OpensAll at h ⊢
      rw [htasks t (le_refl t)]
      split
      · rename_i hread
        rw [if_pos hread] at h
        exact hrest h
      rename_i hread
      rw [if_neg hread] at h
      split
      · exact trivial
      rename_i hopen
      rw [if_neg hopen] at h
      exact ⟨h.1, fun hsize => hrest (h.2 hsize)⟩

theorem OpensAll.opens (h : OpensAll a c (n + 1) t) (hun : (c.tasks t).Unread)
    (hclosed : (c.tasks t).srcFd.isOpen = false) :
    a.opens t = true ∧ ((c.tasks t).fileSize = 0 → OpensAll a c n (t + 1)) := by
  unfold OpensAll at h
  rwa [if_neg hun.not_or, if_neg (by rw [hclosed]; exact Bool.false_ne_true)] at h

/-- The slot of a submission waits for the fsync of an empty file. -/
def Syncing (i : ℕ) (c : CopyCtx) : Prop :=
  c.config.noFsync = false ∧ ∃ op ∈ c.inFlight, op.kind = .fsync ∧ op.slot = i ∧
    op.task < c.totalFiles

/-- What the loop of `submit_next_read` keeps of the bytes. -/
structure Copies (f : ℕ → ByteFile UInt8) (a : CopyAnswer) (i n t : ℕ) (c : CopyCtx) : Prop where
  good : c.view.Good
  content : Content f c
  apart : c.Apart
  queued : n ≠ 0 → t + n ≤ c.totalFiles
  behind : ∀ t' < t, (c.tasks t').readsDone = true
  opens : OpensAll a c n t
  slot : (c.slots i).state = .free ∨ Syncing i c

theorem finishEmpty_leaves : Leaves t i c (finishEmpty a c t i) := by
  have hmark : Leaves t i c (c.modifyTask t fun task => { task with readsDone := true }) :=
    modifyTask_leaves rfl rfl rfl
  have h := hmark.trans (finishTask_leaves (a := a))
  exact ⟨⟨h.beside.config, h.beside.totalFiles, h.beside.tasks⟩, h.src, h.dst, h.fileSize, h.files,
    h.slots, h.ops⟩

theorem finishEmpty_error (h : (finishEmpty a c t i).error = 0) : c.error = 0 :=
  finishTask_error (c := c.modifyTask t fun task => { task with readsDone := true }) h

/-- An empty file that is to be synced leaves its fsync on the slot. -/
theorem finishEmpty_syncing (hopened : (c.tasks t).view.Opened) (ht : t < c.totalFiles)
    (hsync : c.config.noFsync = false ∧ a.fsync t = 0) : Syncing i (finishEmpty a c t i) := by
  set x := c.modifyTask t fun task => { task with readsDone := true }
  have hopen : (x.tasks t).dstFd.isOpen = true := by
    have hdst : (c.tasks t).dstFd = _ := hopened.dst
    rw [modifyTask_self, hdst]
  obtain ⟨files, error, htrim⟩ :=
    trimTask_eq a { x with completedFiles := x.completedFiles + 1 } t
  have hbeside : Beside t c (finishEmpty a c t i) := finishEmpty_beside
  refine ⟨?_, { kind := .fsync, slot := i, task := t, offset := 0, len := 0 }, ?_, rfl, rfl, ?_⟩
  · rw [hbeside.config]
    exact hsync.1
  · change _ ∈ (finishTask a x t i).inFlight
    unfold finishTask syncTask
    rw [htrim, if_pos ⟨hsync.1, hopen⟩, if_pos hsync.2]
    exact Multiset.mem_cons_self _ _
  · rw [hbeside.totalFiles]
    exact ht

/-- The slot of an empty file goes to its fsync or back, where files are to be synced. -/
theorem finishEmpty_slot_task (hopened : (c.tasks t).view.Opened)
    (hsync : c.config.noFsync = false) :
    ((finishEmpty a c t i).slots i).task = some t ∨
      ((finishEmpty a c t i).slots i).task = none := by
  set x := c.modifyTask t fun task => { task with readsDone := true }
  have hopen : (x.tasks t).dstFd.isOpen = true := by
    have hdst : (c.tasks t).dstFd = _ := hopened.dst
    rw [modifyTask_self, hdst]
  obtain ⟨files, error, htrim⟩ :=
    trimTask_eq a { x with completedFiles := x.completedFiles + 1 } t
  change ((finishTask a x t i).slots i).task = _ ∨ ((finishTask a x t i).slots i).task = _
  unfold finishTask syncTask
  rw [htrim, if_pos ⟨hsync, hopen⟩]
  split_ifs
  · exact .inl (task_of_update _)
  · exact .inr (task_of_update _)

/-- **A second operation on the slot of an fsync** loses the task of the fsync. -/
theorem Syncing.lost (h : Syncing i c) (hgood : c.view.Good) (hun : (c.tasks t).readsDone = false)
    (hleaves : Leaves t i c d)
    (hslot : (d.slots i).task = some t ∨ (d.slots i).task = none) : ∃ t', d.Lost t' := by
  obtain ⟨-, op, hop, hkind, rfl, hqueued⟩ := h
  have hne : op.task ≠ t := by
    rintro rfl
    have hreads : (c.tasks op.task).readsDone = true := (hgood.syncs op hop hkind).1
    rw [hun] at hreads
    cases hreads
  refine ⟨_, lost_of_overwritten hgood hop hkind hqueued hleaves.beside hne hleaves.slots ?_⟩
  rcases hslot with hslot | hslot
  · rw [hslot]
    exact fun heq => hne (Option.some.inj heq).symm
  · rw [hslot]
    exact fun heq => (by cases heq)

/-- No other task has an operation on a free slot. -/
theorem slot_ne_of_free (hgood : c.view.Good) (hfree : (c.slots i).state = .free) :
    ∀ op ∈ c.inFlight, op.task ≠ t → op.slot ≠ i :=
  fun _ hop _ => hgood.slot_ne hfree hop

/-- What is left of a submission once a file is open. -/
theorem Copies.opened (h : Copies f a i (n + 1) t c) (hun : (c.tasks t).Unread)
    (hclosed : (c.tasks t).srcFd.isOpen = false) :
    Copies f a i (n + 1) t (openTask a c t).2 ∧ ((openTask a c t).2.tasks t).view.Opened ∧
      ((openTask a c t).2.tasks t).Unread ∧ ∀ op ∈ (openTask a c t).2.inFlight, op.task ≠ t := by
  have hopens := (h.opens.opens hun hclosed).1
  have hfresh := fresh_of_unread h.good hun hclosed
  have hnone := ne_of_fresh h.good hfresh
  obtain ⟨hgood, hopened⟩ := open_good h.good h.behind hfresh hopens
  have hleaves : Leaves t i c (openTask a c t).2 := openTask_leaves
  have ht : t < c.totalFiles := by
    have hqueued := h.queued (Nat.succ_ne_zero n)
    omega
  have hun' : ((openTask a c t).2.tasks t).Unread := by
    rw [openTask_task_of_opens hopens]
    exact hun
  refine ⟨⟨hgood, ?_, hleaves.samePaths.apart h.apart, ?_, fun t' ht' => ?_, ?_, ?_⟩, hopened,
    hun', ?_⟩
  · intro hzero
    have hzero' : c.error = 0 := openTask_error.symm.trans hzero
    refine ⟨fun op hop => ?_, fun t' ht' => ?_⟩
    · rw [openTask_inFlight] at hop
      rw [hleaves.beside.totalFiles]
      exact (h.content hzero').1 op hop
    · rw [hleaves.beside.totalFiles] at ht'
      have hc := (h.content hzero').2 t' ht'
      by_cases heq : t' = t
      · rw [heq] at hc ⊢
        exact openTask_content hc hfresh hnone hopens (h.apart t ht t ht).1.symm
      -- the slots stay as they are, so any one will do that carries no operation
      · obtain ⟨j, hj⟩ := Infinite.exists_notMem_finset (c.inFlight.map CopyOp.slot).toFinset
        refine (openTask_leaves (i := j)).content h.apart ht heq ht' (fun op hop _ hslot => ?_) hc
        exact hj (Multiset.mem_toFinset.mpr (hslot ▸ Multiset.mem_map_of_mem _ hop))
  · rw [hleaves.beside.totalFiles]
    exact h.queued
  · rw [hleaves.beside.tasks t' (ne_of_lt ht')]
    exact h.behind t' ht'
  · unfold OpensAll
    have hsrc : ((openTask a c t).2.tasks t).srcFd = _ := hopened.src
    rw [if_neg hun'.not_or, if_pos (by rw [hsrc])]
    exact trivial
  · refine h.slot.imp (fun hfree => ?_) fun hsync => ?_
    · rw [openTask_slots]
      exact hfree
    · obtain ⟨hwant, op, hop, hkind, hslot, hqueued⟩ := hsync
      refine ⟨hleaves.beside.config ▸ hwant, op, ?_, hkind, hslot, ?_⟩
      · rw [openTask_inFlight]
        exact hop
      · rw [hleaves.beside.totalFiles]
        exact hqueued
  · rw [openTask_inFlight]
    exact hnone

/-- An empty file is finished at once. -/
theorem Copies.empty (h : Copies f a i (n + 1) t c) (hun : (c.tasks t).Unread)
    (hopened : (c.tasks t).view.Opened) (hnone : ∀ op ∈ c.inFlight, op.task ≠ t)
    (hempty : (c.tasks t).fileSize = 0) (hrest : OpensAll a c n (t + 1)) :
    Copies f a i n (t + 1) (finishEmpty a c t i) ∨ ∃ t', (finishEmpty a c t i).Lost t' := by
  have hleaves : Leaves t i c (finishEmpty a c t i) := finishEmpty_leaves
  have hqueued := h.queued (Nat.succ_ne_zero n)
  have ht : t < c.totalFiles := by omega
  rcases h.slot with hfree | hsync
  · left
    obtain ⟨hgood, hslot⟩ := empty_good (a := a) h.good h.behind hopened hfree hnone
    refine ⟨hgood, ?_, hleaves.samePaths.apart h.apart, fun _ => ?_, fun t' ht' => ?_, ?_, ?_⟩
    · refine hleaves.step h.apart ht (slot_ne_of_free h.good hfree) h.content finishEmpty_error
        fun hzero => ?_
      exact finishEmpty_content ((h.content (finishEmpty_error hzero)).2 t ht) hopened hempty hnone
        (h.apart t ht t ht).1.symm hzero
    · rw [hleaves.beside.totalFiles]
      omega
    · rcases Nat.lt_succ_iff_lt_or_eq.mp ht' with hlt | rfl
      · rw [hleaves.beside.tasks t' (ne_of_lt hlt)]
        exact h.behind t' hlt
      · exact finishEmpty_readsDone
    · exact hrest.congr fun t' ht' => hleaves.beside.tasks t' (by omega)
    · by_cases hwant : c.config.noFsync = false ∧ a.fsync t = 0
      · exact .inr (finishEmpty_syncing hopened ht hwant)
      · exact .inl (hslot hwant)
  · exact .inr (hsync.lost h.good hun.1 hleaves (finishEmpty_slot_task hopened hsync.1))

/-- The next chunk of an open task is read. -/
theorem Copies.read (h : Copies f a i (n + 1) t c) (hun : (c.tasks t).Unread)
    (hopened : (c.tasks t).view.Opened) :
    ((submitRead a c t i).view.Good ∧ Content f (submitRead a c t i)) ∨
      ∃ t', (submitRead a c t i).Lost t' := by
  have hleaves : Leaves t i c (submitRead a c t i) := submitRead_leaves
  have ht : t < c.totalFiles := by
    have hqueued := h.queued (Nat.succ_ne_zero n)
    omega
  rcases h.slot with hfree | hsync
  · left
    refine ⟨submitRead_good h.good h.behind hopened hun.1 hfree, ?_⟩
    refine hleaves.step h.apart ht (slot_ne_of_free h.good hfree) h.content
      (fun hzero => (submitRead_error hzero).2) fun hzero => ?_
    obtain ⟨hans, hzero'⟩ := submitRead_error hzero
    refine submitRead_content ((h.content hzero').2 t ht) hopened hun.1
      (fun op hop htask hkind => ?_)
      (fun op hop => h.good.slot_ne hfree hop) hans
    have hreads : (c.tasks op.task).readsDone = true := (h.good.syncs op hop hkind).1
    rw [htask, hun.1] at hreads
    cases hreads
  · exact .inr (hsync.lost h.good hun.1 hleaves submitRead_slot_task)

theorem Lost.ne (h : c.Lost t) (hun : (c.tasks t').Unread) : t ≠ t' := by
  rintro rfl
  have hreads := h.reads
  rw [hun.1] at hreads
  cases hreads

/-- A submission of a read leaves a lost task lost. -/
theorem submitRead_lost (h : c.Lost t) (hun : (c.tasks t').Unread) :
    (submitRead a c t' i).Lost t := by
  have hne := h.ne hun
  have hleaves : Leaves t' i c (submitRead a c t' i) := submitRead_leaves
  refine h.step hleaves.beside hne hleaves.slots ?_
  rcases submitRead_slot_task (a := a) (c := c) (t := t') (i := i) with hslot | hslot
  · rw [hslot]
    exact fun heq => hne (Option.some.inj heq).symm
  · rw [hslot]
    exact fun heq => (by cases heq)

theorem openTask_lost (h : c.Lost t) (hun : (c.tasks t').Unread) : (openTask a c t').2.Lost t := by
  refine h.step (i := 0) openTask_beside (h.ne hun) (fun j _ => congrFun openTask_slots j) ?_
  rw [openTask_slots]
  exact h.slots 0

theorem finishEmpty_lost (h : c.Lost t) (hne : t ≠ t') : (finishEmpty a c t' i).Lost t := by
  have hleaves : Leaves t' i c (finishEmpty a c t' i) := finishEmpty_leaves
  refine h.step hleaves.beside hne hleaves.slots ?_
  set x := c.modifyTask t' fun task => { task with readsDone := true }
  have hslots : x.slots = c.slots := rfl
  change ((finishTask a x t' i).slots i).task ≠ some t
  rcases finishTask_slot_task (a := a) (c := x) (t := t') (i := i) with hslot | hslot | hslot
  · rw [hslot, hslots]
    exact h.slots i
  · rw [hslot]
    exact fun heq => hne (Option.some.inj heq).symm
  · rw [hslot]
    exact fun heq => (by cases heq)

/-- The bytes are kept, or a task is lost. -/
def CopiesOrLoses (f : ℕ → ByteFile UInt8) (c₀ c : CopyCtx) : Prop :=
  (c.view.Good ∧ Content f c ∧ SamePaths c₀ c) ∨ ∃ t, c.Lost t

/-- **Submissions keep the bytes**, where the files that they open can be opened, or they lose a
task. -/
theorem submitNextRead_copies {c₀ : CopyCtx} (h : CopiesOrLoses f c₀ c) (hapart : c₀.Apart)
    (hfree : (c.slots i).state = .free)
    (hopens : OpensAll a c (c.totalFiles - c.current) c.current) :
    CopiesOrLoses f c₀ (submitNextRead a i c) := by
  unfold submitNextRead
  refine submitFrom_rule
    (I := fun n t d => (Copies f a i n t d ∧ SamePaths c₀ d) ∨ ∃ t, d.Lost t)
    (F := CopiesOrLoses f c₀) ?_ ?_ ?_ ?_ ?_ ?_ ?_
  · rintro t d (⟨h, hpaths⟩ | hlost)
    · exact .inl ⟨h.good, h.content, hpaths⟩
    · exact .inr hlost
  · rintro n t d (⟨h, hpaths⟩ | hlost) hpass
    · have hreads : (d.tasks t).readsDone = true := by
        by_contra hno
        have hno := Bool.eq_false_of_not_eq_true hno
        exact hpass ⟨hno, (h.good.phase t).of_reads hno⟩
      refine .inl ⟨⟨h.good, h.content, h.apart, fun hn => ?_, fun t' ht' => ?_, ?_, h.slot⟩, hpaths⟩
      · have hqueued := h.queued (Nat.succ_ne_zero n)
        omega
      · rcases Nat.lt_succ_iff_lt_or_eq.mp ht' with hlt | rfl
        · exact h.behind t' hlt
        · exact hreads
      · have hopens := h.opens
        unfold OpensAll at hopens
        rwa [if_pos (Or.inl hreads)] at hopens
    · exact .inr hlost
  · rintro n t d (⟨h, -⟩ | ⟨t₀, hlost⟩) hun hclosed hnot
    · rw [(h.opens.opens hun hclosed).1] at hnot
      cases hnot
    · refine .inr ⟨t₀, (openTask_lost hlost hun).step (i := 0) skipTask_beside (hlost.ne hun)
        (fun _ _ => rfl) ((openTask_lost hlost hun).slots 0)⟩
  · rintro n t d (⟨h, hpaths⟩ | ⟨t₀, hlost⟩) hun hclosed hopens hsize
    · obtain ⟨h', hopened, hun', hnone⟩ := h.opened hun hclosed
      have hleaves : Leaves t i d (openTask a d t).2 := openTask_leaves
      have hrest : OpensAll a (openTask a d t).2 n (t + 1) :=
        ((h.opens.opens hun hclosed).2 hsize).congr fun t' ht' =>
          hleaves.beside.tasks t' (by omega)
      refine (h'.empty hun' hopened hnone (hleaves.fileSize.trans hsize) hrest).imp (fun hc => ?_)
        id
      exact ⟨hc, hpaths.trans (hleaves.samePaths.trans (finishEmpty_leaves (i := i)).samePaths)⟩
    · exact .inr ⟨t₀, finishEmpty_lost (openTask_lost hlost hun) (hlost.ne hun)⟩
  · rintro n t d (⟨h, hpaths⟩ | ⟨t₀, hlost⟩) hun hopen
    · refine (h.read hun ((h.good.phase t).opened hopen)).imp (fun hc => ?_) id
      exact ⟨hc.1, hc.2, hpaths.trans (submitRead_leaves (i := i)).samePaths⟩
    · exact .inr ⟨t₀, submitRead_lost hlost hun⟩
  · rintro n t d (⟨h, hpaths⟩ | ⟨t₀, hlost⟩) hun hclosed hopens hsize
    · obtain ⟨h', hopened, hun', -⟩ := h.opened hun hclosed
      refine (h'.read hun' hopened).imp (fun hc => ?_) id
      exact ⟨hc.1, hc.2, hpaths.trans ((openTask_leaves (i := i)).samePaths.trans
        (submitRead_leaves (i := i)).samePaths)⟩
    · have hun' : ((openTask a d t).2.tasks t).Unread := by
        rw [openTask_task_of_opens hopens]
        exact hun
      exact .inr ⟨t₀, submitRead_lost (openTask_lost hlost hun) hun'⟩
  · refine h.imp (fun ⟨hgood, hcontent, hpaths⟩ =>
      ⟨⟨hgood, hcontent, hpaths.apart hapart, fun hn => ?_,
      hgood.behind, hopens, .inl hfree⟩, hpaths⟩) id
    omega

/-! ## Runs -/

/-- The condition on a step: the files that a submission opens can be opened, and no read is short.
-/
def CopiesAll (c : CopyCtx) : PipelineAct CopyAnswer CopyOp → Prop
  | .submit a _ => OpensAll a c (c.totalFiles - c.current) c.current
  | .complete _ op r => c.FullRead op r

instance (c : CopyCtx) (x : PipelineAct CopyAnswer CopyOp) : Decidable (c.CopiesAll x) :=
  match x with
  | .submit _ _ => decidableOpensAll _ _ _ _
  | .complete _ op r => inferInstanceAs (Decidable (op.kind = .read → 0 ≤ r → c.error = 0 → _))

theorem copies_keeps (config : CopyConfig) {c₀ : CopyCtx} (hapart : c₀.Apart) :
    (copyPipeline config).Keeps CopiesAll (CopiesOrLoses f c₀) where
  submit h _ hfree _ hok := submitNextRead_copies h hapart (of_decide_eq_true hfree) hok
  complete h hok heq := by
    rcases h with ⟨hgood, hcontent, hpaths⟩ | ⟨t, hlost⟩
    · obtain ⟨hcontent', hpaths'⟩ :=
        complete_content hgood (hpaths.apart hapart) hcontent hok heq
      exact .inl ⟨complete_good hgood heq, hcontent', hpaths.trans hpaths'⟩
    · exact .inr ⟨t, complete_lost hlost heq⟩
  setError {c e} h := by
    have hleaves : Leaves 0 0 c (c.setError e) := setError_leaves e
    rcases h with ⟨hgood, hcontent, hpaths⟩ | ⟨t, hlost⟩
    · refine .inl ⟨(view_keeps config).setError hgood, ?_, hpaths.trans hleaves.samePaths⟩
      change Content f (c.setError e)
      unfold setError
      split_ifs with hzero
      · intro _
        obtain ⟨hrange, hall⟩ := hcontent hzero
        refine ⟨hrange, fun t ht => ?_⟩
        obtain ⟨h₁, h₂, h₃, h₄, h₅, h₆, h₇, h₈, h₉⟩ := hall t ht
        refine ⟨h₁, h₂, h₃, h₄, h₅, h₆, fun op hop htask hkind => ?_, h₈, h₉⟩
        have hop' := h₇ op hop htask hkind
        exact ⟨hop'.offset, hop'.bytes, hop'.len, hop'.inside, hop'.last, hop'.buf⟩
      · exact hcontent
    · refine .inr ⟨t, ?_⟩
      change (c.setError e).Lost t
      unfold setError
      split_ifs
      · exact ⟨hlost.queued, hlost.reads, hlost.done, hlost.slots⟩
      · exact hlost
  others hj := (view_keeps config).others hj

theorem copies_settles (config : CopyConfig) {I : CopyCtx → Prop}
    {ok : CopyCtx → PipelineAct CopyAnswer CopyOp → Prop} :
    (copyPipeline config).Settles ok I where
  error _ _ heq hne hzero := hne (complete_error heq hzero)
  done _ _ heq hall := complete_allDone heq hall
  fail he := setError_error_ne he

end CopyCtx

/-- `build_task_list`, with the inodes that the paths of each file lead to. -/
def buildTaskList (files : ℕ → ByteFile UInt8) (paths : List (ℕ × ℕ)) : List CopySource :=
  paths.map fun path => { src := path.1, dst := path.2, fileSize := (files path.1).size }

namespace CopyCtx

variable {config : CopyConfig} {files : ℕ → ByteFile UInt8} {paths : List (ℕ × ℕ)} {t : ℕ}

/-- The task of a file. -/
theorem start_task (config : CopyConfig) (files : ℕ → ByteFile UInt8) (ht : t < paths.length) :
    (start config files (buildTaskList files paths)).tasks t =
      { src := paths[t].1, dst := paths[t].2, fileSize := (files paths[t].1).size } := by
  have hget : (buildTaskList files paths)[t]? =
      some { src := paths[t].1, dst := paths[t].2, fileSize := (files paths[t].1).size } := by
    unfold buildTaskList
    rw [List.getElem?_map, List.getElem?_eq_getElem ht, Option.map_some]
  unfold start
  dsimp only
  rw [List.getD_eq_getElem?_getD, hget, Option.getD_some]

theorem start_totalFiles :
    (start config files (buildTaskList files paths)).totalFiles = paths.length :=
  List.length_map _

theorem start_apart (hsrc : ∀ path ∈ paths, ∀ path' ∈ paths, path.2 ≠ path'.1)
    (hdst : (paths.map Prod.snd).Nodup) :
    (start config files (buildTaskList files paths)).Apart := by
  intro t ht t' ht'
  rw [start_totalFiles] at ht ht'
  rw [start_task config files ht, start_task config files ht']
  refine ⟨hsrc _ (List.getElem_mem ht) _ (List.getElem_mem ht'), fun hne heq => hne ?_⟩
  have hlt : t < (paths.map Prod.snd).length := by rwa [List.length_map]
  have hlt' : t' < (paths.map Prod.snd).length := by rwa [List.length_map]
  have hpaths : (paths.map Prod.snd)[t] = (paths.map Prod.snd)[t'] := by
    rw [List.getElem_map, List.getElem_map]
    exact heq
  exact (List.Nodup.getElem_inj_iff hdst).mp hpaths

theorem start_content : Content files (start config files (buildTaskList files paths)) := by
  refine fun _ => ⟨fun op hop => absurd hop (Multiset.notMem_zero op), fun t ht => ?_⟩
  rw [start_totalFiles] at ht
  have htask := start_task config files ht
  refine ⟨rfl, ?_, fun _ => ?_, ?_, ?_, ?_, fun op hop => absurd hop (Multiset.notMem_zero op), ?_,
    ?_⟩
  · rw [htask]
  · rw [htask]
  · rw [htask]
    exact Nat.zero_le _
  · rw [htask]
    exact fun hreads => (by cases hreads)
  · rw [htask]
    exact fun hopen => (by cases hopen)
  · rw [htask]
    exact fun hopen => (by cases hopen)
  · rw [htask]
    rintro (hdone | ⟨op, hop, -⟩)
    · cases hdone
    · exact absurd hop (Multiset.notMem_zero op)

end CopyCtx

end Aura
