import Mathlib.Algebra.Order.Group.Multiset
import Mathlib.Data.Int.Cast.Lemmas
import Aura.Copy.Model

/-!
# Who owns the slots of the copy pipeline

`CopyView` keeps what matters for the ownership of slots and descriptors: who has which slot, which
operations are in flight, and how far each task is. On it the code makes few moves: it attaches an
operation to a free slot, detaches one, or moves a task on. `CopyView.Good` is the invariant of
these moves.

* `CopyView.Good.attach`, `CopyView.Good.detach`, `CopyView.Good.modifyTask`: the moves keep the
  invariant.
-/

namespace Aura

open Lib

/-- A task as far as its descriptors go. -/
structure TaskView where
  srcFd : Fd := {}
  dstFd : Fd := {}
  readsDone : Bool := false
  done : Bool := false

/-- A slot as far as its owner goes. -/
structure SlotView where
  state : BufState := .free
  task : Option ℕ := none

/-- The pipeline as far as slots, operations and descriptors go. -/
@[ext] structure CopyView where
  tasks : ℕ → TaskView
  taskOps : ℕ → ℤ
  slots : ℕ → SlotView
  inFlight : Multiset CopyOp
  activeOps : ℤ
  current : ℕ
  crashed : Bool

/-- The part of a task that shows. -/
def FileTask.view (task : FileTask) : TaskView where
  srcFd := task.srcFd
  dstFd := task.dstFd
  readsDone := task.readsDone
  done := task.done

/-- The part of a slot that shows. -/
def BufSlot.view (slot : BufSlot) : SlotView := ⟨slot.state, slot.task⟩

/-- The part of the context that shows. -/
def CopyCtx.view (c : CopyCtx) : CopyView where
  tasks t := (c.tasks t).view
  taskOps t := (c.tasks t).activeOps
  slots i := (c.slots i).view
  inFlight := c.inFlight
  activeOps := c.activeOps
  current := c.current
  crashed := c.crashed

/-- Reads and writes are counted with their task, an fsync is not. -/
def CopyOp.Counts (t : ℕ) (op : CopyOp) : Prop := op.task = t ∧ op.kind ≠ .fsync

instance (t : ℕ) : DecidablePred (CopyOp.Counts t) := fun _ => inferInstanceAs (Decidable (_ ∧ _))

namespace TaskView

/-- Not opened yet. -/
structure Fresh (task : TaskView) : Prop where
  done : task.done = false
  reads : task.readsDone = false
  src : task.srcFd = {}
  dst : task.dstFd = {}

/-- Both descriptors were opened once and not closed. -/
structure Opened (task : TaskView) : Prop where
  done : task.done = false
  src : task.srcFd = { isOpen := true, opened := 1, closed := 0 }
  dst : task.dstFd = { isOpen := true, opened := 1, closed := 0 }

/-- What was opened was closed, once. -/
structure Finished (task : TaskView) : Prop where
  done : task.done = true
  reads : task.readsDone = true
  src : task.srcFd.isOpen = false ∧ task.srcFd.opened = task.srcFd.closed ∧ task.srcFd.opened ≤ 1
  dst : task.dstFd.isOpen = false ∧ task.dstFd.opened = task.dstFd.closed ∧ task.dstFd.opened ≤ 1

/-- The life of a task. -/
def Phase (task : TaskView) : Prop := task.Fresh ∨ task.Opened ∨ task.Finished

variable {task : TaskView}

theorem Phase.of_reads (h : task.Phase) (hreads : task.readsDone = false) :
    task.done = false := by
  rcases h with h | h | h
  · exact h.done
  · exact h.done
  · rw [h.reads] at hreads
    cases hreads

theorem Phase.fresh (h : task.Phase) (hreads : task.readsDone = false)
    (hopen : task.srcFd.isOpen = false) : task.Fresh := by
  rcases h with h | h | h
  · exact h
  · rw [h.src] at hopen
    cases hopen
  · rw [h.reads] at hreads
    cases hreads

theorem Phase.opened (h : task.Phase) (hopen : task.srcFd.isOpen = true) : task.Opened := by
  rcases h with h | h | h
  · rw [h.src] at hopen
    cases hopen
  · exact h
  · rw [h.src.1] at hopen
    cases hopen

end TaskView

namespace CopyView

/-! ## Moves -/

/-- An operation is put on its slot. -/
def attach (v : CopyView) (op : CopyOp) : CopyView :=
  { v with
    slots := Function.update v.slots op.slot ⟨op.kind.bufState, some op.task⟩
    inFlight := op ::ₘ v.inFlight
    activeOps := v.activeOps + 1
    taskOps := if op.kind = .fsync then v.taskOps
      else Function.update v.taskOps op.task (v.taskOps op.task + 1) }

/-- An operation is over and gives its slot back. -/
def detach (v : CopyView) (op : CopyOp) : CopyView :=
  { v with
    slots := Function.update v.slots op.slot ⟨.free, none⟩
    inFlight := v.inFlight.erase op
    activeOps := v.activeOps - 1
    taskOps := if op.kind = .fsync then v.taskOps
      else Function.update v.taskOps op.task (v.taskOps op.task - 1) }

/-- A change to one task. -/
def modifyTask (v : CopyView) (t : ℕ) (task : TaskView) : CopyView :=
  { v with tasks := Function.update v.tasks t task }

/-- **The invariant.** An operation in flight has its slot to itself and its task's descriptors are
open; a busy slot has an operation; the counters count; an fsync is the only operation of its task.
-/
structure Good (v : CopyView) : Prop where
  alive : v.crashed = false
  owner : ∀ op ∈ v.inFlight, v.slots op.slot = ⟨op.kind.bufState, some op.task⟩
  nodup : (v.inFlight.map CopyOp.slot).Nodup
  busy : ∀ i, (v.slots i).state ≠ .free → ∃ op ∈ v.inFlight, op.slot = i
  idle : ∀ i, (v.slots i).state = .free → (v.slots i).task = none
  active : v.activeOps = v.inFlight.card
  taskActive : ∀ t, v.taskOps t = v.inFlight.countP (CopyOp.Counts t)
  syncs : ∀ op ∈ v.inFlight, op.kind = .fsync →
    (v.tasks op.task).readsDone = true ∧ ∀ op' ∈ v.inFlight, op'.task = op.task → op' = op
  phase : ∀ t, (v.tasks t).Phase
  opened : ∀ op ∈ v.inFlight, (v.tasks op.task).Opened
  order : ∀ t t', t < t' → (v.tasks t').srcFd.isOpen = true → (v.tasks t).readsDone = true
  behind : ∀ t < v.current, (v.tasks t).readsDone = true

variable {v : CopyView} {op : CopyOp} {t d : ℕ} {task : TaskView}

theorem bufState_ne_free (kind : CopyKind) : kind.bufState ≠ .free := by
  cases kind <;> exact fun h => (by cases h)

namespace Good

/-- No operation is in flight on a free slot. -/
theorem slot_ne (h : v.Good) {i : ℕ} (hfree : (v.slots i).state = .free) (hop : op ∈ v.inFlight) :
    op.slot ≠ i := by
  rintro rfl
  rw [h.owner op hop] at hfree
  exact bufState_ne_free op.kind hfree

/-- An operation on an opened task starts on a free slot. -/
theorem attach (h : v.Good) (hfree : (v.slots op.slot).state = .free)
    (hopened : (v.tasks op.task).Opened)
    (hsync : op.kind = .fsync →
      (v.tasks op.task).readsDone = true ∧ ∀ op' ∈ v.inFlight, op'.task ≠ op.task)
    (hother : ∀ op' ∈ v.inFlight, op'.task = op.task → op'.kind ≠ .fsync) :
    (v.attach op).Good where
  alive := h.alive
  owner op' hop' := by
    change Function.update v.slots op.slot _ op'.slot = _
    rcases Multiset.mem_cons.mp hop' with rfl | hop'
    · exact Function.update_self _ _ _
    · rw [Function.update_of_ne (h.slot_ne hfree hop')]
      exact h.owner op' hop'
  nodup := by
    change ((op ::ₘ v.inFlight).map CopyOp.slot).Nodup
    rw [Multiset.map_cons, Multiset.nodup_cons, Multiset.mem_map]
    refine ⟨?_, h.nodup⟩
    rintro ⟨op', hop', heq⟩
    exact h.slot_ne hfree hop' heq
  busy i hi := by
    change (Function.update v.slots op.slot _ i).state ≠ .free at hi
    by_cases his : i = op.slot
    · exact ⟨op, Multiset.mem_cons_self _ _, his.symm⟩
    · rw [Function.update_of_ne his] at hi
      obtain ⟨op', hop', heq⟩ := h.busy i hi
      exact ⟨op', Multiset.mem_cons_of_mem hop', heq⟩
  idle i hi := by
    change (Function.update v.slots op.slot _ i).state = .free at hi
    change (Function.update v.slots op.slot _ i).task = none
    by_cases his : i = op.slot
    · rw [his, Function.update_self] at hi
      exact absurd hi (bufState_ne_free op.kind)
    · rw [Function.update_of_ne his] at hi ⊢
      exact h.idle i hi
  active := by
    change v.activeOps + 1 = ((op ::ₘ v.inFlight).card : ℤ)
    rw [h.active, Multiset.card_cons, Nat.cast_add, Nat.cast_one]
  taskActive t := by
    change (if op.kind = .fsync then v.taskOps
      else Function.update v.taskOps op.task (v.taskOps op.task + 1)) t =
        ((op ::ₘ v.inFlight).countP (CopyOp.Counts t) : ℤ)
    by_cases hkind : op.kind = .fsync
    · rw [if_pos hkind, Multiset.countP_cons_of_neg _ fun hc => hc.2 hkind]
      exact h.taskActive t
    · rw [if_neg hkind]
      by_cases ht : t = op.task
      · subst ht
        rw [Function.update_self, Multiset.countP_cons_of_pos _ ⟨rfl, hkind⟩, h.taskActive,
          Nat.cast_add, Nat.cast_one]
      · rw [Function.update_of_ne ht, Multiset.countP_cons_of_neg _ fun hc => ht hc.1.symm]
        exact h.taskActive t
  syncs op' hop' hkind := by
    rcases Multiset.mem_cons.mp hop' with rfl | hin
    · obtain ⟨hreads, halone⟩ := hsync hkind
      refine ⟨hreads, fun op'' hop'' heq => ?_⟩
      rcases Multiset.mem_cons.mp hop'' with rfl | hin
      · rfl
      · exact absurd heq (halone op'' hin)
    · obtain ⟨hreads, halone⟩ := h.syncs op' hin hkind
      refine ⟨hreads, fun op'' hop'' heq => ?_⟩
      rcases Multiset.mem_cons.mp hop'' with rfl | hin'
      · exact absurd hkind (hother op' hin heq.symm)
      · exact halone op'' hin' heq
  phase := h.phase
  opened op' hop' := by
    rcases Multiset.mem_cons.mp hop' with rfl | hop'
    · exact hopened
    · exact h.opened op' hop'
  order := h.order
  behind := h.behind

/-- Another operation is on another slot. -/
theorem slot_ne_of_erase (h : v.Good) (hop : op ∈ v.inFlight) {op' : CopyOp}
    (hop' : op' ∈ v.inFlight.erase op) : op'.slot ≠ op.slot := by
  have hnodup := h.nodup
  rw [← Multiset.cons_erase hop, Multiset.map_cons, Multiset.nodup_cons, Multiset.mem_map] at hnodup
  exact fun heq => hnodup.1 ⟨op', hop', heq⟩

/-- An operation ends. -/
theorem detach (h : v.Good) (hop : op ∈ v.inFlight) : (v.detach op).Good where
  alive := h.alive
  owner op' hop' := by
    change Function.update v.slots op.slot _ op'.slot = _
    rw [Function.update_of_ne (h.slot_ne_of_erase hop hop')]
    exact h.owner op' (Multiset.mem_of_mem_erase hop')
  nodup := Multiset.nodup_of_le (Multiset.map_le_map (Multiset.erase_le op v.inFlight)) h.nodup
  busy i hi := by
    change (Function.update v.slots op.slot _ i).state ≠ .free at hi
    by_cases his : i = op.slot
    · rw [his, Function.update_self] at hi
      exact absurd rfl hi
    · rw [Function.update_of_ne his] at hi
      obtain ⟨op', hop', heq⟩ := h.busy i hi
      have hne : op' ≠ op := fun hop => his (hop ▸ heq.symm)
      exact ⟨op', (Multiset.mem_erase_of_ne hne).mpr hop', heq⟩
  idle i hi := by
    change (Function.update v.slots op.slot _ i).state = .free at hi
    change (Function.update v.slots op.slot _ i).task = none
    by_cases his : i = op.slot
    · rw [his, Function.update_self]
    · rw [Function.update_of_ne his] at hi ⊢
      exact h.idle i hi
  active := by
    change v.activeOps - 1 = ((v.inFlight.erase op).card : ℤ)
    have hcard := Multiset.card_erase_add_one hop
    have hactive := h.active
    omega
  taskActive t := by
    change (if op.kind = .fsync then v.taskOps
      else Function.update v.taskOps op.task (v.taskOps op.task - 1)) t =
        ((v.inFlight.erase op).countP (CopyOp.Counts t) : ℤ)
    have hcount := h.taskActive t
    rw [← Multiset.cons_erase hop, Multiset.countP_cons] at hcount
    by_cases hkind : op.kind = .fsync
    · rw [if_neg fun hc : op.Counts t => hc.2 hkind, Nat.add_zero] at hcount
      rw [if_pos hkind]
      exact hcount
    · rw [if_neg hkind]
      by_cases ht : t = op.task
      · subst ht
        rw [if_pos (show op.Counts op.task from ⟨rfl, hkind⟩), Nat.cast_add, Nat.cast_one] at hcount
        rw [Function.update_self, hcount]
        omega
      · rw [if_neg fun hc : op.Counts t => ht hc.1.symm, Nat.add_zero] at hcount
        rw [Function.update_of_ne ht]
        exact hcount
  syncs op' hop' hkind := by
    obtain ⟨hreads, halone⟩ := h.syncs op' (Multiset.mem_of_mem_erase hop') hkind
    exact ⟨hreads, fun op'' hop'' => halone op'' (Multiset.mem_of_mem_erase hop'')⟩
  phase := h.phase
  opened op' hop' := h.opened op' (Multiset.mem_of_mem_erase hop')
  order := h.order
  behind := h.behind

/-- A task moves on, with all of its operations over if it is not open any more. -/
theorem modifyTask (h : v.Good) (hphase : task.Phase)
    (hops : ∀ op ∈ v.inFlight, op.task = t → task.Opened)
    (hreads : (v.tasks t).readsDone = true → task.readsDone = true)
    (horder : task.srcFd.isOpen = true → ∀ t' < t, (v.tasks t').readsDone = true) :
    (v.modifyTask t task).Good := by
  have hmono (t' : ℕ) (ht' : (v.tasks t').readsDone = true) :
      (Function.update v.tasks t task t').readsDone = true := by
    by_cases heq : t' = t
    · subst heq
      rw [Function.update_self]
      exact hreads ht'
    · rw [Function.update_of_ne heq]
      exact ht'
  refine ⟨h.alive, h.owner, h.nodup, h.busy, h.idle, h.active, h.taskActive, fun op hop hkind => ?_,
    fun t' => ?_, fun op hop => ?_, fun t' t'' hlt hopen => ?_, fun t' ht' => ?_⟩
  · obtain ⟨hdone, halone⟩ := h.syncs op hop hkind
    exact ⟨hmono _ hdone, halone⟩
  · change (Function.update v.tasks t task t').Phase
    by_cases heq : t' = t
    · subst heq
      rw [Function.update_self]
      exact hphase
    · rw [Function.update_of_ne heq]
      exact h.phase t'
  · change (Function.update v.tasks t task op.task).Opened
    by_cases heq : op.task = t
    · rw [heq, Function.update_self]
      exact hops op hop heq
    · rw [Function.update_of_ne heq]
      exact h.opened op hop
  · change (Function.update v.tasks t task t'').srcFd.isOpen = true at hopen
    refine hmono t' ?_
    by_cases heq : t'' = t
    · rw [heq, Function.update_self] at hopen
      exact horder hopen t' (heq ▸ hlt)
    · rw [Function.update_of_ne heq] at hopen
      exact h.order t' t'' hlt hopen
  · exact hmono t' (h.behind t' ht')

/-- The queue moves on past tasks that are read. -/
theorem advance (h : v.Good) (hbehind : ∀ t < d, (v.tasks t).readsDone = true) :
    Good { v with current := d } :=
  ⟨h.alive, h.owner, h.nodup, h.busy, h.idle, h.active, h.taskActive, h.syncs, h.phase,
    h.opened, h.order,
    hbehind⟩

/-- A free slot has no task left to forget. -/
theorem clear_eq (h : v.Good) {i : ℕ} (hfree : (v.slots i).state = .free) :
    { v with slots := Function.update v.slots i ⟨.free, none⟩ } = v := by
  have hslot : v.slots i = ⟨.free, none⟩ := by
    rw [← hfree, ← h.idle i hfree]
  refine CopyView.ext rfl rfl ?_ rfl rfl rfl rfl
  dsimp only
  rw [← hslot, Function.update_eq_self]

end Good

end CopyView

/-- Both descriptors closed. -/
def TaskView.close (task : TaskView) : TaskView :=
  { task with srcFd := task.srcFd.close, dstFd := task.dstFd.close, done := true }

theorem TaskView.Opened.close {task : TaskView} (h : task.Opened)
    (hreads : task.readsDone = true) : task.close.Finished := by
  unfold TaskView.close Fd.close
  rw [h.src, h.dst]
  exact ⟨rfl, hreads, ⟨rfl, rfl, le_refl _⟩, rfl, rfl, le_refl _⟩

end Aura
