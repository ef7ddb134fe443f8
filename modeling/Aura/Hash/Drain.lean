import Aura.Hash.Slots

/-!
# Draining and submitting

`drainLoop_rule` is the induction along the loop of `drain_completed`, `submitFrom_rule` the one
along `submit_next_read`. The window of the slots stays ordered in both, and after a drain no slot
of the task waits that could be fed.

* `HashCtx.drainLoop_waits`: the rounds of the loop are enough.
* `HashCtx.complete_flows`, `HashCtx.submitNextRead_flows`: the invariant `HashCtx.Flows`, where
  every completion meets the condition `HashCtx.LeavesNoGap`. -/

namespace Aura

open Lib

/-- The loop of `submit_next_read` stops at the task. -/
def HashTask.Unread (task : HashTask) : Prop := task.readsDone = false ∧ task.done = false

namespace HashCtx

variable {c d : HashCtx} {op : HashOp} {t i n : ℕ} {a : HashAnswer} {r : ℤ} {s : Segment ℕ}

/-! ## Tasks -/

/-- A task without active operations has no slot. -/
theorem Good.ne_of_idle (h : c.Good) (hzero : (c.tasks t).activeOps = 0)
    (hs : c.window.slots i = some s) : s.stream ≠ t := by
  intro heq
  have hcount : 0 < c.window.count c.places fun s => decide (s.stream = t) := by
    refine Lib.Window.count_pos.mpr ⟨i, h.range hs, ?_⟩
    rw [hs, Option.any_some, decide_eq_true heq]
  have hactive := h.taskActive t
  omega

theorem closeTask_self : (c.closeTask t).tasks t =
    { c.tasks t with
      digests := (c.tasks t).digests ++ [(c.tasks t).fed], isOpen := false, done := true } := by
  have hself : ((c.finalizeTask t).modifyTask t fun task =>
      { task with isOpen := false, done := true }).tasks t = _ := modifyTask_self _
  refine hself.trans ?_
  rw [show (c.finalizeTask t).tasks t = _ from modifyTask_self _]

theorem closeTask_of_ne {t' : ℕ} (ht : t' ≠ t) : (c.closeTask t).tasks t' = c.tasks t' :=
  (Function.update_of_ne ht _ _).trans (Function.update_of_ne ht _ _)

theorem window_closeTask : (c.closeTask t).window = c.window := by
  have hfirst : (c.closeTask t).window = ((c.finalizeTask t).modifyTask t fun task =>
      { task with isOpen := false, done := true }).window := rfl
  rw [hfirst, window_modifyTask _ rfl rfl]
  exact window_modifyTask _ rfl rfl

/-- A task that is read and idle is closed. -/
theorem closeTask_good (h : c.Good) (hreads : (c.tasks t).readsDone = true)
    (hzero : (c.tasks t).activeOps = 0) : (c.closeTask t).Good := by
  refine h.modify (congrArg Lib.Window.slots window_closeTask) h.free rfl rfl rfl rfl (fun t' => ?_)
    (fun {i s} hs => ?_) (fun t' => ?_) fun t' ht' => ?_
  · by_cases ht : t' = t
    · rw [ht, closeTask_self]
    · rw [closeTask_of_ne ht]
  · rw [closeTask_of_ne (h.ne_of_idle hzero hs)]
    exact h.notDone hs
  · by_cases ht : t' = t
    · rw [ht, closeTask_self]
      exact ⟨fun _ => hreads, fun hno => absurd (hreads.symm.trans hno) (fun heq => by cases heq),
        fun hno => absurd (hreads.symm.trans hno) (fun heq => by cases heq)⟩
    · rw [closeTask_of_ne ht]
      exact h.sound t'
  · by_cases ht : t' = t
    · rw [ht, closeTask_self]
      exact hreads
    · rw [closeTask_of_ne ht]
      exact h.behind t' ht'

theorem finishTask_good (h : c.Good) : (c.finishTask t).Good := by
  unfold finishTask
  split_ifs with hfin
  · exact closeTask_good h hfin.1 hfin.2.1
  · exact h

theorem window_finishTask : (c.finishTask t).window = c.window := by
  unfold finishTask
  split_ifs
  · exact window_closeTask
  · rfl

/-! ## The loop of `drain_completed` -/

/-- The task is fed, everything else but the slot is left alone. -/
theorem feed_self : (c.feed t i).tasks t =
    { c.tasks t with
      fed := (c.tasks t).fed ++ (c.slots i).data
      bytesHashed := (c.tasks t).bytesHashed + (c.slots i).bytes
      hashOffset := (c.tasks t).hashOffset + (c.slots i).bytes
      activeOps := (c.tasks t).activeOps - 1 } := by
  set x := c.modifyTask t fun task =>
    { task with
      fed := task.fed ++ (c.slots i).data
      bytesHashed := task.bytesHashed + (c.slots i).bytes
      hashOffset := task.hashOffset + (c.slots i).bytes }
  have hself : (x.release i t).tasks t = _ := release_self
  refine hself.trans ?_
  rw [show x.tasks t = _ from modifyTask_self _]

theorem feed_of_ne {t' : ℕ} (ht : t' ≠ t) : (c.feed t i).tasks t' = c.tasks t' :=
  (Function.update_of_ne ht _ _).trans (Function.update_of_ne ht _ _)

theorem feed_good (h : c.Good) (hnext : c.holdsNext t i = true) : (c.feed t i).Good := by
  set x := c.modifyTask t fun task =>
    { task with
      fed := task.fed ++ (c.slots i).data
      bytesHashed := task.bytesHashed + (c.slots i).bytes
      hashOffset := task.hashOffset + (c.slots i).bytes } with hx
  have hself : x.tasks t = _ := modifyTask_self _
  have hother {t' : ℕ} (ht : t' ≠ t) : x.tasks t' = c.tasks t' := modifyTask_of_ne _ ht
  have hgood : x.Good := by
    refine h.modify rfl h.free rfl rfl rfl rfl (fun t' => ?_) (fun {j s} hs => ?_) (fun t' => ?_)
      fun t' ht' => ?_
    · by_cases ht : t' = t
      · rw [ht, hself]
      · rw [hother ht]
    · by_cases ht : s.stream = t
      · rw [ht, hself, ← ht]
        exact h.notDone hs
      · rw [hother ht]
        exact h.notDone hs
    · by_cases ht : t' = t
      · rw [ht, hself]
        exact ⟨(h.sound t).reads, (h.sound t).fresh, (h.sound t).unread⟩
      · rw [hother ht]
        exact h.sound t'
    · by_cases ht : t' = t
      · rw [ht, hself, ← ht]
        exact h.behind t' ht'
      · rw [hother ht]
        exact h.behind t' ht'
  have hseg : x.window.slots i = some ⟨t, (c.tasks t).hashOffset, (c.slots i).bytes, true⟩ :=
    segment_of_holdsNext hnext
  have hrelease := release_good hgood hseg rfl
  exact hrelease.modify rfl hrelease.free rfl rfl rfl rfl (fun _ => rfl) hrelease.notDone
    hrelease.sound hrelease.behind

/-- The induction along the loop. -/
theorem drainLoop_rule {P : HashCtx → Prop}
    (hfeed : ∀ {c i}, P c → c.holdsNext t i = true → P (c.feed t i)) (h : P c) :
    P (drainLoop n c t) := by
  induction n generalizing c with
  | zero => exact h
  | succ n ih =>
      unfold drainLoop
      split
      · exact h
      · rename_i i hfind
        exact ih (hfeed h (List.find?_some hfind))

/-- Where the scan finds nothing, nothing waits that could be fed. -/
theorem waits_of_find_none (h : c.Good)
    (hfind : (List.range c.config.pipelineDepth).find? (c.holdsNext t) = none) :
    c.window.Waits t := by
  intro i s hs heq harr hoff
  have hi : i ∈ List.range c.config.pipelineDepth :=
    List.mem_range.mpr (Finset.mem_range.mp (h.range hs))
  refine List.find?_eq_none.mp hfind i hi ?_
  rw [← heq]
  exact holdsNext_of_segment hs harr (by rw [hoff, heq]; rfl)

/-- **The rounds of the loop are enough**: each of them empties a slot. -/
theorem drainLoop_waits (h : c.Good)
    (hn : (c.window.count c.places fun s => s.arrived && decide (s.stream = t)) ≤ n) :
    (drainLoop n c t).window.Waits t := by
  induction n generalizing c with
  | zero =>
      refine waits_of_find_none (c := c) h (List.find?_eq_none.mpr fun i hi hnext => ?_)
      have hpos : 0 < c.window.count c.places fun s => s.arrived && decide (s.stream = t) := by
        refine Lib.Window.count_pos.mpr ⟨i, Finset.mem_range.mpr (List.mem_range.mp hi), ?_⟩
        rw [segment_of_holdsNext hnext, Option.any_some, decide_eq_true rfl]
        rfl
      omega
  | succ n ih =>
      unfold drainLoop
      split
      · rename_i hfind
        exact waits_of_find_none h hfind
      · rename_i i hfind
        have hnext := List.find?_some hfind
        have hseg := segment_of_holdsNext hnext
        refine ih (feed_good h hnext) ?_
        have hslots : (c.feed t i).window.slots = Function.update c.window.slots i none :=
          congrArg Lib.Window.slots window_feed
        have hcount := Lib.Window.count_update
          (q := fun s => s.arrived && decide (s.stream = t)) (h.range hseg) hslots
        rw [hseg, Option.any_some, decide_eq_true rfl, Bool.and_self, if_pos rfl, Option.any_none,
          if_neg Bool.false_ne_true] at hcount
        have hplaces : (c.feed t i).places = c.places := rfl
        rw [hplaces]
        omega

/-! ## Callbacks -/

/-- **A task whose reads were all submitted has an active operation until it is done**, as long as
no error was recorded. -/
def Live (c : HashCtx) : Prop :=
  c.error = 0 → ∀ t < c.totalFiles, (c.tasks t).readsDone = true → (c.tasks t).done = false →
    (c.tasks t).activeOps ≠ 0

/-- What keeps the pipeline flowing. -/
structure Flows (c : HashCtx) : Prop where
  good : c.Good
  ordered : c.window.Ordered
  waits : ∀ t, c.window.Waits t
  gapless : c.window.Gapless
  live : c.Live

/-- Nothing is missing before the read, whose chunk may be fed once those before it were. -/
def NothingMissing (c : HashCtx) (op : HashOp) : Prop := c.window.Reaches op.task op.offset

/-- No later chunk of the task waits in a slot. -/
def NoneWaits (c : HashCtx) (op : HashOp) : Prop :=
  ∀ i ∈ c.places, (c.slots i).state = .done → (c.slots i).task = some op.task →
    (c.slots i).offset ≤ op.offset

/-- **The condition on a completion.** Bytes are read only if nothing is missing before them; a read
that is not full leaves no later chunk waiting; and one that brings nothing is not the last
operation of a task whose reads were all submitted, unless an error was recorded before. -/
structure LeavesNoGap (c : HashCtx) (op : HashOp) (r : ℤ) : Prop where
  missing : 0 < r → c.NothingMissing op
  waiting : r ≠ op.len → c.NoneWaits op
  last : r = 0 → c.error = 0 →
    ¬ ((c.tasks op.task).readsDone = true ∧ (c.tasks op.task).activeOps = 1)

/-- What a callback for the task `t` leaves to the rest. -/
structure Beside (t : ℕ) (c d : HashCtx) : Prop where
  config : d.config = c.config
  files : d.files = c.files
  totalFiles : d.totalFiles = c.totalFiles
  error : d.error = 0 → c.error = 0
  tasks : ∀ t', t' ≠ t → d.tasks t' = c.tasks t'

theorem Beside.refl : Beside t c c := ⟨rfl, rfl, rfl, id, fun _ _ => rfl⟩

theorem Beside.trans {x : HashCtx} (h : Beside t c d) (h' : Beside t d x) : Beside t c x :=
  ⟨h'.config.trans h.config, h'.files.trans h.files, h'.totalFiles.trans h.totalFiles,
    fun hzero => h.error (h'.error hzero), fun t' ht' => (h'.tasks t' ht').trans (h.tasks t' ht')⟩

theorem feed_beside : Beside t c (c.feed t i) :=
  ⟨rfl, rfl, rfl, id, fun _ ht' => feed_of_ne ht'⟩

theorem drainLoop_beside : Beside t c (drainLoop n c t) :=
  drainLoop_rule (P := fun d => Beside t c d) (fun h _ => h.trans feed_beside) .refl

theorem closeTask_beside : Beside t c (c.closeTask t) :=
  ⟨rfl, rfl, rfl, id, fun _ ht' => closeTask_of_ne ht'⟩

theorem finishTask_beside : Beside t c (c.finishTask t) := by
  unfold finishTask
  split_ifs
  · exact closeTask_beside
  · exact .refl

theorem release_beside : Beside t c (c.release i t) :=
  ⟨rfl, rfl, rfl, id, fun _ ht' => release_of_ne ht'⟩

theorem setError_beside (e : ℤ) : Beside t c (c.setError e) := by
  unfold setError
  split_ifs with hzero
  · exact ⟨rfl, rfl, rfl, fun _ => hzero, fun _ _ => rfl⟩
  · exact .refl

theorem setError_error_ne {e : ℤ} (he : e ≠ 0) : (c.setError e).error ≠ 0 := by
  unfold setError
  split_ifs with hzero
  · exact he
  · exact hzero

theorem setError_good (h : c.Good) (e : ℤ) : (c.setError e).Good := by
  unfold setError
  split_ifs
  · exact h.modify rfl h.free rfl rfl rfl rfl (fun _ => rfl) h.notDone h.sound h.behind
  · exact h

theorem Live.step (h : c.Live) (hbeside : Beside t c d)
    (ht : d.error = 0 → (d.tasks t).readsDone = true → (d.tasks t).done = false →
      (d.tasks t).activeOps ≠ 0) : d.Live := by
  intro hzero t' ht' hreads hdone
  by_cases heq : t' = t
  · rw [heq] at hreads hdone ⊢
    exact ht hzero hreads hdone
  · rw [hbeside.tasks t' heq] at hreads hdone ⊢
    rw [hbeside.totalFiles] at ht'
    exact h (hbeside.error hzero) t' ht' hreads hdone

/-- **A drain keeps the window** and feeds what can be fed. -/
theorem drainLoop_window (h : c.Good) (hord : c.window.Ordered)
    (hwait : ∀ t', t' ≠ t → c.window.Waits t') :
    (drainLoop c.config.pipelineDepth c t).Good ∧
      (drainLoop c.config.pipelineDepth c t).window.Ordered ∧
      ∀ t', (drainLoop c.config.pipelineDepth c t).window.Waits t' := by
  have hkeep : (drainLoop c.config.pipelineDepth c t).Good ∧
      (drainLoop c.config.pipelineDepth c t).window.Ordered ∧
      ∀ t', t' ≠ t → (drainLoop c.config.pipelineDepth c t).window.Waits t' := by
    refine drainLoop_rule (P := fun d => d.Good ∧ d.window.Ordered ∧
      ∀ t', t' ≠ t → d.window.Waits t') ?_ ⟨h, hord, hwait⟩
    rintro d i ⟨hgood, hord, hwait⟩ hnext
    have hseg := segment_of_holdsNext hnext
    rw [window_feed]
    exact ⟨feed_good hgood hnext, hord.deliver hseg rfl, fun t' ht' =>
      (hwait t' ht').deliver ht'.symm⟩
  refine ⟨hkeep.1, hkeep.2.1, fun t' => ?_⟩
  by_cases ht : t' = t
  · rw [ht]
    refine drainLoop_waits h (Lib.Window.count_le_card.trans ?_)
    rw [places, Finset.card_range]
  · exact hkeep.2.2 t' ht

theorem drainLoop_gapless (hgap : c.window.Gapless) (hord : c.window.Ordered) :
    (drainLoop n c t).window.Gapless := by
  refine (drainLoop_rule (P := fun d => d.window.Gapless ∧ d.window.Ordered) ?_ ⟨hgap, hord⟩).1
  rintro d i ⟨hgap, hord⟩ hnext
  have hseg := segment_of_holdsNext hnext
  rw [window_feed]
  exact ⟨hgap.deliver hord hseg, hord.deliver hseg rfl⟩

/-- After a drain its task is done or has an active operation. -/
theorem finishTask_live (hreads : ((c.finishTask t).tasks t).readsDone = true)
    (hdone : ((c.finishTask t).tasks t).done = false) :
    ((c.finishTask t).tasks t).activeOps ≠ 0 := by
  unfold finishTask at hreads hdone ⊢
  split_ifs at hreads hdone ⊢ with hfin
  · rw [closeTask_self] at hdone
    cases hdone
  · exact fun hzero => hfin ⟨hreads, hzero, hdone⟩

theorem setError_modifySlot (f : HashSlot → HashSlot) (e : ℤ) :
    (c.modifySlot i f).setError e = (c.setError e).modifySlot i f := by
  unfold setError
  by_cases hzero : c.error = 0
  · rw [if_pos hzero, if_pos (show (c.modifySlot i f).error = 0 from hzero)]
    rfl
  · rw [if_neg hzero, if_neg (show ¬ (c.modifySlot i f).error = 0 from hzero)]

/-- A slot that is given back forgets its state. -/
theorem release_modifySlot (f : HashSlot → HashSlot) (state : ChunkState) :
    (c.modifySlot i f).release i t =
      (c.modifySlot i fun slot => { f slot with state }).release i t := by
  have hfree : (c.modifySlot i f).freeSlot i =
      (c.modifySlot i fun slot => { f slot with state }).freeSlot i := by
    unfold freeSlot modifySlot
    dsimp only
    rw [Function.update_self, Function.update_self, Function.update_idem, Function.update_idem]
  unfold release
  rw [hfree]
  rfl

/-- **What a callback is**: the slot of the read is among those that wait, and is drained or given
back. -/
theorem complete_cases (h : c.Good) (heq : complete op r c = some d) :
    op ∈ c.inFlight ∧ r ≤ op.len ∧
      (0 < r → op.offset + r.toNat ≤ (c.files (c.tasks op.task).file).size) ∧
      ∃ f : HashSlot → HashSlot,
        ((f (c.slots op.slot)).state = .done ∧ (f (c.slots op.slot)).task = (c.slots op.slot).task ∧
          (f (c.slots op.slot)).offset = (c.slots op.slot).offset) ∧
        ((r ≤ 0 ∧ (f (c.slots op.slot)).bytes = op.len ∧
            d = ((if r < 0 then setError { c with inFlight := c.inFlight.erase op } r
              else { c with inFlight := c.inFlight.erase op }).modifySlot op.slot f).release
                op.slot op.task) ∨
          (0 < r ∧ (f (c.slots op.slot)).bytes = r.toNat ∧
            (∀ p < r.toNat, (f (c.slots op.slot)).buf p =
              (c.files (c.tasks op.task).file).byte (op.offset + p)) ∧
            d = (modifySlot { c with inFlight := c.inFlight.erase op } op.slot f).drainCompleted
              op.task)) := by
  unfold complete at heq
  split_ifs at heq with hcan
  obtain rfl := Option.some.inj heq
  obtain ⟨hop, hperm⟩ := hcan
  obtain ⟨-, htask, -, hbytes, -⟩ := HashSlot.of_segment (h.ops op hop)
  obtain ⟨hlen, hsize⟩ := Bool.and_eq_true_iff.mp hperm
  refine ⟨hop, of_decide_eq_true hlen, fun hpos => ?_, ?_⟩
  · have hle := of_decide_eq_true hsize
    omega
  set x : HashCtx := { c with inFlight := c.inFlight.erase op }
  set g : HashSlot → HashSlot := fun slot =>
    { slot with buf := fun p => if p < r.toNat then
      (c.files (c.tasks op.task).file).byte (op.offset + p) else slot.buf p }
  have hx : transfer op r x = x.modifySlot op.slot g := rfl
  have htwice (f : HashSlot → HashSlot) :
      (x.modifySlot op.slot g).modifySlot op.slot f =
        x.modifySlot op.slot fun slot => f (g slot) := by
    unfold modifySlot
    dsimp only
    rw [Function.update_self, Function.update_idem]
  have hslot : ((x.modifySlot op.slot g).slots op.slot).task = some op.task := by
    unfold modifySlot
    dsimp only
    rw [Function.update_self]
    exact htask
  unfold onReadComplete
  rw [hx, hslot]
  dsimp only
  by_cases hres : r ≤ 0
  · refine ⟨fun slot => { g slot with state := .done }, ⟨rfl, rfl, rfl⟩, .inl ⟨hres, hbytes, ?_⟩⟩
    rw [if_pos hres]
    split_ifs
    · rw [setError_modifySlot]
      exact release_modifySlot g .done
    · exact release_modifySlot g .done
  · refine ⟨fun slot => { g slot with bytes := r.toNat, state := .done }, ⟨rfl, rfl, rfl⟩,
      .inr ⟨not_le.mp hres, rfl, fun p hp => if_pos hp, ?_⟩⟩
    rw [if_neg hres, htwice]

/-! ## Completions -/

/-- **Completions that leave no gap keep the pipeline flowing.** -/
theorem complete_flows (h : c.Flows) (hgap : c.LeavesNoGap op r)
    (heq : complete op r c = some d) : d.Flows := by
  obtain ⟨hop, hle, -, f, hf, hcase⟩ := complete_cases h.good heq
  have hs := h.good.ops op hop
  obtain ⟨hgood, hwin⟩ := arrive_good h.good hop f hf
  set y := modifySlot { c with inFlight := c.inFlight.erase op } op.slot f with hy
  have hlater (hne : r ≠ op.len) : ∀ j s', c.window.slots j = some s' → s'.stream = op.task →
      s'.arrived = true → s'.offset ≤ op.offset := by
    intro j s' hj hst harr
    obtain ⟨-, htask, hoffset, -, hstate⟩ := HashSlot.of_segment hj
    rw [← hoffset]
    refine hgap.waiting hne j (h.good.range hj) (of_decide_eq_true (hstate ▸ harr)) ?_
    rw [htask, hst]
  rcases hcase with ⟨hneg, hbytes, rfl⟩ | ⟨hpos, hbytes, -, rfl⟩
  -- nothing was read, and the slot is given back
  · have hne : r ≠ op.len := by
      have hlen := h.ordered.pos hs
      change 0 < op.len at hlen
      omega
    set z := (if r < 0 then setError { c with inFlight := c.inFlight.erase op } r
      else { c with inFlight := c.inFlight.erase op }).modifySlot op.slot f with hzdef
    have hz : z = if r < 0 then y.setError r else y := by
      rw [hzdef, hy]
      split_ifs
      · rw [setError_modifySlot]
      · rfl
    have hzgood : z.Good := by
      rw [hz]
      split_ifs
      · exact setError_good hgood r
      · exact hgood
    have hzwin : z.window = c.window.arrive op.slot ⟨op.task, op.offset, op.len, false⟩
        (f (c.slots op.slot)).bytes := by
      rw [hz, ← hwin]
      split_ifs
      · exact window_setError r
      · rfl
    have hztasks : z.tasks = c.tasks := by
      rw [hz]
      split_ifs
      · exact setError_tasks r
      · rfl
    have hseg : z.window.slots op.slot =
        some ⟨op.task, op.offset, (f (c.slots op.slot)).bytes, true⟩ := by
      rw [hzwin]
      exact Function.update_self _ _ _
    have hdrop : (z.release op.slot op.task).window = c.window.drop op.slot := by
      rw [window_release, hzwin, Lib.Window.drop_arrive]
    have hbeside : Beside op.task c z := by
      rw [hz]
      have hfirst : Beside op.task c y := ⟨rfl, rfl, rfl, id, fun _ _ => rfl⟩
      split_ifs
      · exact hfirst.trans (setError_beside r)
      · exact hfirst
    refine ⟨release_good hzgood hseg rfl, ?_, fun t => ?_, ?_, ?_⟩
    · rw [hdrop]
      exact h.ordered.drop
    · rw [hdrop]
      exact (h.waits t).drop
    · rw [hdrop]
      exact h.gapless.drop hs (hlater hne)
    · refine h.live.step (hbeside.trans release_beside) fun hzero hreads _ hnone => ?_
      rw [release_self, hztasks] at hreads hnone
      have hzero' : z.error = 0 := hzero
      rw [hz] at hzero'
      by_cases hlt : r < 0
      · rw [if_pos hlt] at hzero'
        exact setError_error_ne (ne_of_lt hlt) hzero'
      · rw [if_neg hlt] at hzero'
        have hnone' : (c.tasks op.task).activeOps - 1 = 0 := hnone
        exact hgap.last (by omega) hzero' ⟨hreads, by omega⟩
  -- the bytes wait for their turn
  · have hord : y.window.Ordered := by
      rw [hwin, hbytes]
      exact h.ordered.arrive hs (by omega) (by change r.toNat ≤ op.len; omega)
    have hwait (t : ℕ) (ht : t ≠ op.task) : y.window.Waits t := by
      rw [hwin]
      exact (h.waits t).arrive ht.symm
    have hgapless : y.window.Gapless := by
      rw [hwin, hbytes]
      refine h.gapless.arrive hs (hgap.missing hpos) fun hne => hlater fun heq => hne ?_
      change r.toNat = op.len
      omega
    obtain ⟨hgood', hord', hwait'⟩ := drainLoop_window hgood hord hwait
    have hbeside : Beside op.task c y := ⟨rfl, rfl, rfl, id, fun _ _ => rfl⟩
    unfold drainCompleted
    refine ⟨finishTask_good hgood', ?_, fun t => ?_, ?_, ?_⟩
    · rw [window_finishTask]
      exact hord'
    · rw [window_finishTask]
      exact hwait' t
    · rw [window_finishTask]
      exact drainLoop_gapless hgapless hord
    · exact h.live.step (hbeside.trans (drainLoop_beside.trans finishTask_beside))
        fun _ => finishTask_live

/-! ## Submissions -/

/-- The induction along `submit_next_read`: `I n t` holds of the context where the code comes to the
task `t` with `n` tasks left, `F` where it returns. -/
theorem submitFrom_rule {I : ℕ → ℕ → HashCtx → Prop} {F : HashCtx → Prop}
    (stop : ∀ {t c}, I 0 t c → F c)
    (pass : ∀ {n t c}, I (n + 1) t c → ¬ (c.tasks t).Unread → I n (t + 1) c)
    (fail : ∀ {n t c}, I (n + 1) t c → (c.tasks t).Unread → (c.tasks t).isOpen = false →
      a.opens t = false → I n (t + 1) (c.skipTask t))
    (empty : ∀ {n t c}, I (n + 1) t c → (c.tasks t).Unread → (c.tasks t).isOpen = false →
      a.opens t = true → (c.tasks t).fileSize = 0 →
      I n (t + 1) ((c.modifyTask t fun task => { task with isOpen := true }).finishEmpty t))
    (read : ∀ {n t c}, I (n + 1) t c → (c.tasks t).Unread → (c.tasks t).isOpen = true →
      F (submitRead a c t i))
    (first : ∀ {n t c}, I (n + 1) t c → (c.tasks t).Unread → (c.tasks t).isOpen = false →
      a.opens t = true → (c.tasks t).fileSize ≠ 0 →
      F (submitRead a (c.modifyTask t fun task => { task with isOpen := true }) t i))
    (h : I n t c) : F (submitFrom a i n t c) := by
  induction n generalizing t c with
  | zero => exact stop h
  | succ n ih =>
      unfold submitFrom
      dsimp only
      by_cases hread : (c.tasks t).readsDone = true ∨ (c.tasks t).done = true
      · rw [if_pos hread]
        refine ih (pass h fun hun => ?_)
        rw [hun.1, hun.2] at hread
        rcases hread with hread | hread <;> cases hread
      have hun : (c.tasks t).Unread :=
        ⟨Bool.eq_false_of_not_eq_true fun hr => hread (.inl hr),
          Bool.eq_false_of_not_eq_true fun hd => hread (.inr hd)⟩
      rw [if_neg hread]
      by_cases hopen : (c.tasks t).isOpen = true
      · rw [if_pos hopen]
        exact read h hun hopen
      have hclosed := Bool.eq_false_of_not_eq_true hopen
      rw [if_neg hopen]
      by_cases hopens : a.opens t = false
      · rw [if_pos hopens]
        exact ih (fail h hun hclosed hopens)
      have hopens' := Bool.eq_true_of_not_eq_false hopens
      rw [if_neg hopens]
      by_cases hsize : (c.tasks t).fileSize = 0
      · rw [if_pos hsize]
        exact ih (empty h hun hclosed hopens' hsize)
      · rw [if_neg hsize]
        exact first h hun hclosed hopens' hsize

/-- No slot has a part of a file that is not open yet. -/
theorem Flows.ne_of_closed (h : c.Flows) (hun : (c.tasks t).Unread)
    (hclosed : (c.tasks t).isOpen = false) (hs : c.window.slots i = some s) : s.stream ≠ t := by
  intro heq
  have hpos := h.ordered.pos hs
  have hbefore := h.ordered.before hs
  have htop : c.window.top s.stream = 0 := by
    rw [heq]
    exact (h.good.sound t).fresh hun.1 hclosed
  omega

/-- A task that is over without a read. -/
theorem Flows.close (h : c.Flows) (hun : (c.tasks t).Unread) (hclosed : (c.tasks t).isOpen = false)
    (hbehind : ∀ t' < t, (c.tasks t').readsDone = true) (hslots : d.slots = c.slots)
    (hwin : d.window = c.window) (hin : d.inFlight = c.inFlight)
    (hactive : d.activeOps = c.activeOps) (halive : d.crashed = c.crashed)
    (hcurrent : d.current = t + 1) (hbeside : Beside t c d)
    (hself : (d.tasks t).readsDone = true ∧ (d.tasks t).done = true ∧
      (d.tasks t).activeOps = (c.tasks t).activeOps) : d.Flows := by
  obtain ⟨hreads, hdone, hops⟩ := hself
  refine ⟨?_, ?_, fun t' => ?_, ?_, ?_⟩
  · refine h.good.modify (congrArg Lib.Window.slots hwin) (fun i hi => ?_) hbeside.config hin
      hactive halive (fun t' => ?_) (fun {i s} hs => ?_) (fun t' => ?_) fun t' ht' => ?_
    · rw [hslots]
      exact h.good.free i hi
    · by_cases ht : t' = t
      · rw [ht, hops]
      · rw [hbeside.tasks t' ht]
    · rw [hbeside.tasks _ (h.ne_of_closed hun hclosed hs)]
      exact h.good.notDone hs
    · by_cases ht : t' = t
      · rw [ht]
        exact ⟨fun _ => hreads, fun hno => absurd (hreads.symm.trans hno) (fun heq => by cases heq),
          fun hno => absurd (hreads.symm.trans hno) (fun heq => by cases heq)⟩
      · rw [hbeside.tasks t' ht]
        exact h.good.sound t'
    · rw [hcurrent] at ht'
      rcases Nat.lt_succ_iff_lt_or_eq.mp ht' with hlt | rfl
      · rw [hbeside.tasks t' (ne_of_lt hlt)]
        exact hbehind t' hlt
      · exact hreads
  · rw [hwin]
    exact h.ordered
  · rw [hwin]
    exact h.waits t'
  · rw [hwin]
    exact h.gapless
  · exact h.live.step hbeside fun _ _ hno => absurd (hdone.symm.trans hno) (fun heq => by cases heq)

theorem skipTask_beside : Beside t c (c.skipTask t) :=
  ⟨rfl, rfl, rfl, id, fun _ ht' => Function.update_of_ne ht' _ _⟩

theorem modifyTask_beside (f : HashTask → HashTask) : Beside t c (c.modifyTask t f) :=
  ⟨rfl, rfl, rfl, id, fun _ ht' => modifyTask_of_ne _ ht'⟩

theorem skipTask_self : (c.skipTask t).tasks t =
    { c.tasks t with readsDone := true, done := true } := Function.update_self _ _ _

theorem window_skipTask : (c.skipTask t).window = c.window := by
  have hfirst : (c.skipTask t).window =
      (c.modifyTask t fun task => { task with readsDone := true, done := true }).window := rfl
  rw [hfirst, window_modifyTask _ rfl rfl]

theorem finishEmpty_beside : Beside t c (c.finishEmpty t) := by
  have h : Beside t c ((c.modifyTask t fun task => { task with readsDone := true }).closeTask t) :=
    (modifyTask_beside _).trans closeTask_beside
  exact ⟨h.config, h.files, h.totalFiles, h.error, h.tasks⟩

theorem finishEmpty_self : (c.finishEmpty t).tasks t =
    { c.tasks t with
      readsDone := true, digests := (c.tasks t).digests ++ [(c.tasks t).fed], isOpen := false
      done := true } := by
  have hself := closeTask_self (c := c.modifyTask t fun task => { task with readsDone := true })
    (t := t)
  rw [modifyTask_self] at hself
  exact hself

theorem window_finishEmpty : (c.finishEmpty t).window = c.window := by
  have hfirst : (c.finishEmpty t).window =
      ((c.modifyTask t fun task => { task with readsDone := true }).closeTask t).window := rfl
  rw [hfirst, window_closeTask]
  exact window_modifyTask _ rfl rfl

/-- A task is opened that has bytes to read. -/
theorem open_flows (h : c.Flows) (hun : (c.tasks t).Unread) (hclosed : (c.tasks t).isOpen = false)
    (hsize : (c.tasks t).fileSize ≠ 0) :
    (c.modifyTask t fun task => { task with isOpen := true }).Flows := by
  set x := c.modifyTask t fun task => { task with isOpen := true }
  have hself : x.tasks t = { c.tasks t with isOpen := true } := modifyTask_self _
  have hother {t' : ℕ} (ht : t' ≠ t) : x.tasks t' = c.tasks t' := modifyTask_of_ne _ ht
  have hwin : x.window = c.window := window_modifyTask _ rfl rfl
  have hfields (t' : ℕ) : (x.tasks t').readsDone = (c.tasks t').readsDone ∧
      (x.tasks t').done = (c.tasks t').done ∧ (x.tasks t').activeOps = (c.tasks t').activeOps := by
    by_cases ht : t' = t
    · rw [ht, hself]
      exact ⟨rfl, rfl, rfl⟩
    · rw [hother ht]
      exact ⟨rfl, rfl, rfl⟩
  refine ⟨?_, ?_, fun t' => ?_, ?_, fun hzero t' ht' hreads hdone => ?_⟩
  · refine h.good.modify (congrArg Lib.Window.slots hwin) h.good.free rfl rfl rfl rfl
      (fun t' => (hfields t').2.2) (fun {i s} hs => ?_) (fun t' => ?_) fun t' ht' => ?_
    · rw [(hfields _).2.1]
      exact h.good.notDone hs
    · by_cases ht : t' = t
      · rw [ht, hself]
        refine ⟨(h.good.sound t).reads, fun _ hno => (by cases hno), fun _ _ => ?_⟩
        have hzero := (h.good.sound t).fresh hun.1 hclosed
        change (c.tasks t).readOffset < (c.tasks t).fileSize
        omega
      · rw [hother ht]
        exact h.good.sound t'
    · rw [(hfields t').1]
      exact h.good.behind t' ht'
  · rw [hwin]
    exact h.ordered
  · rw [hwin]
    exact h.waits t'
  · rw [hwin]
    exact h.gapless
  · rw [(hfields t').1] at hreads
    rw [(hfields t').2.1] at hdone
    rw [(hfields t').2.2]
    exact h.live hzero t' ht' hreads hdone

theorem submitRead_error (h : (submitRead a c t i).error = 0) : a.read = 0 ∧ c.error = 0 := by
  unfold submitRead at h
  split_ifs at h with hans
  · exact ⟨hans, h⟩
  · exact absurd h (setError_error_ne (by omega))

theorem submitRead_beside : Beside t c (submitRead a c t i) := by
  refine ⟨submitRead_config, ?_, ?_, fun hzero => (submitRead_error hzero).2,
    fun t' ht' => submitRead_of_ne ht'⟩
  · unfold submitRead setError
    split_ifs <;> rfl
  · unfold submitRead setError
    split_ifs <;> rfl

/-- The next chunk of an open task is read. -/
theorem submitRead_flows (h : c.Flows) (hi : i ∈ c.places) (hfree : c.window.slots i = none)
    (hun : (c.tasks t).Unread) (hopen : (c.tasks t).isOpen = true)
    (hbehind : ∀ t' < t, (c.tasks t').readsDone = true) : (submitRead a c t i).Flows := by
  have hwin := window_submitRead (a := a) (t := t) hfree
  have hpos := chunk_pos ((h.good.sound t).unread hun.1 hopen)
  refine ⟨submitRead_good h.good hi hfree hopen hun.2 hun.1 hbehind, ?_, fun t' => ?_, ?_, ?_⟩
  · rw [hwin]
    split_ifs
    · exact h.ordered.reserve hpos
    · exact h.ordered
  · rw [hwin]
    split_ifs
    · exact (h.waits t').reserve
    · exact h.waits t'
  · rw [hwin]
    split_ifs
    · exact h.gapless.reserve hfree
    · exact h.gapless
  · refine h.live.step submitRead_beside fun hzero _ _ hnone => ?_
    rw [submitRead_self (submitRead_error hzero).1] at hnone
    have hactive := h.good.taskActive t
    have hnone' : (c.tasks t).activeOps + 1 = 0 := hnone
    omega

/-- What the loop of `submit_next_read` keeps. -/
structure Submits (i t : ℕ) (c : HashCtx) : Prop where
  flows : c.Flows
  behind : ∀ t' < t, (c.tasks t').readsDone = true
  free : c.window.slots i = none
  place : i ∈ c.places

theorem Submits.next (h : Submits i t c) (hflows : d.Flows) (hwin : d.window = c.window)
    (hbeside : Beside t c d) (hreads : (d.tasks t).readsDone = true) : Submits i (t + 1) d := by
  refine ⟨hflows, fun t' ht' => ?_, ?_, ?_⟩
  · rcases Nat.lt_succ_iff_lt_or_eq.mp ht' with hlt | rfl
    · rw [hbeside.tasks t' (ne_of_lt hlt)]
      exact h.behind t' hlt
    · exact hreads
  · rw [hwin]
    exact h.free
  · unfold places
    rw [hbeside.config]
    exact h.place

/-- **Submissions keep the pipeline flowing.** -/
theorem submitNextRead_flows (h : c.Flows) (hi : i < c.config.pipelineDepth)
    (hfree : (c.slots i).state = .free) : (submitNextRead a i c).Flows := by
  have hnone : c.window.slots i = none := if_pos hfree
  unfold submitNextRead
  refine submitFrom_rule (I := fun _ t c => Submits i t c) (F := Flows) (fun h => h.flows)
    ?_ ?_ ?_ ?_ ?_ ⟨h, h.good.behind, hnone, Finset.mem_range.mpr hi⟩
  · intro n t c h hpass
    refine h.next h.flows rfl .refl ?_
    by_contra hno
    have hno := Bool.eq_false_of_not_eq_true hno
    refine hpass ⟨hno, Bool.eq_false_of_not_eq_true fun hdone => ?_⟩
    exact absurd ((h.flows.good.sound t).reads hdone) (by rw [hno]; exact Bool.false_ne_true)
  · intro n t c h hun hclosed _
    have hself := skipTask_self (c := c) (t := t)
    refine h.next ?_ window_skipTask skipTask_beside (by rw [hself])
    refine h.flows.close hun hclosed h.behind rfl window_skipTask rfl rfl rfl rfl skipTask_beside ?_
    rw [hself]
    exact ⟨rfl, rfl, rfl⟩
  · intro n t c h hun hclosed _ _
    set x := c.modifyTask t fun task => { task with isOpen := true }
    have hwin : (x.finishEmpty t).window = c.window :=
      window_finishEmpty.trans (window_modifyTask _ rfl rfl)
    have hbeside : Beside t c (x.finishEmpty t) := (modifyTask_beside _).trans finishEmpty_beside
    have hself : (x.finishEmpty t).tasks t = _ := finishEmpty_self
    have htask : x.tasks t = _ := modifyTask_self _
    rw [htask] at hself
    refine h.next ?_ hwin hbeside (by rw [hself])
    refine h.flows.close hun hclosed h.behind rfl hwin rfl rfl rfl rfl hbeside ?_
    rw [hself]
    exact ⟨rfl, rfl, rfl⟩
  · intro n t c h hun hopen
    exact submitRead_flows h.flows h.place h.free hun hopen h.behind
  · intro n t c h hun hclosed _ hsize
    have hflows := open_flows h.flows hun hclosed hsize
    have hself : (c.modifyTask t fun task => { task with isOpen := true }).tasks t = _ :=
      modifyTask_self _
    refine submitRead_flows hflows h.place ?_ ?_ ?_ fun t' ht' => ?_
    · rw [window_modifyTask (fun task => { task with isOpen := true }) rfl rfl]
      exact h.free
    · rw [hself]
      exact hun
    · rw [hself]
    · rw [modifyTask_of_ne _ (ne_of_lt ht')]
      exact h.behind t' ht'

end HashCtx

end Aura
