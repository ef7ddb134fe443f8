import Aura.Hash.Model
import Aura.Lib.Window

/-!
# The slots of aura-hash as a window

A slot that is not free holds a part of its file: announced while its read is in flight, arrived
once it waits for its turn. `HashCtx.window` is the window of `Aura.Lib.Window` that the slots make
up, and `HashCtx.Good` relates it to the reads in flight, the counters and the tasks.

* `HashCtx.arrive_good`, `HashCtx.release_good`, `HashCtx.submitRead_good`, `Good.modify`: the moves
  of the code keep `Good`.
-/

namespace Aura

open Lib

/-- The part of its file that a slot holds. -/
def HashSlot.segment (slot : HashSlot) : Option (Segment ℕ) :=
  if slot.state = .free then none
  else slot.task.map fun t => ⟨t, slot.offset, slot.bytes, decide (slot.state = .done)⟩

theorem HashSlot.segment_eq {slot : HashSlot} {t : ℕ} (hstate : slot.state ≠ .free)
    (htask : slot.task = some t) :
    slot.segment = some ⟨t, slot.offset, slot.bytes, decide (slot.state = .done)⟩ := by
  unfold segment
  rw [if_neg hstate, htask, Option.map_some]

theorem HashSlot.of_segment {slot : HashSlot} {s : Segment ℕ} (h : slot.segment = some s) :
    slot.state ≠ .free ∧ slot.task = some s.stream ∧ slot.offset = s.offset ∧ slot.bytes = s.len ∧
      s.arrived = decide (slot.state = .done) := by
  unfold segment at h
  split_ifs at h with hstate
  obtain ⟨t, htask, rfl⟩ := Option.map_eq_some_iff.mp h
  exact ⟨hstate, htask, rfl, rfl, rfl⟩

/-- What holds of a task at any time. -/
structure HashTask.Sound (task : HashTask) : Prop where
  reads : task.done = true → task.readsDone = true
  fresh : task.readsDone = false → task.isOpen = false → task.readOffset = 0
  unread : task.readsDone = false → task.isOpen = true → task.readOffset < task.fileSize

namespace HashCtx

variable {c d : HashCtx} {op : HashOp} {t i n : ℕ} {a : HashAnswer} {r : ℤ} {s : Segment ℕ}

/-- The slots as a window. -/
def window (c : HashCtx) : Lib.Window ℕ ℕ where
  slots i := (c.slots i).segment
  next t := (c.tasks t).hashOffset
  top t := (c.tasks t).readOffset

/-- The slots of the pipeline. -/
def places (c : HashCtx) : Finset ℕ := Finset.range c.config.pipelineDepth

/-- **The invariant.** The busy slots are those of the reads in flight and those that wait; the
counters count them; a task with one is not done. -/
structure Good (c : HashCtx) : Prop where
  alive : c.crashed = false
  free : ∀ i, c.window.slots i = none → (c.slots i).state = .free
  range : ∀ {i s}, c.window.slots i = some s → i ∈ c.places
  ops : ∀ op ∈ c.inFlight, c.window.slots op.slot = some ⟨op.task, op.offset, op.len, false⟩
  nodup : (c.inFlight.map HashOp.slot).Nodup
  reading : ∀ {i s}, c.window.slots i = some s → s.arrived = false → ∃ op ∈ c.inFlight, op.slot = i
  active : c.activeOps = c.window.count c.places fun _ => true
  taskActive : ∀ t, (c.tasks t).activeOps = c.window.count c.places fun s => decide (s.stream = t)
  notDone : ∀ {i s}, c.window.slots i = some s → (c.tasks s.stream).done = false
  sound : ∀ t, (c.tasks t).Sound
  behind : ∀ t < c.current, (c.tasks t).readsDone = true

/-! ## What shows of the code -/

theorem modifyTask_self (f : HashTask → HashTask) : (c.modifyTask t f).tasks t = f (c.tasks t) :=
  Function.update_self _ _ _

theorem modifyTask_of_ne {t' : ℕ} (f : HashTask → HashTask) (ht : t' ≠ t) :
    (c.modifyTask t f).tasks t' = c.tasks t' := Function.update_of_ne ht _ _

theorem window_modifySlot (f : HashSlot → HashSlot) :
    (c.modifySlot i f).window =
      { c.window with slots := Function.update c.window.slots i (f (c.slots i)).segment } := by
  refine Lib.Window.ext (funext fun j => ?_) rfl rfl
  exact Function.apply_update (fun _ => HashSlot.segment) c.slots i _ j

/-- A change to a task that leaves its offsets alone. -/
theorem window_modifyTask (f : HashTask → HashTask)
    (hnext : (f (c.tasks t)).hashOffset = (c.tasks t).hashOffset)
    (htop : (f (c.tasks t)).readOffset = (c.tasks t).readOffset) :
    (c.modifyTask t f).window = c.window := by
  have hfields (t' : ℕ) :
      ((c.modifyTask t f).tasks t').hashOffset = (c.tasks t').hashOffset ∧
        ((c.modifyTask t f).tasks t').readOffset = (c.tasks t').readOffset := by
    by_cases ht : t' = t
    · rw [ht, modifyTask_self]
      exact ⟨hnext, htop⟩
    · rw [modifyTask_of_ne f ht]
      exact ⟨rfl, rfl⟩
  exact Lib.Window.ext rfl (funext fun t' => (hfields t').1) (funext fun t' => (hfields t').2)

@[simp] theorem window_setError (e : ℤ) : (c.setError e).window = c.window := by
  unfold setError
  split_ifs <;> rfl

@[simp] theorem setError_tasks (e : ℤ) : (c.setError e).tasks = c.tasks := by
  unfold setError
  split_ifs <;> rfl

theorem freeSlot_slot :
    (c.freeSlot i).slots i = { c.slots i with state := .free, task := none } :=
  Function.update_self _ _ _

theorem window_freeSlot : (c.freeSlot i).window = c.window.drop i := window_modifySlot _

theorem window_release : (c.release i t).window = c.window.drop i := by
  have hfirst : (c.release i t).window =
      ((c.freeSlot i).modifyTask t fun task =>
        { task with activeOps := task.activeOps - 1 }).window := rfl
  rw [hfirst, window_modifyTask _ rfl rfl, window_freeSlot]

theorem release_self : (c.release i t).tasks t =
    { c.tasks t with activeOps := (c.tasks t).activeOps - 1 } := Function.update_self _ _ _

theorem release_of_ne {t' : ℕ} (ht : t' ≠ t) : (c.release i t).tasks t' = c.tasks t' :=
  Function.update_of_ne ht _ _

/-- The slot that holds the next bytes of a task. -/
theorem segment_of_holdsNext (h : c.holdsNext t i = true) :
    c.window.slots i = some ⟨t, (c.tasks t).hashOffset, (c.slots i).bytes, true⟩ := by
  obtain ⟨hstate, htask, hoff⟩ := of_decide_eq_true h
  refine (HashSlot.segment_eq (by rw [hstate]; exact fun heq => (by cases heq)) htask).trans ?_
  rw [hoff, decide_eq_true hstate]

theorem holdsNext_of_segment (hs : c.window.slots i = some s) (harr : s.arrived = true)
    (hoff : s.offset = (c.tasks s.stream).hashOffset) : c.holdsNext s.stream i = true := by
  obtain ⟨-, htask, hoffset, -, hstate⟩ := HashSlot.of_segment hs
  exact decide_eq_true ⟨of_decide_eq_true (hstate ▸ harr), htask, hoffset.trans hoff⟩

/-- Feeding a slot is a delivery. -/
theorem window_feed :
    (c.feed t i).window =
      c.window.deliver i ⟨t, (c.tasks t).hashOffset, (c.slots i).bytes, true⟩ := by
  set x := c.modifyTask t fun task =>
    { task with
      fed := task.fed ++ (c.slots i).data
      bytesHashed := task.bytesHashed + (c.slots i).bytes
      hashOffset := task.hashOffset + (c.slots i).bytes }
  have hfirst : (c.feed t i).window = (x.release i t).window := rfl
  rw [hfirst, window_release]
  have htask : x.tasks t = _ := modifyTask_self _
  refine Lib.Window.ext rfl (funext fun t' => ?_) (funext fun t' => ?_)
  · change (x.tasks t').hashOffset = Function.update c.window.next t _ t'
    by_cases ht : t' = t
    · rw [ht, Function.update_self, htask]
    · rw [Function.update_of_ne ht, modifyTask_of_ne _ ht]
      rfl
  · change (x.tasks t').readOffset = (c.tasks t').readOffset
    by_cases ht : t' = t
    · rw [ht, htask]
    · rw [modifyTask_of_ne _ ht]

/-! ## Moves -/

/-- A move that leaves the window alone. -/
theorem Good.modify (h : c.Good) (hwin : d.window.slots = c.window.slots)
    (hfree : ∀ i, c.window.slots i = none → (d.slots i).state = .free)
    (hconfig : d.config = c.config)
    (hin : d.inFlight = c.inFlight) (hactive : d.activeOps = c.activeOps)
    (halive : d.crashed = c.crashed)
    (hops : ∀ t, (d.tasks t).activeOps = (c.tasks t).activeOps)
    (hdone : ∀ {i s}, c.window.slots i = some s → (d.tasks s.stream).done = false)
    (hsound : ∀ t, (d.tasks t).Sound) (hbehind : ∀ t < d.current, (d.tasks t).readsDone = true) :
    d.Good := by
  have hplaces : d.places = c.places := by
    unfold places
    rw [hconfig]
  have hcount (q : Segment ℕ → Bool) : d.window.count d.places q = c.window.count c.places q := by
    unfold Lib.Window.count
    rw [hwin, hplaces]
  refine ⟨halive.trans h.alive, fun i hi => ?_, fun {i s} hs => ?_, fun op hop => ?_, ?_,
    fun {i s} hs hno => ?_, ?_, fun t => ?_, fun {i s} hs => ?_, hsound, hbehind⟩
  · rw [hwin] at hi
    exact hfree i hi
  · rw [hplaces]
    rw [hwin] at hs
    exact h.range hs
  · rw [hin] at hop
    rw [hwin]
    exact h.ops op hop
  · rw [hin]
    exact h.nodup
  · rw [hin]
    rw [hwin] at hs
    exact h.reading hs hno
  · rw [hactive, hcount]
    exact h.active
  · rw [hops, hcount]
    exact h.taskActive t
  · rw [hwin] at hs
    exact hdone hs

/-- A slot that waits is given back. -/
theorem release_good (h : c.Good) (hs : c.window.slots i = some s) (harr : s.arrived = true) :
    (c.release i s.stream).Good := by
  have hi := h.range hs
  have hslots : (c.release i s.stream).window.slots = Function.update c.window.slots i none := by
    rw [window_release]
    rfl
  have hcount (q : Segment ℕ → Bool) :
      (c.release i s.stream).window.count (c.release i s.stream).places q +
        (if q s then 1 else 0) = c.window.count c.places q := by
    have hupdate := Lib.Window.count_update (q := q) hi hslots
    rw [hs] at hupdate
    exact hupdate
  have htask (t : ℕ) : ((c.release i s.stream).tasks t).Sound ∧
      ((c.release i s.stream).tasks t).readsDone = (c.tasks t).readsDone ∧
      ((c.release i s.stream).tasks t).done = (c.tasks t).done := by
    by_cases ht : t = s.stream
    · rw [ht, release_self]
      exact ⟨⟨(h.sound _).reads, (h.sound _).fresh, (h.sound _).unread⟩, rfl, rfl⟩
    · rw [release_of_ne ht]
      exact ⟨h.sound t, rfl, rfl⟩
  refine ⟨h.alive, fun j hj => ?_, fun {j s'} hj => ?_, fun op hop => ?_, h.nodup,
    fun {j s'} hj hno => ?_, ?_, fun t => ?_, fun {j s'} hj => ?_, fun t => (htask t).1,
    fun t ht => ?_⟩
  · change (Function.update c.slots i _ j).state = .free
    by_cases hji : j = i
    · rw [hji, Function.update_self]
    · rw [Function.update_of_ne hji]
      rw [hslots, Function.update_of_ne hji] at hj
      exact h.free j hj
  · rw [hslots] at hj
    exact h.range (Lib.Window.eq_of_clear hj).2
  · have hop' := h.ops op hop
    rw [hslots, Function.update_of_ne]
    · exact hop'
    · rintro rfl
      rw [hs] at hop'
      obtain rfl := Option.some.inj hop'
      cases harr
  · rw [hslots] at hj
    exact h.reading (Lib.Window.eq_of_clear hj).2 hno
  · have hall := hcount fun _ => true
    rw [if_pos rfl] at hall
    change c.activeOps - 1 = _
    rw [h.active, ← hall]
    omega
  · have hof := hcount fun s' => decide (s'.stream = t)
    by_cases ht : t = s.stream
    · subst ht
      rw [if_pos (decide_eq_true rfl)] at hof
      rw [release_self]
      change (c.tasks s.stream).activeOps - 1 = _
      rw [h.taskActive, ← hof]
      omega
    · rw [if_neg (by rw [decide_eq_false (Ne.symm ht)]; exact Bool.false_ne_true)] at hof
      rw [release_of_ne ht, h.taskActive, ← hof]
      rfl
  · rw [hslots] at hj
    rw [(htask _).2.2]
    exact h.notDone (Lib.Window.eq_of_clear hj).2
  · rw [(htask t).2.1]
    exact h.behind t ht

/-- Another read is in another slot. -/
theorem Good.slot_ne (h : c.Good) (hop : op ∈ c.inFlight) {op' : HashOp}
    (hop' : op' ∈ c.inFlight.erase op) : op'.slot ≠ op.slot := by
  have hnodup := h.nodup
  rw [← Multiset.cons_erase hop, Multiset.map_cons, Multiset.nodup_cons, Multiset.mem_map] at hnodup
  exact fun heq => hnodup.1 ⟨op', hop', heq⟩

/-- The callback of a read puts its slot among those that wait. -/
theorem arrive_good (h : c.Good) (hop : op ∈ c.inFlight) (f : HashSlot → HashSlot)
    (hf : (f (c.slots op.slot)).state = .done ∧
      (f (c.slots op.slot)).task = (c.slots op.slot).task ∧
      (f (c.slots op.slot)).offset = (c.slots op.slot).offset) :
    (modifySlot { c with inFlight := c.inFlight.erase op } op.slot f).Good ∧
      (modifySlot { c with inFlight := c.inFlight.erase op } op.slot f).window =
        c.window.arrive op.slot ⟨op.task, op.offset, op.len, false⟩
          (f (c.slots op.slot)).bytes := by
  set y := modifySlot { c with inFlight := c.inFlight.erase op } op.slot f
  have hs := h.ops op hop
  obtain ⟨hstate, htask, hoffset, -, -⟩ := HashSlot.of_segment hs
  have hseg : (f (c.slots op.slot)).segment =
      some ⟨op.task, op.offset, (f (c.slots op.slot)).bytes, true⟩ := by
    refine (HashSlot.segment_eq (by rw [hf.1]; exact fun heq => (by cases heq))
      (hf.2.1.trans htask)).trans ?_
    rw [hf.2.2, hoffset, decide_eq_true hf.1]
  have hwin : y.window = c.window.arrive op.slot ⟨op.task, op.offset, op.len, false⟩
      (f (c.slots op.slot)).bytes := by
    refine (window_modifySlot f).trans (Lib.Window.ext ?_ rfl rfl)
    change Function.update c.window.slots op.slot (f (c.slots op.slot)).segment = _
    rw [hseg]
    rfl
  have hslots : y.window.slots = Function.update c.window.slots op.slot
      (some ⟨op.task, op.offset, (f (c.slots op.slot)).bytes, true⟩) :=
    congrArg Lib.Window.slots hwin
  have hcount (q : Segment ℕ → Bool) (hq : q ⟨op.task, op.offset, op.len, false⟩ =
      q ⟨op.task, op.offset, (f (c.slots op.slot)).bytes, true⟩) :
      y.window.count y.places q = c.window.count c.places q := by
    have hupdate := Lib.Window.count_update (q := q) (h.range hs) hslots
    rw [hs, Option.any_some, Option.any_some, hq] at hupdate
    exact Nat.add_right_cancel hupdate
  refine ⟨⟨h.alive, fun j hj => ?_, fun {j s'} hj => ?_, fun op' hop' => ?_, ?_,
    fun {j s'} hj hno => ?_, ?_, fun t => ?_, fun {j s'} hj => ?_, h.sound, h.behind⟩, hwin⟩
  · rw [hslots] at hj
    by_cases hji : j = op.slot
    · rw [hji, Function.update_self] at hj
      cases hj
    · rw [Function.update_of_ne hji] at hj
      exact (congrArg HashSlot.state (Function.update_of_ne hji _ _)).trans (h.free j hj)
  · rw [hslots] at hj
    rcases Lib.Window.eq_of_update (w := c.window) hj with ⟨rfl, -⟩ | ⟨-, hold⟩
    · exact h.range hs
    · exact h.range hold
  · have hin : op' ∈ c.inFlight.erase op := hop'
    rw [hslots, Function.update_of_ne (h.slot_ne hop hin)]
    exact h.ops op' (Multiset.mem_of_mem_erase hin)
  · exact Multiset.nodup_of_le (Multiset.map_le_map (Multiset.erase_le op c.inFlight)) h.nodup
  · rw [hslots] at hj
    rcases Lib.Window.eq_of_update (w := c.window) hj with ⟨-, hnew⟩ | ⟨hne, hold⟩
    · obtain rfl := Option.some.inj hnew
      cases hno
    · obtain ⟨op', hop', rfl⟩ := h.reading hold hno
      exact ⟨op', (Multiset.mem_erase_of_ne fun heq => hne (congrArg HashOp.slot heq)).mpr hop',
        rfl⟩
  · rw [hcount _ rfl]
    exact h.active
  · rw [hcount _ rfl]
    exact h.taskActive t
  · rw [hslots] at hj
    rcases Lib.Window.eq_of_update (w := c.window) hj with ⟨-, hnew⟩ | ⟨-, hold⟩
    · obtain rfl := Option.some.inj hnew
      have hnot : (c.tasks op.task).done = false := h.notDone hs
      exact hnot
    · exact h.notDone hold

/-! ## Submissions -/

theorem chunk_le : c.chunk t ≤ (c.tasks t).fileSize - (c.tasks t).readOffset := by
  unfold chunk
  dsimp only
  split_ifs <;> omega

theorem chunk_pos (h : (c.tasks t).readOffset < (c.tasks t).fileSize) : 0 < c.chunk t := by
  have hpos := c.config.chunk_pos
  unfold chunk
  dsimp only
  split_ifs <;> omega

/-- A chunk that is not the last one leaves bytes to read. -/
theorem lt_of_not_lastChunk (h : c.lastChunk t = false) :
    (c.tasks t).readOffset + c.chunk t < (c.tasks t).fileSize :=
  not_le.mp (of_decide_eq_false h)

theorem takeChunk_self : (c.takeChunk t i).tasks t =
    { c.tasks t with
      readOffset := (c.tasks t).readOffset + c.chunk t
      readsDone := (c.tasks t).readsDone || c.lastChunk t } := by
  unfold takeChunk modifyTask
  exact Function.update_self _ _ _

theorem submitRead_self (hans : a.read = 0) : (submitRead a c t i).tasks t =
    { c.tasks t with
      readOffset := (c.tasks t).readOffset + c.chunk t
      activeOps := (c.tasks t).activeOps + 1
      readsDone := (c.tasks t).readsDone || c.lastChunk t } := by
  unfold submitRead
  rw [if_pos hans]
  refine (modifyTask_self (c := c.takeChunk t i) fun task =>
    { task with activeOps := task.activeOps + 1 }).trans ?_
  rw [takeChunk_self]

theorem submitRead_self_of_ne (hans : a.read ≠ 0) : (submitRead a c t i).tasks t =
    { c.tasks t with readsDone := (c.tasks t).readsDone || c.lastChunk t } := by
  unfold submitRead
  rw [if_neg hans]
  refine (modifyTask_self _).trans ?_
  have htask : (((c.takeChunk t i).setError (-a.read)).freeSlot i).tasks t =
      (c.takeChunk t i).tasks t := congrFun (setError_tasks _) t
  rw [htask, takeChunk_self]
  dsimp only
  rw [Nat.add_sub_cancel]

theorem submitRead_of_ne {t' : ℕ} (ht : t' ≠ t) : (submitRead a c t i).tasks t' = c.tasks t' := by
  have htake : (c.takeChunk t i).tasks t' = c.tasks t' := Function.update_of_ne ht _ _
  unfold submitRead
  split_ifs
  · exact (Function.update_of_ne ht _ _).trans htake
  · refine (Function.update_of_ne ht _ _).trans ?_
    exact (congrFun (setError_tasks _) t').trans htake

theorem setError_current (e : ℤ) : (c.setError e).current = c.current := by
  unfold setError
  split_ifs <;> rfl

theorem submitRead_current :
    (submitRead a c t i).current = if c.lastChunk t then t + 1 else c.current := by
  unfold submitRead
  by_cases hans : a.read = 0
  · rw [if_pos hans]
    rfl
  · rw [if_neg hans]
    exact setError_current _

theorem submitRead_config : (submitRead a c t i).config = c.config := by
  unfold submitRead setError
  split_ifs <;> rfl

/-- A read in flight is announced; one that could not be submitted leaves the window alone. -/
theorem window_submitRead (hfree : c.window.slots i = none) : (submitRead a c t i).window =
    if a.read = 0 then c.window.reserve i t (c.chunk t) else c.window := by
  split_ifs with hans
  · have hslot : (submitRead a c t i).slots = Function.update c.slots i
        { c.slots i with
          offset := (c.tasks t).readOffset
          bytes := c.chunk t
          state := .reading
          task := some t } := by
      unfold submitRead
      rw [if_pos hans]
      rfl
    refine Lib.Window.ext (funext fun j => ?_) (funext fun t' => ?_) (funext fun t' => ?_)
    · change HashSlot.segment ((submitRead a c t i).slots j) =
        Function.update c.window.slots i (some ⟨t, (c.tasks t).readOffset, c.chunk t, false⟩) j
      rw [hslot]
      by_cases hj : j = i
      · rw [hj, Function.update_self, Function.update_self]
        exact HashSlot.segment_eq (fun heq => (by cases heq)) rfl
      · rw [Function.update_of_ne hj, Function.update_of_ne hj]
        rfl
    · change ((submitRead a c t i).tasks t').hashOffset = (c.tasks t').hashOffset
      by_cases ht : t' = t
      · rw [ht, submitRead_self hans]
      · rw [submitRead_of_ne ht]
    · change ((submitRead a c t i).tasks t').readOffset =
        Function.update c.window.top t (c.window.top t + c.chunk t) t'
      by_cases ht : t' = t
      · rw [ht, submitRead_self hans, Function.update_self]
        rfl
      · rw [submitRead_of_ne ht, Function.update_of_ne ht]
        rfl
  · have hslots : (submitRead a c t i).slots =
        (((c.takeChunk t i).setError (-a.read)).freeSlot i).slots := by
      unfold submitRead
      rw [if_neg hans]
      rfl
    have hother (j : ℕ) (hj : j ≠ i) : (submitRead a c t i).slots j = c.slots j := by
      rw [hslots]
      refine (Function.update_of_ne hj _ _).trans ?_
      have htake : (c.takeChunk t i).slots j = c.slots j := Function.update_of_ne hj _ _
      unfold setError
      split_ifs <;> exact htake
    refine Lib.Window.ext (funext fun j => ?_) (funext fun t' => ?_) (funext fun t' => ?_)
    · change HashSlot.segment ((submitRead a c t i).slots j) = c.window.slots j
      by_cases hj : j = i
      · rw [hj, hfree, hslots]
        rw [freeSlot_slot]
        exact if_pos rfl
      · rw [hother j hj]
        rfl
    · change ((submitRead a c t i).tasks t').hashOffset = (c.tasks t').hashOffset
      by_cases ht : t' = t
      · rw [ht, submitRead_self_of_ne hans]
      · rw [submitRead_of_ne ht]
    · change ((submitRead a c t i).tasks t').readOffset = (c.tasks t').readOffset
      by_cases ht : t' = t
      · rw [ht, submitRead_self_of_ne hans]
      · rw [submitRead_of_ne ht]

/-- A task stays sound when it takes a chunk. -/
theorem submitRead_sound (h : (c.tasks t).Sound) (hopen : (c.tasks t).isOpen = true)
    (hdone : (c.tasks t).done = false) (hread : (c.tasks t).readsDone = false) :
    ((submitRead a c t i).tasks t).Sound := by
  have hlast (hno : ((c.tasks t).readsDone || c.lastChunk t) = false) :
      (c.tasks t).readOffset + c.chunk t < (c.tasks t).fileSize := by
    rw [hread, Bool.false_or] at hno
    exact lt_of_not_lastChunk hno
  by_cases hans : a.read = 0
  · rw [submitRead_self hans]
    refine ⟨fun hd => ?_, fun _ hclosed => ?_, fun hno _ => hlast hno⟩
    · rw [show (c.tasks t).done = true from hd] at hdone
      cases hdone
    · rw [show (c.tasks t).isOpen = false from hclosed] at hopen
      cases hopen
  · rw [submitRead_self_of_ne hans]
    refine ⟨fun hd => ?_, fun _ hclosed => ?_, fun _ _ => h.unread hread hopen⟩
    · rw [show (c.tasks t).done = true from hd] at hdone
      cases hdone
    · rw [show (c.tasks t).isOpen = false from hclosed] at hopen
      cases hopen

/-- **The next chunk of an open task** is read into a free slot, or the submission fails. -/
theorem submitRead_good (h : c.Good) (hi : i ∈ c.places) (hfree : c.window.slots i = none)
    (hopen : (c.tasks t).isOpen = true) (hdone : (c.tasks t).done = false)
    (hread : (c.tasks t).readsDone = false) (hbehind : ∀ t' < t, (c.tasks t').readsDone = true) :
    (submitRead a c t i).Good := by
  have hwin := window_submitRead (a := a) (t := t) hfree
  have hplaces : (submitRead a c t i).places = c.places := by
    unfold places
    rw [submitRead_config]
  have hfields (t' : ℕ) : ((submitRead a c t i).tasks t').done = (c.tasks t').done ∧
      ((c.tasks t').readsDone = true → ((submitRead a c t i).tasks t').readsDone = true) := by
    by_cases ht : t' = t
    · by_cases hans : a.read = 0
      · rw [ht, submitRead_self hans, hread]
        exact ⟨rfl, fun hr => (by cases hr)⟩
      · rw [ht, submitRead_self_of_ne hans, hread]
        exact ⟨rfl, fun hr => (by cases hr)⟩
    · rw [submitRead_of_ne ht]
      exact ⟨rfl, id⟩
  have hsound (t' : ℕ) : ((submitRead a c t i).tasks t').Sound := by
    by_cases ht : t' = t
    · rw [ht]
      exact submitRead_sound (h.sound t) hopen hdone hread
    · rw [submitRead_of_ne ht]
      exact h.sound t'
  have hbehind' (t' : ℕ) (ht' : t' < (submitRead a c t i).current) :
      ((submitRead a c t i).tasks t').readsDone = true := by
    rw [submitRead_current] at ht'
    cases hlast : c.lastChunk t with
    | true =>
        rw [hlast, if_pos rfl] at ht'
        rcases Nat.lt_succ_iff_lt_or_eq.mp ht' with hlt | rfl
        · exact (hfields t').2 (hbehind t' hlt)
        · by_cases hans : a.read = 0
          · rw [submitRead_self hans, hlast]
            exact Bool.or_true _
          · rw [submitRead_self_of_ne hans, hlast]
            exact Bool.or_true _
    | false =>
        rw [hlast, if_neg Bool.false_ne_true] at ht'
        exact (hfields t').2 (h.behind t' ht')
  have halive : (submitRead a c t i).crashed = c.crashed := by
    unfold submitRead setError
    split_ifs <;> rfl
  by_cases hans : a.read = 0
  · rw [if_pos hans] at hwin
    have hslots : (submitRead a c t i).window.slots =
        Function.update c.window.slots i (some ⟨t, (c.tasks t).readOffset, c.chunk t, false⟩) :=
      congrArg Lib.Window.slots hwin
    have hin : (submitRead a c t i).inFlight =
        { slot := i, task := t, offset := (c.tasks t).readOffset, len := c.chunk t } ::ₘ
          c.inFlight := by
      unfold submitRead
      rw [if_pos hans]
    have hactive : (submitRead a c t i).activeOps = c.activeOps + 1 := by
      unfold submitRead
      rw [if_pos hans]
    have hcount (q : Segment ℕ → Bool) :
        (submitRead a c t i).window.count c.places q = c.window.count c.places q +
          if q ⟨t, (c.tasks t).readOffset, c.chunk t, false⟩ then 1 else 0 := by
      have hupdate := Lib.Window.count_update (q := q) hi hslots
      rw [hfree] at hupdate
      exact hupdate
    have hne {op : HashOp} (hop : op ∈ c.inFlight) : op.slot ≠ i := by
      rintro rfl
      have hs := h.ops op hop
      rw [hfree] at hs
      cases hs
    refine ⟨halive.trans h.alive, fun j hj => ?_, fun {j s'} hj => ?_, fun op hop => ?_, ?_,
      fun {j s'} hj hno => ?_, ?_, fun t' => ?_, fun {j s'} hj => ?_, hsound, hbehind'⟩
    · rw [hslots] at hj
      have hji : j ≠ i := by
        rintro rfl
        rw [Function.update_self] at hj
        cases hj
      rw [Function.update_of_ne hji] at hj
      have hslot : (submitRead a c t i).slots j = c.slots j := by
        unfold submitRead
        rw [if_pos hans]
        exact Function.update_of_ne hji _ _
      rw [hslot]
      exact h.free j hj
    · rw [hplaces]
      rw [hslots] at hj
      rcases Lib.Window.eq_of_update (w := c.window) hj with ⟨rfl, -⟩ | ⟨-, hold⟩
      · exact hi
      · exact h.range hold
    · rw [hin] at hop
      rw [hslots]
      rcases Multiset.mem_cons.mp hop with rfl | hop
      · exact Function.update_self _ _ _
      · rw [Function.update_of_ne (hne hop)]
        exact h.ops op hop
    · rw [hin, Multiset.map_cons, Multiset.nodup_cons, Multiset.mem_map]
      refine ⟨?_, h.nodup⟩
      rintro ⟨op, hop, heq⟩
      exact hne hop heq
    · rw [hin]
      rw [hslots] at hj
      rcases Lib.Window.eq_of_update (w := c.window) hj with ⟨rfl, -⟩ | ⟨-, hold⟩
      · exact ⟨_, Multiset.mem_cons_self _ _, rfl⟩
      · obtain ⟨op, hop, heq⟩ := h.reading hold hno
        exact ⟨op, Multiset.mem_cons_of_mem hop, heq⟩
    · rw [hactive, hplaces, hcount, if_pos rfl, h.active]
      rfl
    · rw [hplaces, hcount]
      by_cases ht : t' = t
      · subst ht
        rw [if_pos (decide_eq_true rfl), submitRead_self hans]
        change (c.tasks t').activeOps + 1 = _
        rw [h.taskActive]
        rfl
      · rw [if_neg (by rw [decide_eq_false (Ne.symm ht)]; exact Bool.false_ne_true),
          submitRead_of_ne ht]
        exact h.taskActive t'
    · rw [(hfields _).1]
      rw [hslots] at hj
      rcases Lib.Window.eq_of_update (w := c.window) hj with ⟨-, hnew⟩ | ⟨-, hold⟩
      · obtain rfl := Option.some.inj hnew
        exact hdone
      · exact h.notDone hold
  · rw [if_neg hans] at hwin
    have hrest : (submitRead a c t i).inFlight = c.inFlight ∧
        (submitRead a c t i).activeOps = c.activeOps := by
      unfold submitRead setError
      rw [if_neg hans]
      split_ifs <;> exact ⟨rfl, rfl⟩
    refine h.modify (congrArg Lib.Window.slots hwin) (fun j hj => ?_) submitRead_config hrest.1
      hrest.2 halive (fun t' => ?_) (fun {j s'} hj => ?_) hsound hbehind'
    · unfold submitRead
      rw [if_neg hans]
      change (Function.update ((c.takeChunk t i).setError (-a.read)).slots i _ j).state = .free
      by_cases hji : j = i
      · rw [hji, Function.update_self]
      · rw [Function.update_of_ne hji]
        have htake : (c.takeChunk t i).slots j = c.slots j := Function.update_of_ne hji _ _
        unfold setError
        split_ifs
        · exact (congrArg HashSlot.state htake).trans (h.free j hj)
        · exact (congrArg HashSlot.state htake).trans (h.free j hj)
    · by_cases ht : t' = t
      · rw [ht, submitRead_self_of_ne hans]
      · rw [submitRead_of_ne ht]
    · rw [(hfields _).1]
      exact h.notDone hj

end HashCtx

end Aura
