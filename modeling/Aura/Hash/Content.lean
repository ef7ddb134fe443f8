import Aura.Hash.Progress

/-!
# What aura-hash feeds to a digest

Where reads are accepted and full, nothing is missing in what was announced. So a digest was fed the
bytes before the hash offset, in order, and when its task is idle that offset is the end of the
file.

* `hash_in_order`: every digest is printed once, for the bytes of its file.
-/

namespace Aura

open Lib

namespace HashCtx

variable {c d : HashCtx} {op : HashOp} {t i n : ℕ} {a : HashAnswer} {r : ℤ} {s : Segment ℕ}

/-- The condition on a step: reads are accepted, files can be opened, and reads are full. -/
def FullReads (_ : HashCtx) : PipelineAct HashAnswer HashOp → Prop
  | .submit a _ => a.read = 0 ∧ ∀ t, a.opens t = true
  | .complete _ op r => r = op.len

/-- The bytes of the file of a task. -/
def content (c : HashCtx) (t : ℕ) : List UInt8 := (c.files (c.tasks t).file).toList

/-- **What was fed so far**: the bytes before the hash offset, and what waits in a slot are the
bytes at its offset; a task that is done had all of them fed. -/
structure InOrder (c : HashCtx) : Prop where
  tiled : c.window.Tiled
  queued : ∀ {i s}, c.window.slots i = some s → s.stream < c.totalFiles
  bytes : ∀ {i s}, c.window.slots i = some s → s.arrived = true → ∀ p < s.len,
    (c.slots i).buf p = (c.files (c.tasks s.stream).file).byte (s.offset + p)
  fed : ∀ t < c.totalFiles, (c.tasks t).fed = (c.content t).take (c.tasks t).hashOffset
  size : ∀ t < c.totalFiles, (c.files (c.tasks t).file).size = (c.tasks t).fileSize
  inside : ∀ t, (c.tasks t).readOffset ≤ (c.tasks t).fileSize
  reads : ∀ t < c.totalFiles, (c.tasks t).readsDone = true →
    (c.tasks t).readOffset = (c.tasks t).fileSize
  digests : ∀ t < c.totalFiles,
    (c.tasks t).digests = if (c.tasks t).done then [c.content t] else []

/-! ## Draining -/

/-- A slot that is fed holds the bytes at the hash offset. -/
theorem feed_inOrder (h : c.InOrder) (hord : c.window.Ordered) (hnext : c.holdsNext t i = true) :
    (c.feed t i).InOrder := by
  have hseg := segment_of_holdsNext hnext
  have ht : t < c.totalFiles := h.queued hseg
  have hself := feed_self (c := c) (t := t) (i := i)
  have hslots : (c.feed t i).window.slots = Function.update c.window.slots i none :=
    congrArg Lib.Window.slots window_feed
  have hfields (t' : ℕ) : ((c.feed t i).tasks t').file = (c.tasks t').file ∧
      ((c.feed t i).tasks t').fileSize = (c.tasks t').fileSize ∧
      ((c.feed t i).tasks t').readOffset = (c.tasks t').readOffset ∧
      ((c.feed t i).tasks t').readsDone = (c.tasks t').readsDone ∧
      ((c.feed t i).tasks t').done = (c.tasks t').done ∧
      ((c.feed t i).tasks t').digests = (c.tasks t').digests := by
    by_cases ht' : t' = t
    · rw [ht', hself]
      exact ⟨rfl, rfl, rfl, rfl, rfl, rfl⟩
    · rw [feed_of_ne ht']
      exact ⟨rfl, rfl, rfl, rfl, rfl, rfl⟩
  have hcontent (t' : ℕ) : (c.feed t i).content t' = c.content t' := by
    unfold content
    rw [(hfields t').1]
    rfl
  refine ⟨?_, fun {j s} hj => ?_, fun {j s} hj harr p hp => ?_, fun t' ht' => ?_,
    fun t' ht' => ?_, fun t' => ?_, fun t' ht' hreads => ?_, fun t' ht' => ?_⟩
  · rw [window_feed]
    exact h.tiled.deliver hord hseg
  · rw [hslots] at hj
    exact h.queued (Lib.Window.eq_of_clear hj).2
  · rw [hslots] at hj
    obtain ⟨hne, hold⟩ := Lib.Window.eq_of_clear hj
    have hslot : (c.feed t i).slots j = c.slots j := Function.update_of_ne hne _ _
    rw [hslot, (hfields _).1]
    exact h.bytes hold harr p hp
  · rw [hcontent]
    by_cases heq : t' = t
    · subst heq
      rw [hself]
      have hbefore := hord.before hseg
      have hsize := h.size t' ht
      have hinside := h.inside t'
      have hbefore' : (c.tasks t').hashOffset + (c.slots i).bytes ≤ (c.tasks t').readOffset :=
        hbefore
      have hle : (c.tasks t').hashOffset + (c.slots i).bytes ≤
          (c.files (c.tasks t').file).size := by omega
      have hdata : (c.slots i).data = (List.range (c.slots i).bytes).map fun p =>
          (c.files (c.tasks t').file).byte ((c.tasks t').hashOffset + p) := by
        refine List.map_congr_left fun p hp => ?_
        exact h.bytes hseg rfl p (List.mem_range.mp hp)
      dsimp only
      rw [h.fed t' ht, hdata]
      exact (ByteFile.take_toList_add hle).symm
    · rw [feed_of_ne heq]
      exact h.fed t' ht'
  · rw [(hfields t').1, (hfields t').2.1]
    exact h.size t' ht'
  · rw [(hfields t').2.1, (hfields t').2.2.1]
    exact h.inside t'
  · rw [(hfields t').2.2.2.1] at hreads
    rw [(hfields t').2.1, (hfields t').2.2.1]
    exact h.reads t' ht' hreads
  · rw [hcontent, (hfields t').2.2.2.2.1, (hfields t').2.2.2.2.2]
    exact h.digests t' ht'

/-- An idle task that is read was fed all of its file. -/
theorem InOrder.fed_of_idle (h : c.InOrder) (hgood : c.Good) (hord : c.window.Ordered)
    (ht : t < c.totalFiles) (hreads : (c.tasks t).readsDone = true)
    (hzero : (c.tasks t).activeOps = 0) : (c.tasks t).fed = c.content t := by
  have htop := h.reads t ht hreads
  have hnext : (c.tasks t).hashOffset = (c.tasks t).readOffset := by
    refine le_antisymm (hord.next_le t) (not_lt.mp fun hlt => ?_)
    obtain ⟨i, s, hs, heq, -, -⟩ := h.tiled t (c.tasks t).hashOffset (le_refl _) hlt
    exact hgood.ne_of_idle hzero hs heq
  rw [h.fed t ht, hnext, htop, ← h.size t ht]
  exact ByteFile.take_toList_size

/-- The end of a task prints its digest. -/
theorem closeTask_inOrder (h : c.InOrder) (hdone : (c.tasks t).done = false)
    (hfed : t < c.totalFiles → (c.tasks t).fed = c.content t) : (c.closeTask t).InOrder := by
  have hself := closeTask_self (c := c) (t := t)
  have hfields (t' : ℕ) : ((c.closeTask t).tasks t').file = (c.tasks t').file ∧
      ((c.closeTask t).tasks t').fileSize = (c.tasks t').fileSize ∧
      ((c.closeTask t).tasks t').readOffset = (c.tasks t').readOffset ∧
      ((c.closeTask t).tasks t').readsDone = (c.tasks t').readsDone ∧
      ((c.closeTask t).tasks t').fed = (c.tasks t').fed ∧
      ((c.closeTask t).tasks t').hashOffset = (c.tasks t').hashOffset := by
    by_cases ht' : t' = t
    · rw [ht', hself]
      exact ⟨rfl, rfl, rfl, rfl, rfl, rfl⟩
    · rw [closeTask_of_ne ht']
      exact ⟨rfl, rfl, rfl, rfl, rfl, rfl⟩
  have hcontent (t' : ℕ) : (c.closeTask t).content t' = c.content t' := by
    unfold content
    rw [(hfields t').1]
    rfl
  refine ⟨?_, fun {j s} hj => ?_, fun {j s} hj harr p hp => ?_, fun t' ht' => ?_,
    fun t' ht' => ?_, fun t' => ?_, fun t' ht' hreads => ?_, fun t' ht' => ?_⟩
  · rw [window_closeTask]
    exact h.tiled
  · rw [window_closeTask] at hj
    exact h.queued hj
  · rw [window_closeTask] at hj
    rw [(hfields _).1]
    exact h.bytes hj harr p hp
  · rw [hcontent, (hfields t').2.2.2.2.1, (hfields t').2.2.2.2.2]
    exact h.fed t' ht'
  · rw [(hfields t').1, (hfields t').2.1]
    exact h.size t' ht'
  · rw [(hfields t').2.1, (hfields t').2.2.1]
    exact h.inside t'
  · rw [(hfields t').2.2.2.1] at hreads
    rw [(hfields t').2.1, (hfields t').2.2.1]
    exact h.reads t' ht' hreads
  · rw [hcontent]
    have hold := h.digests t' ht'
    by_cases heq : t' = t
    · subst heq
      rw [hdone, if_neg Bool.false_ne_true] at hold
      rw [hself, hold, hfed ht']
      rfl
    · rw [closeTask_of_ne heq]
      exact hold

/-- **A drain feeds in order.** -/
theorem drainCompleted_inOrder (h : c.InOrder) (hgood : c.Good) (hord : c.window.Ordered) :
    (c.drainCompleted t).InOrder := by
  obtain ⟨hin, hgood', hord'⟩ := drainLoop_rule (n := c.config.pipelineDepth) (t := t)
    (P := fun d => d.InOrder ∧ d.Good ∧ d.window.Ordered)
    (fun {d i} ⟨hin, hgood, hord⟩ hnext => by
      refine ⟨feed_inOrder hin hord hnext, feed_good hgood hnext, ?_⟩
      rw [window_feed]
      exact hord.deliver (segment_of_holdsNext hnext) rfl) ⟨h, hgood, hord⟩
  unfold drainCompleted finishTask
  split_ifs with hfin
  · exact closeTask_inOrder hin hfin.2.2 fun ht => hin.fed_of_idle hgood' hord' ht hfin.1 hfin.2.1
  · exact hin

/-! ## Callbacks -/

/-- **A full read keeps the order.** -/
theorem complete_inOrder (h : c.InOrder) (hflows : c.Flows) (hfull : r = op.len)
    (heq : complete op r c = some d) : d.InOrder := by
  obtain ⟨hop, -, -, f, hf, hcase⟩ := complete_cases hflows.good heq
  have hs := hflows.good.ops op hop
  obtain ⟨hgood, hwin⟩ := arrive_good hflows.good hop f hf
  have hlen : 0 < op.len := hflows.ordered.pos hs
  rcases hcase with ⟨hneg, -, -⟩ | ⟨hpos, hbytes, hbuf, rfl⟩
  · omega
  have hnat : r.toNat = op.len := by omega
  rw [hbytes, hnat] at hwin
  refine drainCompleted_inOrder ?_ hgood ?_
  · have hslot (j : ℕ) (hj : j ≠ op.slot) :
        (modifySlot { c with inFlight := c.inFlight.erase op } op.slot f).slots j = c.slots j :=
      Function.update_of_ne hj _ _
    refine ⟨?_, fun {j s} hj => ?_, fun {j s} hj harr p hp => ?_, h.fed, h.size, h.inside, h.reads,
      h.digests⟩
    · rw [hwin]
      exact h.tiled.arrive hs
    · rw [hwin] at hj
      rcases Lib.Window.eq_of_update (w := c.window) hj with ⟨-, hnew⟩ | ⟨-, hold⟩
      · obtain rfl := Option.some.inj hnew
        have hqueued : op.task < c.totalFiles := h.queued hs
        exact hqueued
      · exact h.queued hold
    · rw [hwin] at hj
      rcases Lib.Window.eq_of_update (w := c.window) hj with ⟨hji, hnew⟩ | ⟨hne, hold⟩
      · obtain rfl := Option.some.inj hnew
        have hself : (modifySlot { c with inFlight := c.inFlight.erase op } op.slot f).slots j =
            f (c.slots op.slot) := by
          rw [hji]
          exact Function.update_self _ _ _
        rw [hself]
        refine hbuf p ?_
        rw [hnat]
        exact hp
      · rw [hslot j hne]
        exact h.bytes hold harr p hp
  · rw [hwin]
    exact hflows.ordered.arrive hs hlen (le_refl _)

/-! ## Submissions -/

/-- A change to the flags of a task. -/
theorem InOrder.modify (h : c.InOrder) (f : HashTask → HashTask)
    (hsame : (f (c.tasks t)).file = (c.tasks t).file ∧
      (f (c.tasks t)).fileSize = (c.tasks t).fileSize ∧
      (f (c.tasks t)).readOffset = (c.tasks t).readOffset ∧
      (f (c.tasks t)).hashOffset = (c.tasks t).hashOffset ∧ (f (c.tasks t)).fed = (c.tasks t).fed ∧
      (f (c.tasks t)).done = (c.tasks t).done ∧ (f (c.tasks t)).digests = (c.tasks t).digests)
    (hreads : t < c.totalFiles → (f (c.tasks t)).readsDone = true →
      (c.tasks t).readOffset = (c.tasks t).fileSize) : (c.modifyTask t f).InOrder := by
  obtain ⟨hfile, hsize, htop, hnext, hfed, hdone, hdigests⟩ := hsame
  have hself := modifyTask_self (c := c) (t := t) f
  have hwin : (c.modifyTask t f).window = c.window := window_modifyTask f hnext htop
  have hfields (t' : ℕ) : ((c.modifyTask t f).tasks t').file = (c.tasks t').file ∧
      ((c.modifyTask t f).tasks t').fileSize = (c.tasks t').fileSize ∧
      ((c.modifyTask t f).tasks t').readOffset = (c.tasks t').readOffset ∧
      ((c.modifyTask t f).tasks t').hashOffset = (c.tasks t').hashOffset ∧
      ((c.modifyTask t f).tasks t').fed = (c.tasks t').fed ∧
      ((c.modifyTask t f).tasks t').done = (c.tasks t').done ∧
      ((c.modifyTask t f).tasks t').digests = (c.tasks t').digests := by
    by_cases ht : t' = t
    · rw [ht, hself]
      exact ⟨hfile, hsize, htop, hnext, hfed, hdone, hdigests⟩
    · rw [modifyTask_of_ne f ht]
      exact ⟨rfl, rfl, rfl, rfl, rfl, rfl, rfl⟩
  have hcontent (t' : ℕ) : (c.modifyTask t f).content t' = c.content t' := by
    unfold content
    rw [(hfields t').1]
    rfl
  refine ⟨?_, fun {j s} hj => ?_, fun {j s} hj harr p hp => ?_, fun t' ht' => ?_,
    fun t' ht' => ?_, fun t' => ?_, fun t' ht' hr => ?_, fun t' ht' => ?_⟩
  · rw [hwin]
    exact h.tiled
  · rw [hwin] at hj
    exact h.queued hj
  · rw [hwin] at hj
    rw [(hfields _).1]
    exact h.bytes hj harr p hp
  · rw [hcontent, (hfields t').2.2.2.1, (hfields t').2.2.2.2.1]
    exact h.fed t' ht'
  · rw [(hfields t').1, (hfields t').2.1]
    exact h.size t' ht'
  · rw [(hfields t').2.1, (hfields t').2.2.1]
    exact h.inside t'
  · rw [(hfields t').2.1, (hfields t').2.2.1]
    by_cases ht : t' = t
    · rw [ht, hself] at hr
      rw [ht]
      exact hreads (ht ▸ ht') hr
    · rw [modifyTask_of_ne f ht] at hr
      exact h.reads t' ht' hr
  · rw [hcontent, (hfields t').2.2.2.2.2.1, (hfields t').2.2.2.2.2.2]
    exact h.digests t' ht'

theorem open_inOrder (h : c.InOrder) :
    (c.modifyTask t fun task => { task with isOpen := true }).InOrder :=
  h.modify _ ⟨rfl, rfl, rfl, rfl, rfl, rfl, rfl⟩ fun ht => h.reads t ht

/-- An empty file is over at once. -/
theorem finishEmpty_inOrder (h : c.InOrder) (hord : c.window.Ordered)
    (hdone : (c.tasks t).done = false) (hsize : (c.tasks t).fileSize = 0) :
    (c.finishEmpty t).InOrder := by
  have hzero : (c.tasks t).readOffset = (c.tasks t).fileSize := by
    have hinside := h.inside t
    omega
  set x := c.modifyTask t fun task => { task with readsDone := true }
  have hx : x.InOrder := h.modify _ ⟨rfl, rfl, rfl, rfl, rfl, rfl, rfl⟩ fun _ _ => hzero
  have hself : x.tasks t = { c.tasks t with readsDone := true } := modifyTask_self _
  have hclose : (x.closeTask t).InOrder := by
    refine closeTask_inOrder hx (by rw [hself]; exact hdone) fun ht => ?_
    have hnext : (c.tasks t).hashOffset ≤ (c.tasks t).readOffset := hord.next_le t
    have hfed := hx.fed t ht
    have hcontent : x.content t = (c.files (c.tasks t).file).toList := by
      unfold content
      rw [hself]
      rfl
    have hoff : (x.tasks t).hashOffset = (c.files (c.tasks t).file).size := by
      rw [hself, h.size t ht]
      change (c.tasks t).hashOffset = (c.tasks t).fileSize
      omega
    rw [hfed, hcontent, hoff]
    exact ByteFile.take_toList_size
  exact ⟨hclose.tiled, hclose.queued, hclose.bytes, hclose.fed, hclose.size, hclose.inside,
    hclose.reads, hclose.digests⟩

/-- The next chunk is announced where the last one ended. -/
theorem submitRead_inOrder (h : c.InOrder) (hfree : c.window.slots i = none)
    (hun : (c.tasks t).Unread) (ht : t < c.totalFiles) (hans : a.read = 0) :
    (submitRead a c t i).InOrder := by
  have hself := submitRead_self (c := c) (t := t) (i := i) hans
  have hle := chunk_le (c := c) (t := t)
  have hwin := window_submitRead (a := a) (t := t) hfree
  rw [if_pos hans] at hwin
  have htotal : (submitRead a c t i).totalFiles = c.totalFiles := submitRead_beside.totalFiles
  have hquiet : Quiet i c (submitRead a c t i) := submitRead_quiet
  have hcontent (t' : ℕ) : (submitRead a c t i).content t' = c.content t' := by
    unfold content
    rw [hquiet.file, hquiet.files]
  have hsize (t' : ℕ) : ((submitRead a c t i).tasks t').fileSize = (c.tasks t').fileSize ∧
      ((submitRead a c t i).tasks t').done = (c.tasks t').done ∧
      ((submitRead a c t i).tasks t').digests = (c.tasks t').digests := by
    by_cases heq : t' = t
    · rw [heq, hself]
      exact ⟨rfl, rfl, rfl⟩
    · rw [submitRead_of_ne heq]
      exact ⟨rfl, rfl, rfl⟩
  have hinside := h.inside t
  refine ⟨?_, fun {j s} hj => ?_, fun {j s} hj harr p hp => ?_, fun t' ht' => ?_,
    fun t' ht' => ?_, fun t' => ?_, fun t' ht' hreads => ?_, fun t' ht' => ?_⟩
  · rw [hwin]
    exact h.tiled.reserve hfree
  · rw [hwin] at hj
    rw [htotal]
    rcases Lib.Window.eq_of_update (w := c.window) hj with ⟨-, hnew⟩ | ⟨-, hold⟩
    · obtain rfl := Option.some.inj hnew
      exact ht
    · exact h.queued hold
  · rw [hwin] at hj
    rcases Lib.Window.eq_of_update (w := c.window) hj with ⟨-, hnew⟩ | ⟨hne, hold⟩
    · obtain rfl := Option.some.inj hnew
      cases harr
    · rw [hquiet.slots j hne, hquiet.files, hquiet.file]
      exact h.bytes hold harr p hp
  · rw [htotal] at ht'
    rw [hcontent, (hquiet.fed t').1, (hquiet.fed t').2]
    exact h.fed t' ht'
  · rw [htotal] at ht'
    rw [hquiet.files, hquiet.file, (hsize t').1]
    exact h.size t' ht'
  · by_cases heq : t' = t
    · rw [heq, hself]
      change (c.tasks t).readOffset + c.chunk t ≤ (c.tasks t).fileSize
      omega
    · rw [submitRead_of_ne heq]
      exact h.inside t'
  · rw [htotal] at ht'
    by_cases heq : t' = t
    · rw [heq, hself] at hreads ⊢
      have hlast : c.lastChunk t = true := by
        have hor : ((c.tasks t).readsDone || c.lastChunk t) = true := hreads
        rwa [hun.1, Bool.false_or] at hor
      have hend := of_decide_eq_true hlast
      change (c.tasks t).readOffset + c.chunk t = (c.tasks t).fileSize
      omega
    · rw [submitRead_of_ne heq] at hreads ⊢
      exact h.reads t' ht' hreads
  · rw [htotal] at ht'
    rw [hcontent, (hsize t').2.1, (hsize t').2.2]
    exact h.digests t' ht'

/-- **Submissions keep the order**, where files can be opened and reads are accepted. -/
theorem submitNextRead_inOrder (h : c.InOrder) (hflows : c.Flows)
    (hfree : (c.slots i).state = .free)
    (hans : a.read = 0) (hopens : ∀ t, a.opens t = true) : (submitNextRead a i c).InOrder := by
  have hnone : c.window.slots i = none := if_pos hfree
  unfold submitNextRead
  refine submitFrom_rule (I := fun n t c => c.InOrder ∧ c.window.Ordered ∧
      c.window.slots i = none ∧ (n ≠ 0 → t + n ≤ c.totalFiles)) (F := InOrder) (fun h => h.1)
    ?_ ?_ ?_ ?_ ?_ ⟨h, hflows.ordered, hnone, fun hn => by omega⟩
  · rintro n t c ⟨hin, hord, hnone, hqueued⟩ -
    have hle := hqueued (Nat.succ_ne_zero n)
    exact ⟨hin, hord, hnone, fun _ => by omega⟩
  · rintro n t c - - - hno
    rw [hopens t] at hno
    cases hno
  · rintro n t c ⟨hin, hord, hnone, hqueued⟩ hun - - hsize
    have hle := hqueued (Nat.succ_ne_zero n)
    set x := c.modifyTask t fun task => { task with isOpen := true }
    have hself : x.tasks t = _ := modifyTask_self _
    have hwin : x.window = c.window := window_modifyTask _ rfl rfl
    refine ⟨finishEmpty_inOrder (open_inOrder hin) ?_ ?_ ?_, ?_, ?_, fun _ => ?_⟩
    · rw [hwin]
      exact hord
    · rw [hself]
      exact hun.2
    · rw [hself]
      exact hsize
    · rw [window_finishEmpty, hwin]
      exact hord
    · rw [window_finishEmpty, hwin]
      exact hnone
    · change t + 1 + n ≤ c.totalFiles
      omega
  · rintro n t c ⟨hin, -, hnone, hqueued⟩ hun -
    have hle := hqueued (Nat.succ_ne_zero n)
    exact submitRead_inOrder hin hnone hun (by omega) hans
  · rintro n t c ⟨hin, -, hnone, hqueued⟩ hun - - -
    have hle := hqueued (Nat.succ_ne_zero n)
    set x := c.modifyTask t fun task => { task with isOpen := true }
    have hself : x.tasks t = _ := modifyTask_self _
    have hwin : x.window = c.window := window_modifyTask _ rfl rfl
    refine submitRead_inOrder (open_inOrder hin) ?_ ?_ ?_ hans
    · rw [hwin]
      exact hnone
    · rw [hself]
      exact hun
    · change t < c.totalFiles
      omega

/-! ## Runs -/

/-- **A full read leaves no gap**: nothing is ever missing, and it has bytes. -/
theorem InOrder.leavesNoGap (h : c.InOrder) (hflows : c.Flows) (hop : op ∈ c.inFlight)
    (hfull : r = op.len) : c.LeavesNoGap op r := by
  have hs := hflows.good.ops op hop
  have hlen : 0 < op.len := hflows.ordered.pos hs
  have hbefore : op.offset + op.len ≤ (c.tasks op.task).readOffset := hflows.ordered.before hs
  refine ⟨fun _ => (h.tiled op.task).mono ?_, fun hne => absurd hfull hne, fun hzero => ?_⟩
  · change op.offset ≤ (c.tasks op.task).readOffset
    omega
  · omega

theorem InOrder.setError (h : c.InOrder) (e : ℤ) : (c.setError e).InOrder := by
  unfold HashCtx.setError
  split_ifs
  · exact ⟨h.tiled, h.queued, h.bytes, h.fed, h.size, h.inside, h.reads, h.digests⟩
  · exact h

/-- What a step leaves of the files, and of which of them the tasks read. -/
structure SameFiles (c d : HashCtx) : Prop where
  files : d.files = c.files
  totalFiles : d.totalFiles = c.totalFiles
  file : ∀ t, (d.tasks t).file = (c.tasks t).file

theorem SameFiles.trans {x : HashCtx} (h : SameFiles c d) (h' : SameFiles d x) : SameFiles c x :=
  ⟨h'.files.trans h.files, h'.totalFiles.trans h.totalFiles,
    fun t => (h'.file t).trans (h.file t)⟩

theorem complete_sameFiles (h : c.Good) (heq : complete op r c = some d) : SameFiles c d := by
  obtain ⟨-, hbeside, hdrained⟩ := complete_drained h heq
  refine ⟨hbeside.files, hbeside.totalFiles, fun t => ?_⟩
  by_cases ht : t = op.task
  · rw [ht]
    exact hdrained.file
  · rw [hbeside.tasks t ht]

/-- What the pipeline keeps of its start, under full reads. -/
structure HashesInOrder (config : HashConfig) (c₀ c : HashCtx) : Prop where
  flows : c.Flows ∧ c.Inside ∧ c.config = config
  order : c.InOrder
  same : SameFiles c₀ c

theorem order_keeps (config : HashConfig) (c₀ : HashCtx) :
    (hashPipeline config).Keeps FullReads (HashesInOrder config c₀) where
  submit {c a i} h hi hfree hgoes hok :=
    ⟨(flows_keeps config).submit h.flows hi hfree hgoes trivial,
      submitNextRead_inOrder h.order h.flows.1 (of_decide_eq_true hfree) hok.1 hok.2,
      h.same.trans ⟨submitNextRead_quiet.files, submitNextRead_quiet.totalFiles,
        submitNextRead_quiet.file⟩⟩
  complete {c d a op r} h hok heq := by
    have hgood := h.flows.1.good
    have hop := (complete_drained hgood heq).1
    exact ⟨(flows_keeps config).complete h.flows (h.order.leavesNoGap h.flows.1 hop hok) heq,
      complete_inOrder h.order h.flows.1 hok heq, h.same.trans (complete_sameFiles hgood heq)⟩
  setError {c e} h := by
    have hbeside : Beside 0 c (c.setError e) := setError_beside e
    refine ⟨(flows_keeps config).setError h.flows, h.order.setError e,
      h.same.trans ⟨hbeside.files, hbeside.totalFiles, fun t => ?_⟩⟩
    change ((c.setError e).tasks t).file = (c.tasks t).file
    rw [setError_tasks]
  others hj := (flows_keeps config).others hj

theorem order_settles (config : HashConfig) (c₀ : HashCtx) :
    (hashPipeline config).Settles FullReads (HashesInOrder config c₀) where
  error {c d a op r} h _ heq hne hzero :=
    hne ((complete_drained h.flows.1.good heq).2.1.error hzero)
  done {c d a op r} h _ heq hall := by
    obtain ⟨-, hbeside, hdrained⟩ := complete_drained h.flows.1.good heq
    refine allTasksDone_iff.mpr fun t ht => ?_
    rw [hbeside.totalFiles] at ht
    have hdone := allTasksDone_iff.mp hall t ht
    by_cases hop : t = op.task
    · rw [hop] at hdone ⊢
      exact hdrained.done hdone
    · rw [hbeside.tasks t hop]
      exact hdone
  fail he := setError_error_ne he

/-- A full read is permitted as long as the file has its size. -/
theorem InOrder.can_complete (h : c.InOrder) (hflows : c.Flows) (hop : op ∈ c.inFlight) :
    ∃ d, complete op op.len c = some d := by
  have hs := hflows.good.ops op hop
  have ht : op.task < c.totalFiles := h.queued hs
  have hbefore : op.offset + op.len ≤ (c.tasks op.task).readOffset := hflows.ordered.before hs
  have hinside := h.inside op.task
  have hsize := h.size op.task ht
  refine ⟨_, if_pos ⟨hop, Bool.and_eq_true_iff.mpr ⟨decide_eq_true (le_refl _), ?_⟩⟩⟩
  exact decide_eq_true (by omega)

theorem order_progress (config : HashConfig) (c₀ : HashCtx) :
    (hashPipeline config).Progress FullReads (HashesInOrder config c₀)
      (fun c op => op ∈ c.inFlight) work := by
  refine (hash_progress config).mono (fun h => h.flows) (fun _ _ => trivial) (fun h hok heq => ?_)
    (fun _ _ => ⟨{}, rfl, fun _ => rfl⟩) fun h hop => ?_
  · exact h.order.leavesNoGap h.flows.1 (complete_drained h.flows.1.good heq).1 hok
  · obtain ⟨d, heq⟩ := h.order.can_complete h.flows.1 hop
    exact ⟨{}, _, d, rfl, heq⟩

end HashCtx

/-- The task list: the inodes that the paths lead to, with the sizes listed. -/
def hashSources (files : ℕ → ByteFile UInt8) (paths : List ℕ) : List (ℕ × ℕ) :=
  paths.map fun file => (file, (files file).size)

namespace HashCtx

variable {config : HashConfig} {files : ℕ → ByteFile UInt8} {paths : List ℕ} {t : ℕ}

/-- The task of a file. -/
theorem start_task (ht : t < paths.length) :
    (start config files (hashSources files paths)).tasks t =
      { file := paths[t], fileSize := (files paths[t]).size } := by
  have hget : (hashSources files paths)[t]? = some (paths[t], (files paths[t]).size) := by
    unfold hashSources
    rw [List.getElem?_map, List.getElem?_eq_getElem ht, Option.map_some]
  unfold start
  dsimp only
  rw [List.getD_eq_getElem?_getD, hget, Option.getD_some]

theorem start_totalFiles :
    (start config files (hashSources files paths)).totalFiles = paths.length := List.length_map _

theorem start_inOrder : (start config files (hashSources files paths)).InOrder := by
  have hnone (i : ℕ) : (start config files (hashSources files paths)).window.slots i = none := rfl
  refine ⟨fun t p hle hlt => absurd hlt (Nat.not_lt.mpr (Nat.zero_le p)), fun {i s} hs => ?_,
    fun {i s} hs => ?_, fun t ht => rfl, fun t ht => ?_, fun t => Nat.zero_le _,
    fun t ht hreads => (by cases hreads), fun t ht => rfl⟩
  · rw [hnone] at hs
    cases hs
  · rw [hnone] at hs
    cases hs
  · rw [start_totalFiles] at ht
    rw [start_task ht]
    rfl

end HashCtx

/-- What was fed to the digest of a file, and what was printed for it: the bytes before the hash
offset, and once the file is done one digest of all of them. -/
structure HashedInOrder (c : HashCtx) (t : ℕ) (content : List UInt8) : Prop where
  fed : (c.tasks t).fed = content.take (c.tasks t).hashOffset
  digests : (c.tasks t).digests = if (c.tasks t).done then [content] else []

/-- **Digests do not depend on the order of completions.** Where files can be opened, reads are
accepted and all of them are full, a digest is at any time fed the first bytes of its file, in
order, and printed at most once and for the whole file; for every file once the tool exits with
success. And it exits: before the end a step is possible, and no run in which all reads complete
goes on for ever. -/
theorem hash_in_order (config : HashConfig) (files : ℕ → ByteFile UInt8) (paths : List ℕ) :
    (∀ s, Reachable (((hashPipeline config).system
        (HashCtx.start config files (hashSources files paths))).restrict
          ((hashPipeline config).Allows HashCtx.FullReads)) s →
      (∀ t (ht : t < paths.length), HashedInOrder s.core t (files paths[t]).toList) ∧
      (s.pc = .returned → s.core.error = 0 → s.interrupted = false →
        ∀ t (ht : t < paths.length), (s.core.tasks t).digests = [(files paths[t]).toList]) ∧
      (s.pc ≠ .returned → ∃ l s', l ≠ .interrupt ∧
        (hashPipeline config).Allows HashCtx.FullReads s l ∧
          (hashPipeline config).step s l = some s')) ∧
    ∀ f l, InfiniteRun (((hashPipeline config).system
        (HashCtx.start config files (hashSources files paths))).restrict
          ((hashPipeline config).Allows HashCtx.FullReads)) f l → ¬ ReadsComplete f l := by
  set c₀ := HashCtx.start config files (hashSources files paths) with hc₀
  have hkeeps := HashCtx.order_keeps config c₀
  have hprogress := HashCtx.order_progress config c₀
  have hstart : HashCtx.HashesInOrder config c₀ c₀ := by
    obtain ⟨hflows, hinside⟩ := HashCtx.start_flows config files (hashSources files paths)
    exact ⟨⟨hflows, hinside, rfl⟩, HashCtx.start_inOrder, ⟨rfl, rfl, fun _ => rfl⟩⟩
  refine ⟨fun s hs => ?_, fun f l hrun hfair => ?_⟩
  · have hkept := hkeeps.reachable hstart (fun _ _ => rfl) hs
    obtain ⟨-, horder, hsame⟩ := hkept.1
    have hfile {t : ℕ} (ht : t < paths.length) :
        t < s.core.totalFiles ∧ s.core.content t = (files paths[t]).toList := by
      refine ⟨?_, ?_⟩
      · rw [hsame.totalFiles, hc₀, HashCtx.start_totalFiles]
        exact ht
      · unfold HashCtx.content
        rw [hsame.files, hsame.file, hc₀, HashCtx.start_task ht]
        rfl
    have hhashed (t : ℕ) (ht : t < paths.length) :
        HashedInOrder s.core t (files paths[t]).toList := by
      obtain ⟨hqueued, hcontent⟩ := hfile ht
      rw [← hcontent]
      exact ⟨horder.fed t hqueued, horder.digests t hqueued⟩
    refine ⟨hhashed, fun hpc hzero hno t ht => ?_, fun hpc => hprogress.enabled hkept hpc⟩
    have hdone : (s.core.tasks t).done = true := by
      rcases Pipeline.exited hkeeps (HashCtx.order_settles config c₀) hstart (fun _ _ => rfl) hs
        (.inr hpc) with herr | hint | hall
      · exact absurd hzero herr
      · rw [hno] at hint
        cases hint
      · exact HashCtx.allTasksDone_iff.mp hall t (hfile ht).1
    rw [(hhashed t ht).digests, hdone, if_pos rfl]
  · exact hprogress.terminates hkeeps hstart (fun _ _ => rfl) hrun hfair

end Aura
