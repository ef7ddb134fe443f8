import Aura.Engine.Failed
import Aura.Engine.RegLock

/-!
# Failed submissions take nothing

What a submission call takes on the way it gives back when it fails, with two exceptions.

* `Stakes` — what of a ring a submission takes hold of: free slots, the lock, the counts.
* `Began` — what `submit_begin` took when it returns, compared with the marked state: nothing when
  it failed, else one slot and, on its locked path, the ring lock (`submitBegin_began`).
* **`failed_submission_atomic_iff`** — a failed call took nothing, unless it failed at a fixed-file
  index after `submit_begin`, or at its `ring_submit_*` function on the lockless path.
-/

namespace Aura

open Lib Lib.Prog

variable {env : Env} {cb : Callback} {w w' w'' : World}

/-! ## What a submission takes -/

/-- What of a ring a submission takes hold of. -/
structure Stakes where
  free : List ℕ
  lockHeld : Bool
  stUsers : ℤ
  pendingCount : ℤ
  fixedBufInflight : UInt32
  fixedFileInflight : UInt32

/-- The stakes in a ring. -/
def RingCtx.stakes (r : RingCtx) : Stakes :=
  ⟨r.freeRequestStack, r.lockHeld, r.stUsers, r.pendingCount, r.fixedBufInflight,
    r.fixedFileInflight⟩

namespace Stakes

/-- The ring lock taken. -/
def acquire (s : Stakes) (st : Bool) : Stakes :=
  if st then { s with stUsers := s.stUsers + 1 } else { s with lockHeld := true }

/-- The ring lock released. -/
def release (s : Stakes) (st : Bool) : Stakes :=
  if st then { s with stUsers := s.stUsers - 1 } else { s with lockHeld := false }

theorem release_acquire {s : Stakes} {st : Bool} (h : st = false → s.lockHeld = false) :
    (s.acquire st).release st = s := by
  cases st with
  | true => simp [acquire, release]
  | false =>
      have hfree := h rfl
      obtain ⟨free, lockHeld, stUsers, pendingCount, fixedBuf, fixedFile⟩ := s
      subst hfree
      rfl

end Stakes

/-- The slots on the free stack are slots of the ring. -/
def RingCtx.FreeInRange (r : RingCtx) : Prop := ∀ i ∈ r.freeRequestStack, i < r.maxRequests

theorem RingQuiet.stakes {r r' : RingCtx} (h : RingQuiet r r') : r'.stakes = r.stakes := by
  cases h with
  | post k res =>
      unfold RingCtx.kernelPost
      split <;> rfl
  | _ => rfl

theorem RingCtx.stakes_unlock (r : RingCtx) (st : Bool) :
    (r.unlock st).stakes = r.stakes.release st := by
  cases st <;> rfl

theorem RingCtx.stakes_lock {r r' : RingCtx} {st : Bool} (h : r.lock = some (st, r')) :
    r'.stakes = r.stakes.acquire st ∧ (st = false → r.stakes.lockHeld = false) := by
  rcases RingCtx.lock_eq_some.mp h with ⟨-, rfl, rfl⟩ | ⟨-, hfree, rfl, rfl⟩
  · exact ⟨rfl, nofun⟩
  · exact ⟨rfl, fun _ => hfree⟩

/-! ## Free slots stay in range -/

section

variable {r r' : RingCtx}

theorem RingCtx.FreeInRange.put (h : r.FreeInRange) (i : ℕ) : (ringPutRequest r i).FreeInRange := by
  unfold ringPutRequest
  split
  · exact h
  · next hlt =>
      split
      · exact h
      · split
        · exact h
        · intro j hj
          rcases List.mem_cons.mp hj with rfl | hj
          · exact not_le.mp hlt
          · exact h j hj

theorem RingCtx.FreeInRange.retireEntry (h : r.FreeInRange) (e : RetireEntry) :
    (retireEntry r e).FreeInRange := by
  unfold Aura.retireEntry
  cases e.opIdx with
  | none => exact h
  | some i =>
      have hcount : (countCompleted r e).FreeInRange := by
        unfold countCompleted
        split <;> exact h
      exact hcount.put i

theorem RingCtx.FreeInRange.retireBatch (h : r.FreeInRange) (es : List RetireEntry) :
    (ringRetireBatch r es).FreeInRange := by
  have hfold : (es.foldl Aura.retireEntry r).FreeInRange := by
    induction es generalizing r with
    | nil => exact h
    | cons e es ih => exact ih (h.retireEntry e)
  exact hfold

theorem RingQuiet.freeInRange (h : RingQuiet r r') (hr : r.FreeInRange) : r'.FreeInRange := by
  cases h with
  | post k res =>
      unfold RingCtx.kernelPost
      split <;> exact hr
  | _ => exact hr

theorem RingMove.freeInRange (h : RingMove r r') (hr : r.FreeInRange) : r'.FreeInRange := by
  cases h with
  | quiet h => exact h.freeInRange hr
  | lock h =>
      rcases RingCtx.lock_eq_some.mp h with ⟨-, -, rfl⟩ | ⟨-, -, -, rfl⟩ <;> exact hr
  | unlock st => cases st <;> exact hr
  | cqLock h =>
      unfold RingCtx.cqLock at h
      split_ifs at h <;> cases h <;> exact hr
  | cqUnlock st => cases st <;> exact hr
  | get h =>
      obtain ⟨rest, hstack, rfl⟩ := ringGetRequest_eq_some.mp h
      exact fun j hj => hr j (hstack ▸ List.mem_cons_of_mem _ hj)
  | put i => exact hr.put i
  | process now req res =>
      obtain ⟨a, b, f, reqs, heq⟩ := processCompletion_eq now r req res
      rw [heq]
      exact hr
  | retireBatch es => exact hr.retireBatch es
  | retireInline e =>
      rw [ringRetireInline_eq_batch]
      exact hr.retireBatch [e]
  | _ => exact hr

end

/-- On every ring the free slots are slots of the ring. -/
def World.FreeInRange (w : World) : Prop := ∀ i, (w.ring i).FreeInRange

/-- The free slots stay in range. -/
def RangeKept (w w' : World) : Prop := w.FreeInRange → w'.FreeInRange

theorem RangeKept.of_ring {i : ℕ} {r : RingCtx} (h : (w.ring i).FreeInRange → r.FreeInRange) :
    RangeKept w (w.setRing i r) := by
  intro hw j
  rw [World.setRing_ring]
  split
  · exact h (hw i)
  · exact hw j

theorem Engine.RegFrame.rangeKept {e : Engine} (h : w.engine.RegFrame e) :
    RangeKept w { w with engine := e } := by
  intro hw j
  have hring : World.ring { w with engine := e } j = w.ring j := congrFun h.rings j
  rw [hring]
  exact hw j

theorem steady_rangeKept : Steady RangeKept where
  refl _ := id
  trans h h' := h' ∘ h
  move h := by
    cases h with
    | quiet h =>
        cases h with
        | ring i h => exact .of_ring h.freeInRange
        | engine h => exact h.rangeKept
        | _ => exact id
    | ring i h => exact .of_ring h.freeInRange
    | _ => exact id
  submitted w i op r h := by
    obtain ⟨sqe, o, t, sc, -, -, rfl⟩ := h
    exact .of_ring id
  link w i slot := .of_ring id
  lastSqe _ _ := id
  log _ _ _ := id

theorem freeInRange_create (o : Options) (addr sqEntries : ℕ) :
    (World.start (auraCreate o addr sqEntries)).FreeInRange := by
  intro i j hj
  have hmem : j ∈ (List.range o.queueDepth).reverse := hj
  exact List.mem_range.mp (List.mem_reverse.mp hmem)

/-- **No library call takes a free slot out of range.** -/
theorem calling_rangeKept : Calling env fun (α : Type) (p : AuraM α) => Keeps RangeKept p := by
  have hm := steady_rangeKept.moving
  have hsubmit : ∀ site i, Keeps RangeKept (ioUringSubmit env site i) := fun site i =>
    hm.ioUringSubmit (fun _ _ => id) (fun _ _ _ => .of_ring id) i
  exact steady_rangeKept.calling (fun _ _ h => h.rangeKept)
    (fun hcb => keeps_invokeCallback steady_rangeKept.refl steady_rangeKept.trans
      (fun _ _ _ _ => id) (fun _ _ => id) hcb)
    (fun i => hm.ringFlushLatching (hsubmit _ i)) (fun i => hm.flushQueued (hsubmit _ i))
    fun i => hm.ringFlush (hsubmit _ i)

/-! ## Compared with the mark -/

/-- The stakes in every ring are the marked ones. -/
def World.Even (w : World) : Prop := ∀ i, (w.ring i).stakes = (w.mark.1.rings i).stakes

/-- The stakes in ring `i` are the marked ones changed by `f`; those in the other rings are the
marked ones. -/
structure World.Since (w : World) (i : ℕ) (f : Stakes → Stakes) : Prop where
  own : (w.ring i).stakes = f (w.mark.1.rings i).stakes
  others : ∀ j, j ≠ i → (w.ring j).stakes = (w.mark.1.rings j).stakes

/-- The mark and all stakes are the same. -/
structure Level (w w' : World) : Prop where
  mark : w'.mark = w.mark
  stakes : ∀ i, (w'.ring i).stakes = (w.ring i).stakes
  range : RangeKept w w'

namespace Level

theorem refl (w : World) : Level w w := ⟨rfl, fun _ => rfl, id⟩

theorem trans (h : Level w w') (h' : Level w' w'') : Level w w'' :=
  ⟨h'.mark.trans h.mark, fun i => (h'.stakes i).trans (h.stakes i), h'.range ∘ h.range⟩

theorem even (h : Level w w') (hw : w.Even) : w'.Even := fun i => by
  rw [h.stakes, h.mark, hw]

theorem since {i : ℕ} {f : Stakes → Stakes} (h : Level w w') (hw : w.Since i f) : w'.Since i f where
  own := by rw [h.stakes, h.mark, hw.own]
  others j hj := by rw [h.stakes, h.mark, hw.others j hj]

theorem of_setRing {i : ℕ} {r : RingCtx} (hs : r.stakes = (w.ring i).stakes)
    (hr : (w.ring i).FreeInRange → r.FreeInRange) : Level w (w.setRing i r) := by
  refine ⟨rfl, fun j => ?_, .of_ring hr⟩
  rw [World.setRing_ring]
  split
  · next hj => rw [hs, hj]
  · rfl

end Level

theorem QuietMove.level (h : QuietMove w w') : Level w w' := by
  cases h with
  | ring i h => exact .of_setRing h.stakes h.freeInRange
  | engine h => exact ⟨rfl, fun i => by rw [World.ring, h.rings]; rfl, h.rangeKept⟩
  | tls h => exact ⟨rfl, fun _ => rfl, id⟩
  | tick => exact ⟨rfl, fun _ => rfl, id⟩

theorem quietly_level : Quietly fun (α : Type) (p : AuraM α) => Keeps Level p :=
  .of_keeps Level.refl Level.trans QuietMove.level

theorem ioUringSubmit_level (site : FlushSite) (i : ℕ) : Keeps Level (ioUringSubmit env site i) :=
  quietly_level.ioUringSubmit (fun _ _ => ⟨rfl, fun _ => rfl, id⟩)
    (fun _ _ _ => .of_setRing rfl id) i

theorem onTls_level (f : Tls → Tls) : Keeps Level (onTls f) := fun _ => ⟨rfl, fun _ => rfl, id⟩

theorem pickRing_level : Keeps Level (pickRing env) := by
  have h := quietly_level
  refine h.bind (h.read _) fun pinned => ?_
  cases pinned with
  | some i => exact h.pure _
  | none => exact h.bind (h.read _) fun _ => h.andThen (h.when (onTls_level _)) h.selectRing

/-! ## Taking the lock and a slot -/

/-- The lock of ring `i` was taken since the mark, and nothing else. -/
structure World.Locked (w : World) (i : ℕ) (st : Bool) : Prop where
  since : w.Since i (·.acquire st)
  was : st = false → (w.mark.1.rings i).lockHeld = false
  range : w.FreeInRange

/-- A slot taken off the stack. -/
def Stakes.take (s : Stakes) : Stakes := { s with free := s.free.tail }

/-- A slot was taken since the mark and, if `locked`, the lock of its ring. -/
structure Taken (ctx : SubmitCtx) (locked : Bool) (w : World) : Prop where
  since : w.Since ctx.ring fun s => (if locked then s.acquire ctx.lockSt else s).take
  free : ∃ rest, (w.mark.1.rings ctx.ring).freeRequestStack = ctx.opIdx :: rest
  was : locked = true → ctx.lockSt = false → (w.mark.1.rings ctx.ring).lockHeld = false
  fast : locked = false → ctx.lockSt = true
  inPool : ((w.ring ctx.ring).requests ctx.opIdx).inPool = false
  pending : ((w.ring ctx.ring).requests ctx.opIdx).pending = false
  lt : ctx.opIdx < (w.ring ctx.ring).maxRequests

/-- What `submit_begin` took since the mark. -/
def Began (locked : Bool) : Option SubmitCtx → World → Prop
  | none, w => w.Even
  | some ctx, w => Taken ctx locked w

section

variable {i : ℕ} {st : Bool}

theorem World.Even.since (h : w.Even) (i : ℕ) : w.Since i id := ⟨h i, fun j _ => h j⟩

theorem Level.locked (h : Level w w') (hw : w.Locked i st) : w'.Locked i st :=
  ⟨h.since hw.since, by rw [h.mark]; exact hw.was, h.range hw.range⟩

theorem ringLock_locked (hw : w.Even) (hr : w.FreeInRange) (h : ringLock i w = .ret st w') :
    w'.Locked i st := by
  unfold ringLock at h
  rw [await_apply] at h
  cases hlock : (w.ring i).lock with
  | none => simp [hlock] at h
  | some p =>
      obtain ⟨st', r⟩ := p
      simp only [hlock, Option.map_some, Outcome.ret.injEq] at h
      obtain ⟨rfl, rfl⟩ := h
      obtain ⟨hstakes, hfree⟩ := RingCtx.stakes_lock hlock
      refine ⟨⟨?_, fun j hj => ?_⟩, fun hst => ?_,
        RangeKept.of_ring (RingMove.lock hlock).freeInRange hr⟩
      · rw [World.setRing_self, hstakes, hw i]
        rfl
      · rw [World.setRing_ring, if_neg hj]
        exact hw j
      · have := hfree hst
        rw [hw i] at this
        exact this

/-- Letting go of the lock restores the mark. -/
theorem World.Locked.unlock (h : w.Locked i st) :
    (w.setRing i ((w.ring i).unlock st)).Even := by
  intro j
  rw [World.setRing_ring]
  split
  · next hj =>
      subst hj
      rw [RingCtx.stakes_unlock, h.since.own, Stakes.release_acquire h.was]
      rfl
  · next hj => exact h.since.others j hj

/-- A slot taken off the stack, with the lock as `f` says. -/
theorem taken_of_get {op : ℕ} {r : RingCtx} {f : Stakes → Stakes} (hf : ∀ s, (f s).free = s.free)
    (hw : w.Since i f) (hget : ringGetRequest (w.ring i) = some (op, r)) :
    (w.setRing i r).Since i (fun s => (f s).take) ∧
      (∃ rest, (w.mark.1.rings i).freeRequestStack = op :: rest) ∧
      (r.requests op).inPool = false ∧ (r.requests op).pending = false := by
  obtain ⟨rest, hstack, rfl⟩ := ringGetRequest_eq_some.mp hget
  have hfree : (w.mark.1.rings i).freeRequestStack = op :: rest := by
    rw [← hstack]
    exact ((congrArg Stakes.free hw.own).trans (hf _)).symm
  refine ⟨⟨?_, fun j hj => ?_⟩, ⟨rest, hfree⟩, ?_, ?_⟩
  · have htake : ∀ reqs, ({ w.ring i with freeRequestStack := rest, requests := reqs }).stakes =
        (w.ring i).stakes.take := fun reqs => by simp [RingCtx.stakes, Stakes.take, hstack]
    rw [World.setRing_self]
    exact (htake _).trans (congrArg Stakes.take hw.own)
  · rw [World.setRing_ring, if_neg hj]
    exact hw.others j hj
  · simp [Request.reset]
  · simp [Request.reset]

theorem getRequest_eq_ret {o : Option ℕ} (h : getRequest i w = .ret o w') :
    (o = none ∧ w' = w) ∨
      ∃ op r, o = some op ∧ ringGetRequest (w.ring i) = some (op, r) ∧ w' = w.setRing i r := by
  unfold getRequest at h
  rw [update_apply] at h
  cases hget : ringGetRequest (w.ring i) with
  | none =>
      rw [hget] at h
      obtain ⟨rfl, rfl⟩ := Outcome.ret.inj h
      exact .inl ⟨rfl, rfl⟩
  | some p =>
      rw [hget] at h
      obtain ⟨rfl, rfl⟩ := Outcome.ret.inj h
      exact .inr ⟨p.1, p.2, rfl, rfl, rfl⟩

/-- A slot that comes off a stack in range is in range. -/
theorem lt_of_get {op : ℕ} {r : RingCtx} (hr : w.FreeInRange)
    (hget : ringGetRequest (w.ring i) = some (op, r)) : op < r.maxRequests := by
  obtain ⟨rest, hstack, rfl⟩ := ringGetRequest_eq_some.mp hget
  exact hr i op (hstack ▸ List.mem_cons_self)

theorem takeSlotFast_began {o : Option SubmitCtx} (hw : w.Even) (hr : w.FreeInRange)
    (h : takeSlotFast i w = .ret o w') : Began false o w' := by
  obtain ⟨op, w₁, hslot, hrest⟩ := bind_eq_ret.mp h
  rcases getRequest_eq_ret hslot with ⟨rfl, rfl⟩ | ⟨op, r, rfl, hget, rfl⟩
  · obtain ⟨rfl, rfl⟩ := Outcome.ret.inj hrest
    exact hw
  · obtain ⟨rfl, rfl⟩ := Outcome.ret.inj hrest
    obtain ⟨hsince, hfree, hpool, hpend⟩ := taken_of_get (f := id) (fun _ => rfl) (hw.since i) hget
    have hring := w.setRing_self i r
    refine ⟨hsince, hfree, nofun, fun _ => rfl, ?_, ?_, ?_⟩
    · rwa [hring]
    · rwa [hring]
    · rw [hring]
      exact lt_of_get hr hget

theorem takeSlotLocked_began {o : Option SubmitCtx} (hw : w.Locked i st)
    (h : takeSlotLocked i st w = .ret o w') : Began true o w' := by
  obtain ⟨op, w₁, hslot, hrest⟩ := bind_eq_ret.mp h
  rcases getRequest_eq_ret hslot with ⟨rfl, rfl⟩ | ⟨op, r, rfl, hget, rfl⟩
  · obtain ⟨rfl, rfl⟩ := Outcome.ret.inj hrest
    exact hw.unlock
  · obtain ⟨rfl, rfl⟩ := Outcome.ret.inj hrest
    have hacq : ∀ s : Stakes, (s.acquire st).free = s.free := fun s => by cases st <;> rfl
    obtain ⟨hsince, hfree, hpool, hpend⟩ := taken_of_get hacq hw.since hget
    have hring := w.setRing_self i r
    refine ⟨hsince, hfree, fun _ => hw.was, nofun, ?_, ?_, ?_⟩
    · rwa [hring]
    · rwa [hring]
    · rw [hring]
      exact lt_of_get hw.range hget

end

/-! ## `submit_begin` -/

theorem even_marked (w : World) : w.marked.Even := fun _ => rfl

section

variable {i : ℕ} {st : Bool} {o : Option SubmitCtx}

theorem submitBeginFast_began (hcb : ∀ q res, Keeps RangeKept (cb q res)) (hw : w.Even)
    (hr : w.FreeInRange) (h : submitBeginFast env cb i w = .ret o w') : Began false o w' := by
  have hrange := @calling_rangeKept env
  unfold submitBeginFast readRing at h
  rw [Prog.bind_apply, Prog.read_apply, Outcome.bind_ret, Prog.ite_apply] at h
  split at h
  · exact takeSlotFast_began hw hr h
  · obtain ⟨_, w₁, hflush, h⟩ := bind_eq_ret.mp h
    obtain ⟨_, w₂, hdrain, h⟩ := bind_eq_ret.mp h
    have hr₂ : w₂.FreeInRange := (hrange.ringDrainCqesFast hcb i).ensures _ _ _ hdrain
      ((hrange.fast i).ensures _ _ _ hflush hr)
    change (if (w₂.ring i).canSubmit then takeSlotFast i else _) w₂.marked = _ at h
    rw [Prog.ite_apply] at h
    split at h
    · exact takeSlotFast_began (even_marked w₂) hr₂ h
    · obtain ⟨rfl, rfl⟩ := Outcome.ret.inj h
      exact even_marked w₂

theorem pollUnlocked_locked (hcb : ∀ q res, Keeps RangeKept (cb q res)) {st' : Bool}
    (hw : w.Locked i st) (h : pollUnlocked env cb i st w = .ret st' w') : w'.Locked i st' := by
  have hrange := @calling_rangeKept env
  obtain ⟨_, w₁, hunlock, h⟩ := bind_eq_ret.mp h
  obtain ⟨_, w₂, hpoll, h⟩ := bind_eq_ret.mp h
  obtain ⟨_, w₃, hmark, h⟩ := bind_eq_ret.mp h
  obtain ⟨-, rfl⟩ := Outcome.ret.inj hmark
  have hr₂ : w₂.FreeInRange := (hrange.ringPoll hcb i).ensures _ _ _ hpoll
    ((hrange.ringUnlock i st).ensures _ _ _ hunlock hw.range)
  exact ringLock_locked (even_marked w₂) hr₂ h

theorem submitBeginRetry_began (hcb : ∀ q res, Keeps RangeKept (cb q res)) {allowPoll : Bool}
    (hw : w.Locked i st) (h : submitBeginRetry env cb allowPoll i st w = .ret o w') :
    Began true o w' := by
  obtain ⟨st', w₁, hpoll, h⟩ := bind_eq_ret.mp h
  have hw₁ : w₁.Locked i st' := by
    cases allowPoll with
    | true => exact pollUnlocked_locked hcb hw hpoll
    | false =>
        obtain ⟨rfl, rfl⟩ := Outcome.ret.inj hpoll
        exact hw
  unfold readRing at h
  rw [Prog.bind_apply, Prog.read_apply, Outcome.bind_ret, Prog.ite_apply] at h
  split at h
  · exact takeSlotLocked_began hw₁ h
  · obtain ⟨rfl, rfl⟩ := Outcome.ret.inj h
    exact hw₁.unlock

theorem submitBeginLocked_began (hcb : ∀ q res, Keeps RangeKept (cb q res)) {allowPoll : Bool}
    (hw : w.Even) (hr : w.FreeInRange)
    (h : submitBeginLocked env cb allowPoll i w = .ret o w') : Began true o w' := by
  obtain ⟨st, w₁, hlock, h⟩ := bind_eq_ret.mp h
  have hw₁ := ringLock_locked hw hr hlock
  unfold readRing at h
  rw [Prog.bind_apply, Prog.read_apply, Outcome.bind_ret, Prog.ite_apply] at h
  split at h
  · exact takeSlotLocked_began hw₁ h
  · obtain ⟨status, w₂, hflush, h⟩ := bind_eq_ret.mp h
    have hw₂ : w₂.Locked i st := ((quietly_level.ringFlushLatching
      (ioUringSubmit_level .checked i)).ensures _ _ _ hflush).locked hw₁
    cases status with
    | fatal =>
        obtain ⟨rfl, rfl⟩ := Outcome.ret.inj h
        exact hw₂.unlock
    | ok => exact submitBeginRetry_began hcb hw₂ h
    | retry =>
        obtain ⟨_, w₃, herrno, h⟩ := bind_eq_ret.mp h
        exact submitBeginRetry_began hcb
          (((quietly_level.setErrno 0).ensures _ _ _ herrno).locked hw₂) h

end

/-- The submission takes its slot on the lockless path of `submit_begin`. -/
def Lockless (env : Env) (w : World) : Prop :=
  ∃ i w₁, pickRing env w = .ret i w₁ ∧ w₁.skipsLock i = true

/-- **What `submit_begin` took when it returns.** -/
theorem submitBegin_began (hcb : ∀ q res, Keeps RangeKept (cb q res)) {allowPoll : Bool}
    {o : Option SubmitCtx} (hw : w.Even) (hr : w.FreeInRange)
    (h : submitBegin env cb allowPoll w = .ret o w') :
    ∃ locked, Began locked o w' ∧ (o.isSome → (locked = false ↔ Lockless env w)) := by
  by_cases hfatal : w.engine.fatalSubmitErrno = 0
  · cases hdown : w.engine.shuttingDown with
    | true =>
        rw [submitBegin_of_shuttingDown env cb allowPoll hfatal hdown] at h
        obtain ⟨rfl, rfl⟩ := Outcome.ret.inj h
        exact ⟨true, hw, nofun⟩
    | false =>
        rw [submitBegin_of_open env cb allowPoll hfatal hdown] at h
        obtain ⟨i, w₁, hpick, h⟩ := Outcome.bind_eq_ret.mp h
        have hlevel := pickRing_level.ensures _ _ _ hpick
        have hless : Lockless env w ↔ w₁.skipsLock i = true := by
          simp [Lockless, hpick]
        split at h
        · next hskip =>
            exact ⟨false, submitBeginFast_began hcb (hlevel.even hw) (hlevel.range hr) h,
              fun _ => by simp [hless, hskip]⟩
        · next hskip =>
            exact ⟨true, submitBeginLocked_began hcb (hlevel.even hw) (hlevel.range hr) h,
              fun _ => by simp [hless, hskip]⟩
  · rw [submitBegin_of_fatal env cb allowPoll hfatal] at h
    obtain ⟨rfl, rfl⟩ := Outcome.ret.inj h
    exact ⟨true, hw, nofun⟩

/-! ## The failures after `submit_begin` -/

section

variable {ctx : SubmitCtx} {locked : Bool}

/-- A failure that keeps the slot. -/
theorem Taken.not_even (h : Taken ctx locked w) : ¬w.Even := by
  intro heven
  obtain ⟨rest, hfree⟩ := h.free
  have hlen := congrArg List.length (congrArg Stakes.free (h.since.own.symm.trans (heven ctx.ring)))
  have hacq : ∀ s : Stakes, (s.acquire ctx.lockSt).free = s.free := fun s => by
    cases ctx.lockSt <;> rfl
  cases locked <;> simp [Stakes.take, hacq, RingCtx.stakes, hfree] at hlen

/-- `submit_abort` gives the slot back. -/
theorem Taken.put (h : Taken ctx locked w) :
    (w.setRing ctx.ring (ringPutRequest (w.ring ctx.ring) ctx.opIdx)).Since ctx.ring fun s =>
      if locked then s.acquire ctx.lockSt else s := by
  obtain ⟨rest, hfree⟩ := h.free
  refine ⟨?_, fun j hj => ?_⟩
  · have hback : ∀ s : Stakes, s.free = ctx.opIdx :: rest →
        { s.take with free := ctx.opIdx :: s.take.free } = s := by
      rintro ⟨free, _, _, _, _, _⟩ hs
      simp [Stakes.take, show free = ctx.opIdx :: rest from hs]
    have hput : (ringPutRequest (w.ring ctx.ring) ctx.opIdx).stakes =
        { (w.ring ctx.ring).stakes with free := ctx.opIdx :: (w.ring ctx.ring).stakes.free } := by
      rw [ringPutRequest_of_idle h.lt h.inPool h.pending]
      rfl
    rw [World.setRing_self, hput, h.since.own]
    refine hback _ ?_
    cases locked with
    | false => exact hfree
    | true =>
        have hacq : ∀ s : Stakes, (s.acquire ctx.lockSt).free = s.free := fun s => by
          cases ctx.lockSt <;> rfl
        exact (hacq _).trans hfree
  · rw [World.setRing_ring, if_neg hj]
    exact h.since.others j hj

/-- A request that is rewritten takes nothing more. -/
theorem Taken.written (h : Taken ctx locked w) {q : Request} {err : ℤ}
    (hq : ((w.ring ctx.ring).requests ctx.opIdx).SameSlot q) :
    Taken ctx locked
      ((w.setRing ctx.ring ((w.ring ctx.ring).setRequest ctx.opIdx q)).withErrno err) := by
  obtain ⟨-, hpending, hpool⟩ := hq
  have hset : Level w (w.setRing ctx.ring ((w.ring ctx.ring).setRequest ctx.opIdx q)) :=
    .of_setRing rfl id
  have hlevel : Level w
      ((w.setRing ctx.ring ((w.ring ctx.ring).setRequest ctx.opIdx q)).withErrno err) :=
    hset.trans ⟨rfl, fun _ => rfl, id⟩
  have hring : ((w.setRing ctx.ring ((w.ring ctx.ring).setRequest ctx.opIdx q)).withErrno err).ring
      ctx.ring = (w.ring ctx.ring).setRequest ctx.opIdx q := w.setRing_self _ _
  refine ⟨hlevel.since h.since, h.free, h.was, h.fast, ?_, ?_, ?_⟩
  · rw [hring, RingCtx.setRequest_self, hpool, h.inPool]
  · rw [hring, RingCtx.setRequest_self, hpending, h.pending]
  · rw [hring]
    exact h.lt

/-- **`submit_abort` restores the mark exactly when the lock was taken.** On the lockless path it
releases a lock that nobody took. -/
theorem Taken.abort_even_iff (h : Taken ctx locked w) {u : Unit}
    (habort : submitAbort env ctx w = .ret u w') : w'.Even ↔ locked = true := by
  obtain ⟨w₁, hflush, rfl⟩ := submitAbort_eq_ret habort
  have hq := @quietly_level
  have habandon : Keeps Level (do
      let _ ← ringFlush env .abort ctx.ring
      clearLink) :=
    hq.andThen (hq.ringFlush (ioUringSubmit_level .abort ctx.ring)) (onTls_level _)
  have hlevel : Level _ w₁ := (hq.when habandon).ensures _ _ _ hflush
  have hsince := hlevel.since h.put
  have hmark : w₁.mark = w.mark := hlevel.mark
  cases locked with
  | true =>
      refine iff_of_true ?_ rfl
      intro j
      rw [World.setRing_ring]
      split
      · next hj =>
          have hrel := Stakes.release_acquire (s := (w₁.mark.1.rings ctx.ring).stakes)
            (fun hst => by rw [hmark]; exact h.was rfl hst)
          rw [hj, RingCtx.stakes_unlock, hsince.own]
          exact hrel
      · next hj => exact hsince.others j hj
  | false =>
      refine iff_of_false (fun heven => ?_) nofun
      have hown := heven ctx.ring
      rw [World.setRing_self, RingCtx.stakes_unlock, hsince.own, h.fast rfl] at hown
      have husers := congrArg Stakes.stUsers hown
      simp [Stakes.release] at husers

end

/-! ## Failed submissions -/

/-- The call took nothing: in every ring the stakes are those before the call, or as the last
completions reaped inside it left them, and the registration lock is as it was. -/
structure World.Atomic (w w' : World) : Prop where
  even : w'.Even
  lock : RegKept w w'

/-- The call gets a slot, and then either a fixed-file index that is looked at only now is not
valid, or the slot came from the lockless path. -/
def Leaks (env : Env) (cb : Callback) (call : SubmitCall) (args : SubmitArgs) (w : World) : Prop :=
  ∃ e w₁ ctx w₂, call.enter env args w.marked = .ret (some e) w₁ ∧
    submitBegin env cb e.allowPoll w₁ = .ret (some ctx) w₂ ∧
      ((∃ index ∈ e.lateIndex, w₂.engine.fixedFileValid index = false) ∨ Lockless env w₁)

/-- **A submission call that fails has taken nothing, unless it leaks.** -/
theorem failed_submission_atomic_iff (env : Env) (depth : ℕ) (call : SubmitCall)
    (args : SubmitArgs) {w w' : World} (hr : w.FreeInRange)
    (hfail : auraSubmit env (callback env depth) call args w = .ret none w') :
    w.Atomic w' ↔ ¬Leaks env (callback env depth) call args w := by
  have hcb := (@calling_rangeKept env).callback depth
  have hreg : RegKept w w' := apiStable_regKept.submission
    (fun q res => apiStable_regKept.callback depth q res) call args _ _ _ hfail
  have hatomic : w.Atomic w' ↔ w'.Even := ⟨fun h => h.even, fun h => ⟨h, hreg⟩⟩
  rw [hatomic]
  change submitCall env _ args call w.marked = _ at hfail
  rw [submitCall_eq] at hfail
  obtain ⟨e, w₁, henter, hrun⟩ := bind_eq_ret.mp hfail
  have hw₁ := call.enter_enters env args _ _ _ henter
  cases e with
  | none =>
      obtain ⟨-, rfl⟩ := Outcome.ret.inj hrun
      obtain ⟨err, rfl⟩ := hw₁
      refine iff_of_true (fun _ => rfl) ?_
      rintro ⟨e, w₁, ctx, w₂, henter', -⟩
      rw [henter] at henter'
      cases henter'
  | some e =>
      obtain ⟨hvalid, hw₁⟩ := hw₁
      obtain ⟨o, w₂, w₃, hbegin, rfl, hrest⟩ := Entry.run_eq_none hvalid hrun
      have hr₁ : w₁.FreeInRange := by
        rw [hw₁]
        exact hr
      have heven₁ : w₁.Even := by
        rw [hw₁]
        exact fun _ => rfl
      obtain ⟨locked, hbegan, hless⟩ := submitBegin_began hcb heven₁ hr₁ hbegin
      have hleaks : Leaks env (callback env depth) call args w ↔ ∃ ctx, o = some ctx ∧
          ((∃ index ∈ e.lateIndex, w₂.engine.fixedFileValid index = false) ∨ Lockless env w₁) := by
        constructor
        · rintro ⟨e', w₁', ctx, w₂', henter', hbegin', h⟩
          obtain ⟨he, rfl⟩ := Outcome.ret.inj (henter.symm.trans henter')
          obtain rfl := Option.some.inj he
          obtain ⟨rfl, rfl⟩ := Outcome.ret.inj (hbegin.symm.trans hbegin')
          exact ⟨ctx, rfl, h⟩
        · rintro ⟨ctx, rfl, h⟩
          exact ⟨e, w₁, ctx, w₂, henter, hbegin, h⟩
      rw [hleaks]
      change w₃.Even ↔ _
      cases o with
      | none =>
          cases hrest
          exact iff_of_true hbegan (by simp)
      | some ctx =>
          have hless := hless rfl
          cases hrest with
          | late index hlate hinvalid =>
              refine iff_of_false (fun heven => Taken.not_even hbegan heven) ?_
              simp [hlate, hinvalid]
          | aborted q err hq hindex habort =>
              rw [(Taken.written hbegan hq).abort_even_iff habort]
              have hlate : ¬∃ index ∈ e.lateIndex, w₂.engine.fixedFileValid index = false := by
                rintro ⟨index, hmem, hfalse⟩
                simp [hindex index hmem] at hfalse
              cases locked <;> simp_all

/-- A read that is too long, on a ring with a lock: it fails and nothing is taken. -/
theorem failed_submission_atomic_locked : ∃ w, auraSubmit calmEnv (callback calmEnv 0)
      (.read 3 (.unregistered (some 2000)) 4294967296 0) {}
      (.start (auraCreate { queueDepth := 4 } 4096 4)) = .ret none w ∧
    (World.start (auraCreate { queueDepth := 4 } 4096 4)).Atomic w := by
  refine ⟨_, rfl, (failed_submission_atomic_iff calmEnv 0
    (.read 3 (.unregistered (some 2000)) 4294967296 0) {}
    (freeInRange_create { queueDepth := 4 } 4096 4) rfl).mpr ?_⟩
  rintro ⟨e, w₁, ctx, w₂, henter, hbegin, hleak⟩
  obtain ⟨he, rfl⟩ := Outcome.ret.inj henter
  obtain rfl := Option.some.inj he
  rcases hleak with ⟨index, ⟨⟩, -⟩ | ⟨i, w₃, hpick, hskip⟩
  obtain ⟨rfl, rfl⟩ := Outcome.ret.inj hpick
  cases hskip

/-- The same read on a ring that its thread owns alone: `submit_abort` releases a lock that was
never taken, and `st_users` is negative from then on. -/
theorem failed_submission_unlocks : ∃ w, auraSubmit calmEnv (callback calmEnv 0)
      (.read 3 (.unregistered (some 2000)) 4294967296 0) {}
      (.start (auraCreate { queueDepth := 4, singleThread := true } 4096 4)) = .ret none w ∧
    (w.ring 0).stUsers = -1 ∧
    ¬(World.start (auraCreate { queueDepth := 4, singleThread := true } 4096 4)).Atomic w := by
  refine ⟨_, rfl, rfl, fun h => ?_⟩
  have husers : (-1 : ℤ) = 0 := congrArg Stakes.stUsers (h.even 0)
  cases husers

end Aura
