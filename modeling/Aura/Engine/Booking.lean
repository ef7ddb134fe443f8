import Aura.Engine.Atomic
import Aura.Engine.Books

/-!
# The books of the world

What the engine's functions do to the books of the rings, up to `submit_begin`.

* `World.SameBooks` — nothing in the books changed: flushes, locks, the choice of a ring.
* `World.Settles` — callbacks are counted, and as long as there was none only completions changed
  the books (`submitBegin_settles`).
* `Fresh` — the slot that `submit_begin` hands out uses no table yet.
-/

namespace Aura

open Lib Lib.Prog

variable {env : Env} {cb : Callback} {w w' w'' : World}

/-! ## Without completions -/

namespace World

/-- Nothing in the books of the rings changed, nor did the registered tables. -/
structure SameBooks (w w' : World) : Prop where
  registration : w'.engine.registration = w.engine.registration
  ringCount : w'.engine.ringCount = w.engine.ringCount
  callbacks : w'.callbacks = w.callbacks
  rings : ∀ i, (w.ring i).SameBooks (w'.ring i)

namespace SameBooks

theorem refl (w : World) : w.SameBooks w := ⟨rfl, rfl, rfl, fun _ => .refl _⟩

theorem trans (h : w.SameBooks w') (h' : w'.SameBooks w'') : w.SameBooks w'' :=
  ⟨h'.registration.trans h.registration, h'.ringCount.trans h.ringCount,
    h'.callbacks.trans h.callbacks, fun i => (h.rings i).trans (h'.rings i)⟩

theorem of_setRing {i : ℕ} {r : RingCtx} (h : (w.ring i).SameBooks r) :
    w.SameBooks (w.setRing i r) := by
  refine ⟨rfl, rfl, rfl, fun j => ?_⟩
  rw [World.setRing_ring]
  split
  · next hj =>
      subst hj
      exact h
  · exact .refl _

theorem setRing {i : ℕ} {r r' : RingCtx} (h : w.SameBooks w') (hr : r.SameBooks r') :
    (w.setRing i r).SameBooks (w'.setRing i r') := by
  refine ⟨h.registration, h.ringCount, h.callbacks, fun j => ?_⟩
  rw [World.setRing_ring, World.setRing_ring]
  split
  · exact hr
  · exact h.rings j

theorem of_tls (w : World) (t : Tls) : w.SameBooks { w with tls := t } :=
  ⟨rfl, rfl, rfl, fun _ => .refl _⟩

theorem of_move (h : QuietMove w w') : w.SameBooks w' := by
  cases h with
  | ring i h => exact .of_setRing (.of_quiet h)
  | engine h =>
      refine ⟨h.registration, h.ringCount, rfl, fun i => ?_⟩
      rw [World.ring, World.ring, h.rings]
      exact .refl _
  | tls h => exact .of_tls w _
  | tick => exact ⟨rfl, rfl, rfl, fun _ => .refl _⟩

theorem booked (h : w.SameBooks w') (hw : ∀ i, (w.ring i).Booked) : ∀ i, (w'.ring i).Booked :=
  fun i => (h.rings i).booked (hw i)

end SameBooks

end World

open World (SameBooks)

theorem quietly_sameBooks : Quietly fun (α : Type) (p : AuraM α) => Keeps SameBooks p :=
  .of_keeps SameBooks.refl SameBooks.trans SameBooks.of_move

section

theorem onTls_sameBooks (f : Tls → Tls) : Keeps SameBooks (onTls f) := fun w => .of_tls w _

theorem onRing_sameBooks {i : ℕ} {f : RingCtx → RingCtx} (hf : ∀ r : RingCtx, r.SameBooks (f r)) :
    Keeps SameBooks (onRing i f) := fun _ => .of_setRing (hf _)

theorem setMark_sameBooks : Keeps SameBooks setMark := fun _ => ⟨rfl, rfl, rfl, fun _ => .refl _⟩

theorem ringLock_sameBooks (i : ℕ) : Keeps SameBooks (ringLock i) := by
  intro w
  unfold ringLock
  rw [await_apply]
  cases hlock : (w.ring i).lock with
  | none => exact .refl w
  | some p => exact .of_setRing (.lock hlock)

theorem ringCqLock_sameBooks (i : ℕ) : Keeps SameBooks (ringCqLock i) := by
  intro w
  unfold ringCqLock
  rw [await_apply]
  cases hlock : (w.ring i).cqLock with
  | none => exact .refl w
  | some p => exact .of_setRing (.cqLock hlock)

theorem ringUnlock_sameBooks (i : ℕ) (st : Bool) : Keeps SameBooks (ringUnlock i st) :=
  onRing_sameBooks fun r => .unlock r st

theorem ringCqUnlock_sameBooks (i : ℕ) (st : Bool) : Keeps SameBooks (ringCqUnlock i st) :=
  onRing_sameBooks fun r => .cqUnlock r st

theorem ioUringSubmit_sameBooks (site : FlushSite) (i : ℕ) :
    Keeps SameBooks (ioUringSubmit env site i) := by
  refine quietly_sameBooks.ioUringSubmit (fun e w => ⟨rfl, rfl, ?_, fun _ => .refl _⟩)
    (fun _ k => onRing_sameBooks fun r => .accept r k) i
  simp [logEvent, World.callbacks, LogEvent.isCallback]

theorem ringFlushLatching_sameBooks (i : ℕ) : Keeps SameBooks (ringFlushLatching env i) :=
  quietly_sameBooks.ringFlushLatching (ioUringSubmit_sameBooks .checked i)

theorem ringFlushFast_sameBooks (i : ℕ) : Keeps SameBooks (ringFlushFast env i) :=
  quietly_sameBooks.flushQueued (ioUringSubmit_sameBooks .fast i)

theorem pickRing_sameBooks : Keeps SameBooks (pickRing env) := by
  have h := quietly_sameBooks
  refine h.bind (h.read _) fun pinned => ?_
  cases pinned with
  | some i => exact h.pure _
  | none => exact h.bind (h.read _) fun _ => h.andThen (h.when (onTls_sameBooks _)) h.selectRing

theorem reapCqe_sameBooks (i : ℕ) : Keeps SameBooks (reapCqe env i) :=
  quietly_sameBooks.bind (quietly_sameBooks.peekCqe i) fun _ =>
    quietly_sameBooks.andThen (onRing_sameBooks .reap) (quietly_sameBooks.pure _)

theorem reapBatch_sameBooks (i n : ℕ) : Keeps SameBooks (reapBatch env i n) := by
  have h := quietly_sameBooks
  induction n with
  | zero => exact h.pure _
  | succ n ih =>
      refine h.bind (reapCqe_sameBooks i) fun c => ?_
      cases c with
      | none => exact h.pure _
      | some c => exact h.bind ih fun _ => h.pure _

end

/-! ## With completions -/

namespace World

/-- Only completions changed the books of the rings; the registered tables are the same. -/
structure Settled (w w' : World) : Prop where
  registration : w'.engine.registration = w.engine.registration
  ringCount : w'.engine.ringCount = w.engine.ringCount
  rings : ∀ i, (w.ring i).Settles (w'.ring i)

/-- Callbacks are counted, and as long as there was none only completions changed the books. -/
structure Settles (w w' : World) : Prop where
  callbacks : w.callbacks ≤ w'.callbacks
  settled : w'.callbacks = w.callbacks → w.Settled w'

theorem Settled.refl (w : World) : w.Settled w := ⟨rfl, rfl, fun _ => .refl _⟩

theorem Settled.trans (h : w.Settled w') (h' : w'.Settled w'') : w.Settled w'' :=
  ⟨h'.registration.trans h.registration, h'.ringCount.trans h.ringCount,
    fun i => (h.rings i).trans (h'.rings i)⟩

theorem Settled.of_same (h : w.SameBooks w') : w.Settled w' :=
  ⟨h.registration, h.ringCount, fun i => .of_same (h.rings i)⟩

theorem Settled.of_setRing {i : ℕ} {r : RingCtx} (h : (w.ring i).Settles r) :
    w.Settled (w.setRing i r) := by
  refine ⟨rfl, rfl, fun j => ?_⟩
  rw [World.setRing_ring]
  split
  · next hj =>
      subst hj
      exact h
  · exact .refl _

namespace Settles

theorem refl (w : World) : w.Settles w := ⟨le_rfl, fun _ => .refl w⟩

theorem trans (h : w.Settles w') (h' : w'.Settles w'') : w.Settles w'' := by
  refine ⟨h.callbacks.trans h'.callbacks, fun heq => ?_⟩
  have hle := h.callbacks
  have hle' := h'.callbacks
  exact (h.settled (by omega)).trans (h'.settled (by omega))

theorem of_same (h : w.SameBooks w') : w.Settles w' := ⟨h.callbacks.ge, fun _ => .of_same h⟩

theorem of_setRing {i : ℕ} {r : RingCtx} (h : (w.ring i).Settles r) : w.Settles (w.setRing i r) :=
  ⟨le_rfl, fun _ => .of_setRing h⟩

end Settles

end World

open World (Settles)

theorem composes_settles : Composes fun (α : Type) (p : AuraM α) => Keeps Settles p :=
  Keeps.composes Settles.refl Settles.trans

theorem settles_of_same {α : Type} {p : AuraM α} (h : Keeps SameBooks p) : Keeps Settles p :=
  fun w => .of_same (h w)

theorem onRing_settles {i : ℕ} {f : RingCtx → RingCtx} (hf : ∀ r : RingCtx, r.Settles (f r)) :
    Keeps Settles (onRing i f) := fun _ => .of_setRing (hf _)

theorem getRequest_settles (i : ℕ) : Keeps Settles (getRequest i) := by
  intro w
  unfold getRequest
  rw [update_apply, Outcome.state_ret]
  split
  · exact .refl w
  · next op r hget => exact .of_setRing (.get hget)

section

variable (hcb : ∀ q res, Keeps LogPrefix (cb q res))

include hcb

/-- A callback that is invoked is counted. -/
theorem invokeCallback_settles (q : Request) (res : ℤ) :
    Keeps Settles (invokeCallback cb q res) := by
  intro w
  cases hq : q.callback.isSome with
  | false => simpa [invokeCallback, hq] using Settles.refl w
  | true =>
      have hK := Keeps.composes steady_logPrefix.refl steady_logPrefix.trans
      let rest : AuraM Unit := do
        onTls fun t => { t with callbackContextDepth := w.tls.callbackContextDepth + 1 }
        cb q res
        onTls fun t => { t with callbackContextDepth := w.tls.callbackContextDepth }
      have hrest : Keeps LogPrefix rest :=
        hK.andThen (fun _ => List.prefix_rfl) (hK.andThen (hcb q res) fun _ => List.prefix_rfl)
      let logged : World := { w with log := w.log ++ [.callback w.tls.callbackContextDepth q res] }
      have hrun : (invokeCallback cb q res w).state = (rest logged).state := by
        simp [invokeCallback, hq, logEvent, rest, logged]
      have hcount : w.callbacks < (invokeCallback cb q res w).state.callbacks := by
        have hle : logged.log.countP (·.isCallback) ≤ _ := (hrest logged).sublist.countP_le
        rw [← hrun, List.countP_append, List.countP_singleton] at hle
        exact hle
      exact ⟨hcount.le, fun heq => absurd heq hcount.ne'⟩

theorem processCqe_settles (i : ℕ) (c : Cqe) : Keeps Settles (processCqe env cb i c) := by
  have h := composes_settles
  refine h.andThen (fun w => ⟨?_, fun _ => ⟨rfl, rfl, fun _ => .refl _⟩⟩) (h.bind ?_ fun p => ?_)
  · simp [logEvent, World.callbacks]
  · exact fun w => .of_setRing (.process _ _ _ _)
  · obtain ⟨e, q⟩ := p
    cases q with
    | none => exact h.pure _
    | some q => exact h.andThen (invokeCallback_settles hcb q c.res) (h.pure _)

theorem processBatch_settles (i : ℕ) (cs : List Cqe) :
    Keeps Settles (processBatch env cb i cs) := by
  have h := composes_settles
  induction cs with
  | nil => exact h.pure _
  | cons c cs ih =>
      exact h.bind (processCqe_settles hcb i c) fun _ => h.bind ih fun _ => h.pure _

theorem drainLoop_settles (i fuel n : ℕ) : Keeps Settles (drainLoop env cb i fuel n) := by
  have h := composes_settles
  induction fuel generalizing n with
  | zero => exact h.block
  | succ fuel ih =>
      refine h.bind (h.read _) fun size => h.bind (settles_of_same (ringCqLock_sameBooks i)) ?_
      refine fun cqSt => h.bind (settles_of_same (reapBatch_sameBooks i size)) fun batch => ?_
      refine h.andThen (settles_of_same (ringCqUnlock_sameBooks i cqSt)) (h.ite (h.pure _) ?_)
      refine h.bind (processBatch_settles hcb i batch) fun entries => ?_
      refine h.bind (settles_of_same (ringLock_sameBooks i)) fun st => ?_
      refine h.andThen (onRing_settles fun r => .retireBatch r entries) ?_
      exact h.andThen (settles_of_same (ringUnlock_sameBooks i st)) (ih _)

theorem drainFastLoop_settles (i fuel n : ℕ) : Keeps Settles (drainFastLoop env cb i fuel n) := by
  have h := composes_settles
  induction fuel generalizing n with
  | zero => exact h.block
  | succ fuel ih =>
      refine h.bind (settles_of_same (reapCqe_sameBooks i)) fun c => ?_
      cases c with
      | none => exact h.pure _
      | some c =>
          refine h.bind (processCqe_settles hcb i c) fun e => ?_
          exact h.andThen (onRing_settles fun r => .retireInline r e) (ih _)

theorem ringDrainCqesFast_settles (i : ℕ) : Keeps Settles (ringDrainCqesFast env cb i) := by
  have h := composes_settles
  exact h.bind (h.read _) fun _ => h.ite (h.pure _) (drainFastLoop_settles hcb i _ _)

theorem ringPoll_settles (i : ℕ) : Keeps Settles (ringPoll env cb i) := by
  have h := composes_settles
  exact h.bind (h.read _) fun _ => h.ite (h.pure _)
    (h.ite (ringDrainCqesFast_settles hcb i) (drainLoop_settles hcb i _ _))

/-! ## `submit_begin` -/

theorem submitBeginFast_settles (i : ℕ) : Keeps Settles (submitBeginFast env cb i) := by
  have h := composes_settles
  have hsame := quietly_sameBooks
  have htake : Keeps Settles (takeSlotFast i) := by
    refine h.bind (getRequest_settles i) fun op => ?_
    cases op with
    | none => exact settles_of_same (hsame.andThen (hsame.setErrno _) (hsame.pure _))
    | some op => exact h.pure _
  have hfail : Keeps Settles (do setErrno EAGAIN; pure (none : Option SubmitCtx)) :=
    settles_of_same (hsame.andThen (hsame.setErrno _) (hsame.pure _))
  refine h.bind (h.read _) fun can => h.ite htake ?_
  refine h.andThen (settles_of_same (ringFlushFast_sameBooks i)) ?_
  refine h.andThen (ringDrainCqesFast_settles hcb i) ?_
  exact h.andThen (settles_of_same setMark_sameBooks) (h.bind (h.read _) fun _ => h.ite htake hfail)

theorem submitBeginLocked_settles (allowPoll : Bool) (i : ℕ) :
    Keeps Settles (submitBeginLocked env cb allowPoll i) := by
  have h := composes_settles
  have hsame := quietly_sameBooks
  have hleave : ∀ st e, Keeps SameBooks (do
      ringUnlock i st
      setErrno e
      pure (none : Option SubmitCtx)) := fun st e =>
    hsame.andThen (ringUnlock_sameBooks i st) (hsame.andThen (hsame.setErrno _) (hsame.pure _))
  have htake : ∀ st, Keeps Settles (takeSlotLocked i st) := by
    intro st
    refine h.bind (getRequest_settles i) fun op => ?_
    cases op with
    | none => exact settles_of_same (hleave st _)
    | some op => exact h.pure _
  have hpoll : ∀ st, Keeps Settles (pollUnlocked env cb i st) := fun st =>
    h.andThen (settles_of_same (ringUnlock_sameBooks i st)) (h.andThen (ringPoll_settles hcb i)
      (h.andThen (settles_of_same setMark_sameBooks) (settles_of_same (ringLock_sameBooks i))))
  have hretry : ∀ st, Keeps Settles (submitBeginRetry env cb allowPoll i st) := fun st =>
    h.bind (h.ite (hpoll st) (h.pure _)) fun st => h.bind (h.read _) fun can =>
      h.ite (htake st) (settles_of_same (hleave st _))
  refine h.bind (settles_of_same (ringLock_sameBooks i)) fun st => h.bind (h.read _) fun can => ?_
  refine h.ite (htake st) ?_
  refine h.bind (settles_of_same (ringFlushLatching_sameBooks i)) fun status => ?_
  cases status with
  | fatal => exact settles_of_same (hsame.andThen (ringUnlock_sameBooks i st) (hsame.pure _))
  | retry => exact h.andThen (settles_of_same (hsame.setErrno 0)) (hretry st)
  | ok => exact hretry st

/-- **`submit_begin` only settles the books** as long as no callback runs. -/
theorem submitBegin_settles (allowPoll : Bool) : Keeps Settles (submitBegin env cb allowPoll) := by
  have h := composes_settles
  have hsame := quietly_sameBooks
  refine h.bind (settles_of_same hsame.checkFatalSubmitErrno) fun fatal => ?_
  refine h.bind (h.read _) fun down => h.ite (h.pure _) (h.ite ?_ ?_)
  · exact settles_of_same (hsame.andThen (hsame.setErrno _) (hsame.pure _))
  · refine h.bind (settles_of_same pickRing_sameBooks) fun i => h.bind (h.read _) fun fast => ?_
    exact h.ite (submitBeginFast_settles hcb i) (submitBeginLocked_settles hcb allowPoll i)

end

/-! ## The slot that `submit_begin` hands out -/

/-- The request of the slot uses no table yet. -/
def Fresh (w : World) (ctx : SubmitCtx) : Prop :=
  ∀ type, ((w.ring ctx.ring).requests ctx.opIdx).uses type = false

section

variable {i : ℕ} {st : Bool} {ctx : SubmitCtx}

theorem fresh_of_get {op : ℕ} {r : RingCtx} (hget : ringGetRequest (w.ring i) = some (op, r))
    (st : Bool) : Fresh (w.setRing i r) ⟨i, op, st⟩ := by
  obtain ⟨rest, -, rfl⟩ := ringGetRequest_eq_some.mp hget
  intro type
  rw [World.setRing_self, RingCtx.setRequest_self]
  cases type <;> rfl

theorem takeSlotFast_fresh (h : takeSlotFast i w = .ret (some ctx) w') : Fresh w' ctx := by
  obtain ⟨op, w₁, hslot, hrest⟩ := bind_eq_ret.mp h
  rcases getRequest_eq_ret hslot with ⟨rfl, -⟩ | ⟨op, r, rfl, hget, rfl⟩
  · obtain ⟨hfalse, -⟩ := Outcome.ret.inj hrest
    cases hfalse
  · obtain ⟨hctx, rfl⟩ := Outcome.ret.inj hrest
    cases hctx
    exact fresh_of_get hget true

theorem takeSlotLocked_fresh (h : takeSlotLocked i st w = .ret (some ctx) w') : Fresh w' ctx := by
  obtain ⟨op, w₁, hslot, hrest⟩ := bind_eq_ret.mp h
  rcases getRequest_eq_ret hslot with ⟨rfl, -⟩ | ⟨op, r, rfl, hget, rfl⟩
  · obtain ⟨hfalse, -⟩ := Outcome.ret.inj hrest
    cases hfalse
  · obtain ⟨hctx, rfl⟩ := Outcome.ret.inj hrest
    cases hctx
    exact fresh_of_get hget st

theorem submitBeginFast_fresh (h : submitBeginFast env cb i w = .ret (some ctx) w') :
    Fresh w' ctx := by
  unfold submitBeginFast readRing at h
  rw [Prog.bind_apply, Prog.read_apply, Outcome.bind_ret, Prog.ite_apply] at h
  split at h
  · exact takeSlotFast_fresh h
  · obtain ⟨_, w₁, -, h⟩ := bind_eq_ret.mp h
    obtain ⟨_, w₂, -, h⟩ := bind_eq_ret.mp h
    change (if (w₂.ring i).canSubmit then takeSlotFast i else _) w₂.marked = _ at h
    rw [Prog.ite_apply] at h
    split at h
    · exact takeSlotFast_fresh h
    · obtain ⟨hfalse, -⟩ := Outcome.ret.inj h
      cases hfalse

theorem submitBeginRetry_fresh {allowPoll : Bool}
    (h : submitBeginRetry env cb allowPoll i st w = .ret (some ctx) w') : Fresh w' ctx := by
  obtain ⟨st', w₁, -, h⟩ := bind_eq_ret.mp h
  unfold readRing at h
  rw [Prog.bind_apply, Prog.read_apply, Outcome.bind_ret, Prog.ite_apply] at h
  split at h
  · exact takeSlotLocked_fresh h
  · obtain ⟨hfalse, -⟩ := Outcome.ret.inj h
    cases hfalse

theorem submitBeginLocked_fresh {allowPoll : Bool}
    (h : submitBeginLocked env cb allowPoll i w = .ret (some ctx) w') : Fresh w' ctx := by
  obtain ⟨st, w₁, -, h⟩ := bind_eq_ret.mp h
  unfold readRing at h
  rw [Prog.bind_apply, Prog.read_apply, Outcome.bind_ret, Prog.ite_apply] at h
  split at h
  · exact takeSlotLocked_fresh h
  · obtain ⟨status, w₂, -, h⟩ := bind_eq_ret.mp h
    cases status with
    | fatal =>
        obtain ⟨hfalse, -⟩ := Outcome.ret.inj h
        cases hfalse
    | ok => exact submitBeginRetry_fresh h
    | retry =>
        obtain ⟨_, w₃, -, h⟩ := bind_eq_ret.mp h
        exact submitBeginRetry_fresh h

theorem submitBegin_fresh {allowPoll : Bool}
    (h : submitBegin env cb allowPoll w = .ret (some ctx) w') : Fresh w' ctx := by
  by_cases hfatal : w.engine.fatalSubmitErrno = 0
  · cases hdown : w.engine.shuttingDown with
    | true =>
        rw [submitBegin_of_shuttingDown env cb allowPoll hfatal hdown] at h
        obtain ⟨hfalse, -⟩ := Outcome.ret.inj h
        cases hfalse
    | false =>
        rw [submitBegin_of_open env cb allowPoll hfatal hdown] at h
        obtain ⟨i, w₁, -, h⟩ := Outcome.bind_eq_ret.mp h
        split at h
        · exact submitBeginFast_fresh h
        · exact submitBeginLocked_fresh h
  · rw [submitBegin_of_fatal env cb allowPoll hfatal] at h
    obtain ⟨hfalse, -⟩ := Outcome.ret.inj h
    cases hfalse

end

end Aura
