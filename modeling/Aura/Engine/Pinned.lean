import Aura.Engine.Failed
import Aura.Engine.Log

/-!
# What `submit_begin` leaves alone

As long as no callback runs, `submit_begin` prepares no entry and leaves the thread's chain alone:

* `Undisturbed` — the pin of the chain, the entries of every ring and what the log says about
  prepared entries are the same; the kernel may have accepted more of the entries.
* `BeginKept` — callbacks are counted, and as long as there was none nothing was disturbed.
* **`submitBegin_kept`** — `submit_begin` keeps that, in a chain (`submitBegin_kept_chain`) as well
  as outside.
-/

namespace Aura

open Lib Lib.Prog

variable {env : Env} {cb : Callback} {w w' w'' : World}

/-! ## The entries of a ring -/

/-- All entries ever prepared on the ring, those the kernel has accepted first. -/
def RingCtx.entries (r : RingCtx) : List Sqe := r.handed ++ r.sq

/-- The entries of the ring are the same, and the kernel has accepted at least as many. -/
structure RingCtx.Ahead (r r' : RingCtx) : Prop where
  entries : r'.entries = r.entries
  sqEntries : r'.sqEntries = r.sqEntries
  handed : r.handed.length ≤ r'.handed.length

namespace RingCtx.Ahead

variable {r r' r'' : RingCtx}

theorem refl (r : RingCtx) : r.Ahead r := ⟨rfl, rfl, le_rfl⟩

theorem trans (h : r.Ahead r') (h' : r'.Ahead r'') : r.Ahead r'' :=
  ⟨h'.entries.trans h.entries, h'.sqEntries.trans h.sqEntries, h.handed.trans h'.handed⟩

theorem of_move (h : RingMove r r') : r.Ahead r' := by
  obtain ⟨hf, -⟩ := h.frame_load
  refine ⟨?_, hf.sqEntries, by rw [hf.handed]⟩
  rw [RingCtx.entries, RingCtx.entries, hf.sq, hf.handed]

theorem accept (r : RingCtx) (k : ℕ) : r.Ahead (r.kernelAccept k) := by
  refine ⟨?_, rfl, ?_⟩
  · simp [RingCtx.entries, RingCtx.kernelAccept, List.append_assoc]
  · simp [RingCtx.kernelAccept]

end RingCtx.Ahead

/-! ## The log -/

/-- The event is a callback. -/
def LogEvent.isCallback : LogEvent → Bool
  | .callback _ _ _ => true
  | _ => false

/-- The callbacks invoked so far. -/
def World.callbacks (w : World) : ℕ := w.log.countP (·.isCallback)

/-- The ring, the position and the accepted entries of an event that prepared an entry. -/
def LogEvent.preparation? : LogEvent → Option (ℕ × ℕ × ℕ)
  | .prepared _ ring position accepted => some (ring, position, accepted)
  | _ => none

/-- The entries prepared so far, with the numbers they were logged with. -/
def World.preparations (w : World) : List (ℕ × ℕ × ℕ) := w.log.filterMap (·.preparation?)

/-! ## What is left alone -/

/-- The pin, the entries and what was logged about them are the same. -/
structure Undisturbed (w w' : World) : Prop where
  linkRing : w'.tls.linkRing = w.tls.linkRing
  ringCount : w'.engine.ringCount = w.engine.ringCount
  preparations : w'.preparations = w.preparations
  rings : ∀ i, (w.ring i).Ahead (w'.ring i)

/-- Callbacks are counted, and as long as there was none nothing was disturbed. -/
structure BeginKept (w w' : World) : Prop where
  callbacks : w.callbacks ≤ w'.callbacks
  kept : w'.callbacks = w.callbacks → Undisturbed w w'

namespace Undisturbed

theorem refl (w : World) : Undisturbed w w := ⟨rfl, rfl, rfl, fun _ => .refl _⟩

theorem trans (h : Undisturbed w w') (h' : Undisturbed w' w'') : Undisturbed w w'' :=
  ⟨h'.linkRing.trans h.linkRing, h'.ringCount.trans h.ringCount,
    h'.preparations.trans h.preparations, fun i => (h.rings i).trans (h'.rings i)⟩

theorem of_setRing {i : ℕ} {r : RingCtx} (h : (w.ring i).Ahead r) :
    Undisturbed w (w.setRing i r) := by
  refine ⟨rfl, rfl, rfl, fun j => ?_⟩
  rw [World.setRing_ring]
  split
  · next hj =>
      subst hj
      exact h
  · exact .refl _

end Undisturbed

namespace BeginKept

theorem refl (w : World) : BeginKept w w := ⟨le_rfl, fun _ => .refl w⟩

theorem trans (h : BeginKept w w') (h' : BeginKept w' w'') : BeginKept w w'' := by
  refine ⟨h.callbacks.trans h'.callbacks, fun heq => ?_⟩
  have hle := h.callbacks
  have hle' := h'.callbacks
  exact (h.kept (by omega)).trans (h'.kept (by omega))

theorem of_log_eq (hlog : w'.log = w.log) (h : Undisturbed w w') : BeginKept w w' :=
  ⟨by rw [World.callbacks, World.callbacks, hlog], fun _ => h⟩

theorem of_setRing {i : ℕ} {r : RingCtx} (h : (w.ring i).Ahead r) : BeginKept w (w.setRing i r) :=
  .of_log_eq rfl (.of_setRing h)

/-- An event that prepares nothing. -/
theorem of_event {e : LogEvent} (he : e.preparation? = none) :
    BeginKept w { w with log := w.log ++ [e] } := by
  refine ⟨by simp [World.callbacks], fun _ => ⟨rfl, rfl, ?_, fun _ => .refl _⟩⟩
  simp [World.preparations, he]

end BeginKept

theorem QuietMove.kept (h : QuietMove w w') : BeginKept w w' := by
  refine .of_log_eq h.log_eq ?_
  cases h with
  | ring i h => exact .of_setRing (.of_move (.quiet h))
  | engine h =>
      refine ⟨rfl, h.ringCount, rfl, fun i => ?_⟩
      rw [World.ring, World.ring, h.rings]
      exact .refl _
  | tls h => exact ⟨h.linkRing, rfl, rfl, fun _ => .refl _⟩
  | tick => exact ⟨rfl, rfl, rfl, fun _ => .refl _⟩

theorem quietly_kept : Quietly fun (α : Type) (p : AuraM α) => Keeps BeginKept p :=
  .of_keeps BeginKept.refl BeginKept.trans QuietMove.kept

/-! ## Along `submit_begin` -/

section

theorem ioUringSubmit_kept (site : FlushSite) (i : ℕ) :
    Keeps BeginKept (ioUringSubmit env site i) :=
  quietly_kept.ioUringSubmit (fun _ _ => .of_event rfl)
    (fun _ _ _ => .of_setRing (.accept _ _)) i

theorem ringFlushLatching_kept (i : ℕ) : Keeps BeginKept (ringFlushLatching env i) :=
  quietly_kept.ringFlushLatching (ioUringSubmit_kept .checked i)

theorem ringFlushFast_kept (i : ℕ) : Keeps BeginKept (ringFlushFast env i) :=
  quietly_kept.flushQueued (ioUringSubmit_kept .fast i)

variable (hcb : ∀ q res, Keeps LogPrefix (cb q res))

include hcb

/-- A callback that is invoked is counted, whatever it does. -/
theorem invokeCallback_kept (q : Request) (res : ℤ) :
    Keeps BeginKept (invokeCallback cb q res) := by
  intro w
  cases hq : q.callback.isSome with
  | false =>
      simpa [invokeCallback, hq] using BeginKept.refl w
  | true =>
      have hK := Keeps.composes steady_logPrefix.refl steady_logPrefix.trans
      let rest : AuraM Unit := do
        onTls fun t => { t with callbackContextDepth := w.tls.callbackContextDepth + 1 }
        cb q res
        onTls fun t => { t with callbackContextDepth := w.tls.callbackContextDepth }
      have hrest : Keeps LogPrefix rest :=
        hK.andThen (fun _ => List.prefix_rfl) (hK.andThen (hcb q res) fun _ => List.prefix_rfl)
      let logged : World := { w with log := w.log ++ [.callback w.tls.callbackContextDepth q res] }
      have hrun : (invokeCallback cb q res w).state = (rest logged).state := by
        simp [invokeCallback, hq, logEvent, rest, logged]
      have hcount : w.callbacks < (invokeCallback cb q res w).state.callbacks := by
        have hle : logged.log.countP (·.isCallback) ≤ _ := (hrest logged).sublist.countP_le
        rw [← hrun, List.countP_append, List.countP_singleton] at hle
        exact hle
      exact ⟨hcount.le, fun heq => absurd heq hcount.ne'⟩

theorem reaping_kept : Reaping env cb fun (α : Type) (p : AuraM α) => Keeps BeginKept p where
  toRingMoving := .of_keeps BeginKept.refl BeginKept.trans QuietMove.kept
    (fun ⟨_, _, hmove, heq⟩ => heq ▸ .of_setRing (.of_move hmove))
    fun _ _ => .of_log_eq rfl ⟨rfl, rfl, rfl, fun _ => .refl _⟩
  completion _ _ _ := .of_event rfl
  invoke := invokeCallback_kept hcb

theorem submitBeginFast_kept (i : ℕ) : Keeps BeginKept (submitBeginFast env cb i) :=
  (reaping_kept hcb).submitBeginFast (ringFlushFast_kept i)

theorem submitBeginLocked_kept (allowPoll : Bool) (i : ℕ) :
    Keeps BeginKept (submitBeginLocked env cb allowPoll i) :=
  (reaping_kept hcb).submitBeginLocked (ringFlushLatching_kept i) allowPoll

end

/-! ## The two kinds of submissions -/

/-- The thread is inside a chain on ring `i` of the engine. -/
def World.InChain (w : World) (i : ℕ) : Prop := w.engine.ringOf w.tls w.tls.linkRing = some i

theorem World.InChain.linkRing_ne {i : ℕ} (h : w.InChain i) : w.tls.linkRing ≠ none := by
  intro hnone
  unfold World.InChain Engine.ringOf at h
  simp [hnone] at h

theorem World.InChain.pickRing {i : ℕ} (h : w.InChain i) : pickRing env w = .ret i w := by
  unfold Aura.pickRing
  rw [Prog.bind_apply, Prog.read_apply, Outcome.bind_ret, h]
  rfl

theorem World.InChain.skipsLock {i : ℕ} (h : w.InChain i) : w.skipsLock i = false := by
  unfold World.skipsLock
  cases hlink : w.tls.linkRing with
  | none => exact absurd hlink h.linkRing_ne
  | some a => simp

/-- Without a pin the ring of a submission is the configured choice. -/
theorem pickRing_of_unpinned (env : Env) (h : w.tls.linkRing = none) :
    pickRing env w = selectRing env w := by
  simp [pickRing, Engine.ringOf, h]

/-- **Outside a chain and inside one, `submit_begin` disturbs nothing** unless a callback runs. -/
theorem submitBegin_kept (hcb : ∀ q res, Keeps LogPrefix (cb q res))
    (hchain : w.tls.linkRing = none ∨ ∃ i, w.InChain i) (allowPoll : Bool) :
    BeginKept w (submitBegin env cb allowPoll w).state := by
  by_cases hfatal : w.engine.fatalSubmitErrno = 0
  · cases hdown : w.engine.shuttingDown with
    | true =>
        rw [submitBegin_of_shuttingDown env cb allowPoll hfatal hdown]
        exact quietly_kept.setErrno _ w
    | false =>
        rw [submitBegin_of_open env cb allowPoll hfatal hdown]
        rcases hchain with hnone | ⟨i, hchain⟩
        · rw [pickRing_of_unpinned env hnone]
          refine Keeps.bind_of (R := BeginKept) BeginKept.trans (quietly_kept.selectRing w) ?_
          intro i w₁
          cases hskip : w₁.skipsLock i with
          | true => simpa [hskip] using submitBeginFast_kept hcb i w₁
          | false => simpa [hskip] using submitBeginLocked_kept hcb allowPoll i w₁
        · rw [hchain.pickRing, Outcome.bind_ret, hchain.skipsLock]
          exact submitBeginLocked_kept hcb allowPoll i w
  · rw [submitBegin_of_fatal env cb allowPoll hfatal]
    exact quietly_kept.setErrno _ w

end Aura
