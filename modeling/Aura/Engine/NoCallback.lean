import Aura.Engine.Log

/-!
# Callbacks inside `submit_begin`

`submit_begin` takes `allow_poll` so that a caller which holds the registration lock, or has just
validated a registered buffer or file, can forbid the callbacks that its inline poll would run.

* `submitBeginLocked_silent` — the locked path honours the flag.
* `submitBeginFast_silent_iff` — the lockless path does not look at it: at the in-flight limit it
  reaps whatever completions are ready.
* **`submitBegin_silent_iff`** — so a call without `allow_poll` processes no completion and runs no
  callback exactly when it does not get to that point (`Reaps`).
* `submitBegin_runs_callback` — a run on which such a callback releases the table of registered
  buffers between the validation of a read and its submission.
-/

namespace Aura

open Lib Lib.Prog

section

variable {env : Env} {cb : Callback} {w w₁ : World} {i : ℕ}

/-! ## The locked path -/

/-- Without `allow_poll` the locked path is silent. -/
theorem submitBeginLocked_silent (i : ℕ) :
    Keeps Silent (submitBeginLocked env cb false i) := by
  have h := moving_silent
  have hretry : ∀ st, Keeps Silent (submitBeginRetry env cb false i st) := by
    intro st
    refine h.bind (h.pure st) fun st => h.bind (h.readRing i _) fun can => ?_
    exact h.ite (h.takeSlotLocked i st)
      (h.andThen (h.ringUnlock i st) (h.andThen (h.setErrno _) (h.pure _)))
  refine h.bind (h.ringLock i) fun st => h.bind (h.readRing i _) fun can => ?_
  refine h.ite (h.takeSlotLocked i st) ?_
  refine h.bind (h.ringFlushLatching (silent_ioUringSubmit .checked i)) fun status => ?_
  cases status with
  | fatal => exact h.andThen (h.ringUnlock i st) (h.pure _)
  | retry => exact h.andThen (h.setErrno _) (hretry st)
  | ok => exact hretry st

/-! ## The lockless path -/

/-- The lockless path finds ring `i` at its in-flight limit, and after its flush a completion is
ready the next time the queue is looked at. -/
def ReapsFast (env : Env) (i : ℕ) (w : World) : Prop :=
  (w.ring i).canSubmit = false ∧ ∃ n w₂, ringFlushFast env i w = .ret n w₂ ∧
    (w₂.ring i).ringInitialized = true ∧ ((w₂.turn env).ring i).cq ≠ []

/-- A fast drain that finds a completion logs it. -/
theorem drainFastLoop_logs (hcb : ∀ q res, Keeps LogPrefix (cb q res)) {fuel n : ℕ} {c : Cqe}
    (hcq : ((w.turn env).ring i).cq.head? = some c) :
    w.log ++ [.completion (w.turn env).tls.callbackContextDepth i c] <+:
      (drainFastLoop env cb i (fuel + 1) n w).state.log := by
  have h := @calling_logPrefix env
  set w' := (w.turn env).setRing i ((w.turn env).ring i).cqeSeen
  have hlog : w'.log = w.log := (w.quiet_turn env).log_eq
  have hrun : LogPrefix { w' with log := w'.log ++ [.completion w'.tls.callbackContextDepth i c] }
      (drainFastLoop env cb i (fuel + 1) n w).state := by
    simp only [drainFastLoop, Prog.bind_apply, reapCqe_apply, Outcome.bind_ret, hcq]
    refine Keeps.bind_of (R := LogPrefix) steady_logPrefix.trans (h.processReaped hcb i c _)
      fun e => ?_
    exact h.andThen (h.onRing fun _ => .retireInline e) (h.drainFastLoop hcb i _ _)
  rw [← hlog]
  exact hrun

/-- The fast drain is silent exactly when it finds nothing. -/
theorem ringDrainCqesFast_silent_iff (hcb : ∀ q res, Keeps LogPrefix (cb q res)) :
    Silent w (ringDrainCqesFast env cb i w).state ↔
      ¬((w.ring i).ringInitialized = true ∧ ((w.turn env).ring i).cq ≠ []) := by
  cases hinit : (w.ring i).ringInitialized with
  | false => simpa [ringDrainCqesFast, readRing, hinit] using Silent.refl w
  | true =>
      simp only [ringDrainCqesFast, readRing, Prog.bind_apply, Prog.read_apply, Outcome.bind_ret,
        hinit, Bool.not_true, Bool.false_eq_true, if_false]
      cases hcq : ((w.turn env).ring i).cq with
      | nil =>
          have hlog : ((w.turn env).setRing i ((w.turn env).ring i).cqeSeen).log = w.log :=
            (w.quiet_turn env).log_eq
          simp only [drainFastLoop, Prog.bind_apply, reapCqe_apply, Outcome.bind_ret, hcq]
          simpa using Silent.of_log_eq hlog
      | cons c cs =>
          have hrun := not_silent_of_reaping (by trivial)
            (@drainFastLoop_logs env cb w i hcb env.fuel 0 c (by rw [hcq]; rfl))
          simpa using hrun

/-- The lockless path is silent exactly when it does not reap. -/
theorem submitBeginFast_silent_iff (hcb : ∀ q res, Keeps LogPrefix (cb q res)) :
    Silent w (submitBeginFast env cb i w).state ↔ ¬ReapsFast env i w := by
  have h := moving_silent
  have hp := @calling_logPrefix env
  obtain ⟨n, w₂, hflush⟩ := flushQueued_returns env .fast i w
  cases hcan : (w.ring i).canSubmit with
  | true =>
      have hsilent := h.takeSlotFast i w
      simpa [submitBeginFast, readRing, ReapsFast, hcan] using hsilent
  | false =>
      have hreaps : ReapsFast env i w ↔
          ((w₂.ring i).ringInitialized = true ∧ ((w₂.turn env).ring i).cq ≠ []) := by
        simp [ReapsFast, hcan, ringFlushFast, hflush]
      have hrun : submitBeginFast env cb i w =
          (ringDrainCqesFast env cb i >>= fun _ => retryFast i) w₂ := by
        simp [submitBeginFast, readRing, hcan, ringFlushFast, hflush]
      have hquiet : Silent w w₂ := by
        have := h.flushQueued (@silent_ioUringSubmit env .fast i) w
        rwa [hflush] at this
      have hlogs : LogPrefix w w₂ := (hp.fast i).ensures w n w₂ hflush
      rw [hreaps, ← ringDrainCqesFast_silent_iff hcb, hrun]
      constructor
      · intro hs
        refine hs.between hlogs (hp.ringDrainCqesFast hcb i w₂) ?_
        exact Keeps.bind_of (R := LogPrefix) steady_logPrefix.trans (steady_logPrefix.refl _)
          fun _ => hp.retryFast i
      · intro hs
        exact hquiet.trans (Keeps.bind_of (R := Silent) Silent.trans hs fun _ => h.retryFast i)

/-! ## `submit_begin` -/

/-- `submit_begin` reaps completions on its lockless path: it gets past its first checks, the ring
it picks is one whose lock it skips, and the ring is at its limit with a completion ready. -/
def Reaps (env : Env) (w : World) : Prop :=
  w.engine.fatalSubmitErrno = 0 ∧ w.engine.shuttingDown = false ∧
    ∃ i w₁, pickRing env w = .ret i w₁ ∧ w₁.skipsLock i = true ∧ ReapsFast env i w₁

/-- **A call of `submit_begin` without `allow_poll` processes no completion and runs no callback
exactly when it does not reap on the lockless path.** -/
theorem submitBegin_silent_iff (env : Env) (depth : ℕ) (w : World) :
    Silent w (submitBegin env (callback env depth) false w).state ↔ ¬Reaps env w := by
  have hcb := (@calling_logPrefix env).callback depth
  have hlog := (@calling_logPrefix env).submitBeginFast hcb
  by_cases hfatal : w.engine.fatalSubmitErrno = 0
  · cases hdown : w.engine.shuttingDown with
    | true =>
        rw [submitBegin_of_shuttingDown _ _ _ hfatal hdown]
        simp [Reaps, hdown, Silent.of_log_eq]
    | false =>
        rw [submitBegin_of_open _ _ _ hfatal hdown]
        have hpick := @Moving.pickRing env _ moving_silent w
        cases hw₁ : pickRing env w with
        | hang w₁ => simpa [Reaps, hfatal, hdown, hw₁] using hpick
        | ret i w₁ =>
            rw [hw₁, Outcome.state_ret] at hpick
            have hreaps : Reaps env w ↔ w₁.skipsLock i = true ∧ ReapsFast env i w₁ := by
              simp [Reaps, hfatal, hdown, hw₁]
            rw [hreaps, Outcome.bind_ret]
            cases hfast : w₁.skipsLock i with
            | false => simpa using hpick.trans (submitBeginLocked_silent i w₁)
            | true =>
                simp only [true_and, if_true, ← submitBeginFast_silent_iff hcb]
                constructor
                · intro hs
                  exact hs.between hpick.logPrefix (hlog i w₁) (steady_logPrefix.refl _)
                · exact hpick.trans
  · rw [submitBegin_of_fatal _ _ _ hfatal]
    simp [Reaps, hfatal, Silent.of_log_eq]

end

/-! ## A table released between validation and use -/

/-- The kernel completes what it can at each turn, and a callback asks for the table of registered
buffers to be released. -/
def unregisterEnv : Env :=
  { calmEnv with
    posts _ := [(0, 0, 64)]
    script _ _ _ := .call (.requestUnregister .buffers) fun _ => .done }

/-- A single-threaded engine with one registered buffer, its ring limited to one request. -/
def limitedEngine : Engine :=
  let e := auraCreate { queueDepth := 4, singleThread := true } 4096 4
  { e with
    rings i := { e.rings i with
      adaptive := { passthroughMode := false, currentInFlightLimit := 1 } }
    registeredBuffers := [⟨1000, 64⟩]
    buffersRegistered := true }

/-- The world after one read into an unregistered buffer, with a callback. -/
def limitedWorld : World :=
  (auraSubmit unregisterEnv (callback unregisterEnv 1) (.read 3 (.unregistered (some 2000)) 8 0)
    { callback := some 7 } (.start limitedEngine)).state

/-- A read into the registered buffer follows. Its `submit_begin` runs the callback of the first
read, the callback releases the table, and the read is submitted all the same. -/
theorem submitBegin_runs_callback :
    ¬Silent limitedWorld
      (submitBegin unregisterEnv (callback unregisterEnv 1) false limitedWorld).state ∧
    ∃ w, auraSubmit unregisterEnv (callback unregisterEnv 1) (.read 3 (.registered 0 0) 8 0) {}
        limitedWorld = .ret (some (0, 3)) w ∧
      limitedWorld.engine.registeredBuffers = [⟨1000, 64⟩] ∧ w.engine.registeredBuffers = [] ∧
      (w.ring 0).sq.map (·.op) = [.readFixed] := by
  refine ⟨?_, _, rfl, rfl, rfl, rfl⟩
  exact not_silent_of_reaping (e := .completion 0 0 ⟨some 3, 64⟩) trivial (by decide)

end Aura
