import Aura.Engine.Log
import Aura.Engine.Normal

/-!
# The fatal-error latch

A fatal error of a flush whose caller looks at it is latched at once, and a latched error stays:
`calling_latching`, for every call and callback. `submit_begin` looks at the latch first, so from
then on no submission gets through (`auraSubmit_of_latched`).

The flushes of `ring_flush_fast` and of `submit_abort` do not look at the error.
-/

namespace Aura

open Lib Lib.Prog

variable {env : Env} {cb : Callback} {w w' w'' : World}

/-! ## What is latched stays -/

/-- A latched error stays, and a fatal error of a checked flush is followed by a latched error. -/
def Latching (w w' : World) : Prop :=
  (w.engine.fatalSubmitErrno ≠ 0 → w'.engine.fatalSubmitErrno = w.engine.fatalSubmitErrno) ∧
    ∃ new, w'.log = w.log ++ new ∧ ∀ e : Errno, .submitFailed .checked e ∈ new →
      flushErrorIsFatal e → w'.engine.fatalSubmitErrno ≠ 0

theorem Latching.of_log_eq (hlog : w'.log = w.log)
    (h : w.engine.fatalSubmitErrno ≠ 0 →
      w'.engine.fatalSubmitErrno = w.engine.fatalSubmitErrno) : Latching w w' :=
  ⟨h, [], by simpa using hlog, by simp⟩

theorem Latching.trans (h : Latching w w') (h' : Latching w' w'') : Latching w w'' := by
  obtain ⟨hstay, new, hnew, hn⟩ := h
  obtain ⟨hstay', new', hnew', hn'⟩ := h'
  refine ⟨fun hne => ?_, new ++ new', by rw [hnew', hnew, List.append_assoc], fun e he hfatal => ?_⟩
  · rw [hstay' (by rwa [hstay hne]), hstay hne]
  · rcases List.mem_append.mp he with he | he
    · rw [hstay' (hn e he hfatal)]
      exact hn e he hfatal
    · exact hn' e he hfatal

theorem QuietMove.latched (h : QuietMove w w') (hne : w.engine.fatalSubmitErrno ≠ 0) :
    w'.engine.fatalSubmitErrno = w.engine.fatalSubmitErrno := by
  cases h with
  | engine h => exact h.latched hne
  | _ => rfl

theorem Move.latched (h : Move w w') (hne : w.engine.fatalSubmitErrno ≠ 0) :
    w'.engine.fatalSubmitErrno = w.engine.fatalSubmitErrno := by
  cases h with
  | quiet h => exact h.latched hne
  | _ => rfl

theorem steady_latching : Steady Latching where
  refl _ := .of_log_eq rfl fun _ => rfl
  trans h h' := h.trans h'
  move h := .of_log_eq h.log_eq h.latched
  submitted _ _ _ _ _ := .of_log_eq rfl fun _ => rfl
  link _ _ _ := .of_log_eq rfl fun _ => rfl
  lastSqe _ _ := .of_log_eq rfl fun _ => rfl
  log w e h := by
    refine ⟨fun _ => rfl, [e], rfl, fun err he => ?_⟩
    cases List.mem_singleton.mp he
    cases h

/-! ## Checked flushes -/

@[simp] theorem World.post_fatalSubmitErrno (w : World) (p : ℕ × ℕ × ℤ) :
    (w.post p).engine.fatalSubmitErrno = w.engine.fatalSubmitErrno := by
  unfold World.post
  split
  · split <;> rfl
  · rfl

@[simp] theorem World.turn_fatalSubmitErrno (env : Env) (w : World) :
    (w.turn env).engine.fatalSubmitErrno = w.engine.fatalSubmitErrno := by
  have hposts : ∀ (ps : List (ℕ × ℕ × ℤ)) (w : World),
      (ps.foldl World.post w).engine.fatalSubmitErrno = w.engine.fatalSubmitErrno := by
    intro ps
    induction ps with
    | nil => exact fun _ => rfl
    | cons p ps ih => exact fun w => by rw [List.foldl_cons, ih, World.post_fatalSubmitErrno]
  exact hposts (env.posts w.clock) w

/-- A submit accepts entries, or it fails and is logged. -/
theorem ioUringSubmit_outcome {site : FlushSite} {i : ℕ} {r : Except Errno ℕ}
    (h : ioUringSubmit env site i w = .ret r w') :
    w'.engine.fatalSubmitErrno = w.engine.fatalSubmitErrno ∧
      ((∃ k, r = .ok k ∧ w'.log = w.log) ∨
        ∃ e, r = .error e ∧ w'.log = w.log ++ [.submitFailed site e] ∧
          ∃ clock, env.submit site clock = .error e) := by
  have hlog : (w.turn env).log = w.log := (w.quiet_turn env).log_eq
  have hlatch := w.turn_fatalSubmitErrno env
  unfold ioUringSubmit kernelTurn at h
  simp only [Prog.bind_apply, Prog.modify_apply, Prog.read_apply, Outcome.bind_ret] at h
  cases hs : env.submit site (w.turn env).clock with
  | error e =>
      rw [hs] at h
      obtain ⟨rfl, rfl⟩ := Outcome.ret.inj h
      exact ⟨hlatch, .inr ⟨e, rfl, by rw [← hlog], _, hs⟩⟩
  | ok k =>
      rw [hs] at h
      obtain ⟨rfl, rfl⟩ := Outcome.ret.inj h
      exact ⟨hlatch, .inl ⟨_, rfl, hlog⟩⟩

/-- A flush returns a number of entries, or it failed and left the error in `errno`. -/
theorem ringFlush_outcome {site : FlushSite} {i : ℕ} {n : ℤ}
    (h : ringFlush env site i w = .ret n w') :
    w'.engine.fatalSubmitErrno = w.engine.fatalSubmitErrno ∧ ((0 ≤ n ∧ w'.log = w.log) ∨
      ∃ e : Errno, n = -1 ∧ w'.tls.errno = e ∧ w'.log = w.log ++ [.submitFailed site e] ∧
        ∃ clock, env.submit site clock = .error e) := by
  unfold ringFlush flushQueued at h
  simp only [readRing, Prog.bind_apply, Prog.read_apply, Outcome.bind_ret, Prog.ite_apply] at h
  split at h
  · obtain ⟨rfl, rfl⟩ := Outcome.ret.inj h
    exact ⟨rfl, .inl ⟨le_rfl, rfl⟩⟩
  · split at h
    · obtain ⟨rfl, rfl⟩ := Outcome.ret.inj h
      exact ⟨rfl, .inl ⟨le_rfl, rfl⟩⟩
    · simp only [onTls, Prog.modify_apply, Outcome.bind_ret] at h
      obtain ⟨r, w₁, hr, h⟩ := Outcome.bind_eq_ret.mp h
      obtain ⟨hlatch, ⟨k, rfl, hlog⟩ | ⟨e, rfl, hlog, hs⟩⟩ := ioUringSubmit_outcome hr
      · obtain ⟨rfl, rfl⟩ := Outcome.ret.inj h
        exact ⟨hlatch, .inl ⟨Int.natCast_nonneg k, hlog⟩⟩
      · obtain ⟨rfl, rfl⟩ := Outcome.ret.inj h
        exact ⟨hlatch, .inr ⟨e, rfl, rfl, hlog, hs⟩⟩

/-- Latching an error leaves one latched. -/
theorem Engine.latch_ne_zero (e : Engine) (err : ℤ) : (e.latch err).fatalSubmitErrno ≠ 0 := by
  unfold Engine.latch
  split
  · dsimp only
    split
    · decide
    · omega
  · assumption

/-- A checked flush latches its fatal errors. -/
theorem latching_ringFlushLatching (i : ℕ) : Keeps Latching (ringFlushLatching env i) := by
  intro w
  obtain ⟨n, w₁, hn⟩ := ringFlush_returns env .checked i w
  obtain ⟨hlatch, ⟨hpos, hlog⟩ | ⟨e, rfl, herr, hlog, -⟩⟩ := ringFlush_outcome hn
  · have hrun : ringFlushLatching env i w = .ret .ok w₁ := by
      simp [ringFlushLatching, hn, getErrno, hpos]
    rw [hrun]
    exact .of_log_eq hlog fun _ => hlatch
  · cases hfatal : flushErrorIsFatal e with
    | false =>
        have hrun : ringFlushLatching env i w = .ret .retry w₁ := by
          simp [ringFlushLatching, hn, getErrno, herr, hfatal]
        rw [hrun]
        refine ⟨fun _ => hlatch, _, hlog, fun e' he' hfatal' => ?_⟩
        cases List.mem_singleton.mp he'
        rw [hfatal] at hfatal'
        cases hfatal'
    | true =>
        have hrun : ringFlushLatching env i w =
            .ret .fatal { w₁ with engine := w₁.engine.latch e } := by
          simp [ringFlushLatching, hn, getErrno, herr, hfatal, latchFatalSubmitErrno, onEngine]
        rw [hrun]
        refine ⟨fun hne => ?_, _, hlog, fun _ _ _ => w₁.engine.latch_ne_zero e⟩
        rw [← hlatch]
        exact (w₁.engine.latch_frame e).latched (by rwa [hlatch])

/-- **Every call and callback keeps the latch**, whatever its unchecked flushes do. -/
theorem calling_latching : Calling env fun (α : Type) (p : AuraM α) => Keeps Latching p := by
  have hmoving := steady_latching.moving
  have hsubmit : ∀ site i, site ≠ .checked → Keeps Latching (ioUringSubmit env site i) := by
    refine fun site i hne => hmoving.ioUringSubmit (fun e w => ?_) (fun _ _ _ => ?_) i
    · refine ⟨fun _ => rfl, [.submitFailed site e], rfl, fun e' he' => ?_⟩
      cases List.mem_singleton.mp he'
      exact absurd rfl hne
    · exact .of_log_eq rfl fun _ => rfl
  refine steady_latching.calling (fun _ _ h => .of_log_eq rfl h.latched)
    (fun hcb => keeps_invokeCallback steady_latching.refl steady_latching.trans
      (fun _ _ _ _ => ⟨fun _ => rfl, _, rfl, by simp⟩) (fun _ _ => .of_log_eq rfl fun _ => rfl)
      hcb) ?_ ?_ ?_
  · exact latching_ringFlushLatching
  · exact fun i => hmoving.flushQueued (hsubmit .fast i (by decide))
  · exact fun i => hmoving.ringFlush (hsubmit .abort i (by decide))

/-! ## No submission gets through -/

/-- With a latched error every submission call fails. -/
theorem auraSubmit_of_latched {call : SubmitCall} {args : SubmitArgs} {o : Option ReqPtr}
    (hne : w.engine.fatalSubmitErrno ≠ 0)
    (h : auraSubmit env cb call args w = .ret o w') : o = none := by
  rcases auraSubmit_eq_ret h with ⟨ho, -⟩ | ⟨e, -, h⟩
  · exact ho
  · have hfail := submitBegin_of_fatal env cb e.allowPoll (w := w.marked.withReader e.locked) hne
    obtain ⟨ctx, w₁, hbegin, h⟩ := bind_eq_ret.mp h
    rw [hfail] at hbegin
    obtain ⟨rfl, -⟩ := Outcome.ret.inj hbegin
    obtain ⟨_, w₂, -, h⟩ := bind_eq_ret.mp h
    exact (Outcome.ret.inj h).1.symm

end Aura
