import Aura.Engine.Stable

/-!
# The log

What calls add to the log of a world.

* `LogPrefix` — no call takes events back (`Calling.logPrefix`), whether it returns or hangs.
* `Silent` — no completion is processed and no callback is invoked. Moves are silent, and so are
  failed submits.
* `Nested` — a call that returns leaves the callback depth as it was, and everything it logs
  happened at that depth or deeper (`Calling.nested`). -/

namespace Aura

open Lib Lib.Prog

variable {env : Env} {w w' w'' : World}

/-! ## Nothing is taken back -/

/-- The log only grew. -/
def LogPrefix (w w' : World) : Prop := w.log <+: w'.log

theorem QuietMove.log_eq (h : QuietMove w w') : w'.log = w.log := by
  cases h <;> rfl

theorem Move.log_eq (h : Move w w') : w'.log = w.log := by
  cases h with
  | quiet h => exact h.log_eq
  | _ => rfl

theorem Quiet.log_eq (h : Quiet w w') : w'.log = w.log := by
  induction h with
  | refl => rfl
  | tail _ hstep ih => rw [hstep.log_eq, ih]

theorem steady_logPrefix : Steady LogPrefix where
  refl _ := List.prefix_rfl
  trans h h' := List.IsPrefix.trans h h'
  move h := by rw [LogPrefix, h.log_eq]
  submitted _ _ _ _ _ := List.prefix_rfl
  link _ _ _ := List.prefix_rfl
  lastSqe _ _ := List.prefix_rfl
  log _ _ _ := List.prefix_append _ _

/-- A callback's bracket keeps what its program, its log event and changes of the thread keep. -/
theorem keeps_invokeCallback {R : World → World → Prop} (hrefl : ∀ w, R w w)
    (htrans : ∀ {w w' w''}, R w w' → R w' w'' → R w w'')
    (hlog : ∀ (w : World) d q res, R w { w with log := w.log ++ [.callback d q res] })
    (htls : ∀ (w : World) t, R w { w with tls := t }) {cb : Callback}
    (hcb : ∀ q res, Keeps R (cb q res)) (q : Request) (res : ℤ) :
    Keeps R (invokeCallback cb q res) := by
  have hK := Keeps.composes hrefl htrans
  refine hK.bind (hK.read _) fun saved => hK.when ?_
  refine hK.andThen (fun w => hlog w _ _ _) (hK.andThen (fun w => htls w _) ?_)
  exact hK.andThen (hcb q res) fun w => htls w _

theorem calling_logPrefix : Calling env fun (α : Type) (p : AuraM α) => Keeps LogPrefix p := by
  have hmoving := steady_logPrefix.moving
  have hsubmit : ∀ site i, Keeps LogPrefix (ioUringSubmit env site i) := fun site i =>
    hmoving.ioUringSubmit (fun _ _ => List.prefix_append _ _) (fun _ _ _ => List.prefix_rfl) i
  refine steady_logPrefix.calling (fun _ _ _ => List.prefix_rfl)
    (fun hcb => keeps_invokeCallback steady_logPrefix.refl steady_logPrefix.trans
      (fun _ _ _ _ => List.prefix_append _ _) (fun _ _ => List.prefix_rfl) hcb) ?_ ?_ ?_
  · exact fun i => hmoving.ringFlushLatching (hsubmit .checked i)
  · exact fun i => hmoving.flushQueued (hsubmit .fast i)
  · exact fun i => hmoving.ringFlush (hsubmit .abort i)

/-! ## Silence -/

/-- The event is a processed completion or a callback. -/
def LogEvent.Reaping : LogEvent → Prop
  | .completion _ _ _ | .callback _ _ _ => True
  | _ => False

/-- From `w` to `w'` no completion was processed and no callback invoked. -/
def Silent (w w' : World) : Prop := ∃ new, w'.log = w.log ++ new ∧ ∀ e ∈ new, ¬e.Reaping

theorem Silent.of_log_eq (h : w'.log = w.log) : Silent w w' := ⟨[], by simpa using h, by simp⟩

theorem Silent.refl (w : World) : Silent w w := .of_log_eq rfl

theorem Silent.trans (h : Silent w w') (h' : Silent w' w'') : Silent w w'' := by
  obtain ⟨new, hnew, hn⟩ := h
  obtain ⟨new', hnew', hn'⟩ := h'
  refine ⟨new ++ new', by rw [hnew', hnew, List.append_assoc], fun e he => ?_⟩
  rcases List.mem_append.mp he with he | he
  · exact hn e he
  · exact hn' e he

theorem Silent.logPrefix (h : Silent w w') : LogPrefix w w' := by
  obtain ⟨new, hnew, -⟩ := h
  exact ⟨new, hnew.symm⟩

/-- Silence of a run is silence of each of its parts. -/
theorem Silent.between {a b : World} (h : Silent w w') (ha : LogPrefix w a) (hab : LogPrefix a b)
    (hb : LogPrefix b w') : Silent a b := by
  obtain ⟨new, hnew, hn⟩ := h
  obtain ⟨x, hx⟩ := ha
  obtain ⟨y, hy⟩ := hab
  obtain ⟨z, hz⟩ := hb
  have heq : new = x ++ y ++ z := by
    rw [← hz, ← hy, ← hx, List.append_assoc, List.append_assoc, List.append_cancel_left_eq] at hnew
    rw [← hnew, List.append_assoc]
  refine ⟨y, hy.symm, fun e he => hn e ?_⟩
  rw [heq]
  exact List.mem_append_left _ (List.mem_append_right _ he)

theorem moving_silent : Moving fun (α : Type) (p : AuraM α) => Keeps Silent p :=
  .of_keeps .refl .trans fun h => .of_log_eq h.log_eq

theorem silent_ioUringSubmit (site : FlushSite) (i : ℕ) :
    Keeps Silent (ioUringSubmit env site i) :=
  moving_silent.ioUringSubmit
    (fun e _ => ⟨[.submitFailed site e], rfl, by simp [LogEvent.Reaping]⟩)
    (fun _ _ _ => .of_log_eq rfl) i

/-- Once a completion was processed, no continuation is silent. -/
theorem not_silent_of_reaping {e : LogEvent} (he : e.Reaping) (h : w.log ++ [e] <+: w'.log) :
    ¬Silent w w' := by
  rintro ⟨new, hnew, hn⟩
  rw [hnew, List.prefix_append_right_inj] at h
  exact hn e (h.subset (List.mem_singleton.mpr rfl)) he

/-! ## Nesting -/

/-- The callback depth is what it was, and what was logged happened at that depth or deeper. -/
def Nested (w w' : World) : Prop :=
  w'.tls.callbackContextDepth = w.tls.callbackContextDepth ∧
    ∃ new, w'.log = w.log ++ new ∧ ∀ e ∈ new, ∀ d ∈ e.depth?, w.tls.callbackContextDepth ≤ d

theorem Nested.of_log_eq (hdepth : w'.tls.callbackContextDepth = w.tls.callbackContextDepth)
    (hlog : w'.log = w.log) : Nested w w' := ⟨hdepth, [], by simpa using hlog, by simp⟩

theorem Nested.trans (h : Nested w w') (h' : Nested w' w'') : Nested w w'' := by
  obtain ⟨hdepth, new, hnew, hn⟩ := h
  obtain ⟨hdepth', new', hnew', hn'⟩ := h'
  refine ⟨hdepth'.trans hdepth, new ++ new', by rw [hnew', hnew, List.append_assoc], ?_⟩
  intro e he d hd
  rcases List.mem_append.mp he with he | he
  · exact hn e he d hd
  · rw [← hdepth]
    exact hn' e he d hd

theorem Move.depth_eq (h : Move w w') :
    w'.tls.callbackContextDepth = w.tls.callbackContextDepth := by
  cases h with
  | quiet h =>
      cases h with
      | tls h => exact h.depth
      | _ => rfl
  | tls hdepth _ => exact hdepth
  | _ => rfl

theorem steady_nested : Steady Nested where
  refl _ := .of_log_eq rfl rfl
  trans h h' := h.trans h'
  move h := .of_log_eq h.depth_eq h.log_eq
  submitted _ _ _ _ _ := .of_log_eq rfl rfl
  link _ _ _ := .of_log_eq rfl rfl
  lastSqe _ _ := .of_log_eq rfl rfl
  log w e he := by
    refine ⟨rfl, [e], rfl, fun e' he' d hd => ?_⟩
    rw [List.mem_singleton.mp he', he] at hd
    cases hd
    exact le_rfl

/-- A submit logs nothing but its failure. -/
theorem nested_ioUringSubmit (site : FlushSite) (i : ℕ) : Keeps Nested (ioUringSubmit env site i) :=
  steady_nested.moving.ioUringSubmit
    (fun e _ => ⟨rfl, [.submitFailed site e], rfl, by simp [LogEvent.depth?]⟩)
    (fun _ _ _ => .of_log_eq rfl rfl) i

/-- What a callback that returned did: it was logged at its caller's depth, and its program ran one
level deeper. -/
theorem invokeCallback_nested {cb : Callback} (hcb : ∀ q res, Ensures Nested (cb q res))
    {q : Request} {res : ℤ} {u : Unit} (h : invokeCallback cb q res w = .ret u w') :
    w'.tls.callbackContextDepth = w.tls.callbackContextDepth ∧ ∃ new, w'.log = w.log ++ new ∧
      ∀ e ∈ new, ∀ d ∈ e.depth?, w.tls.callbackContextDepth < d ∨
        e = .callback w.tls.callbackContextDepth q res := by
  obtain ⟨saved, w₁, hsaved, h⟩ := bind_eq_ret.mp h
  obtain ⟨rfl, rfl⟩ := Outcome.ret.inj hsaved
  cases hq : q.callback.isSome with
  | false =>
      rw [hq] at h
      obtain ⟨-, rfl⟩ := Outcome.ret.inj h
      exact ⟨rfl, [], by simp, by simp⟩
  | true =>
      rw [hq] at h
      obtain ⟨_, w₂, hw₂, h⟩ := bind_eq_ret.mp h
      obtain ⟨-, rfl⟩ := Outcome.ret.inj hw₂
      obtain ⟨_, w₃, hw₃, h⟩ := bind_eq_ret.mp h
      obtain ⟨-, rfl⟩ := Outcome.ret.inj hw₃
      obtain ⟨_, w₄, hrun, h⟩ := bind_eq_ret.mp h
      obtain ⟨-, rfl⟩ := Outcome.ret.inj h
      obtain ⟨-, new, hnew, hn⟩ := hcb q res _ _ _ hrun
      refine ⟨rfl, .callback w.tls.callbackContextDepth q res :: new, ?_, fun e he d hd => ?_⟩
      · simpa using hnew
      · rcases List.mem_cons.mp he with rfl | he
        · exact .inr rfl
        · exact .inl (hn e he d hd)

/-- **A call that returns is nested in the depth it was made at.** -/
theorem calling_nested : Calling env fun (α : Type) (p : AuraM α) => Ensures Nested p := by
  have hmoving := steady_nested.moving
  refine steady_nested.calling_ensures (fun _ _ _ => .of_log_eq rfl rfl)
    (fun hcb q res w u w' h => ?_) ?_ ?_ ?_
  · obtain ⟨hdepth, new, hnew, hn⟩ := invokeCallback_nested hcb h
    refine ⟨hdepth, new, hnew, fun e he d hd => ?_⟩
    rcases hn e he d hd with hlt | rfl
    · exact hlt.le
    · cases hd
      exact le_rfl
  · exact fun i => hmoving.ringFlushLatching (nested_ioUringSubmit .checked i)
  · exact fun i => hmoving.flushQueued (nested_ioUringSubmit .fast i)
  · exact fun i => hmoving.ringFlush (nested_ioUringSubmit .abort i)

end Aura
