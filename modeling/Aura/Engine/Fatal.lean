import Aura.Engine.Count
import Aura.Engine.Latch
import Mathlib.Algebra.Order.BigOperators.Group.Finset

/-!
# Fatal submit errors

When the kernel refuses a submit for good, the engine should stop taking submissions and a drain
without a deadline should end.

* `LookedCall.latched` — along a run of calls whose fatal failures all happen in flushes whose
  callers look at the error, an error is latched as soon as one has happened.
* `DrainRun.ends` — a drain without a deadline then ends on the general path of `aura_wait`: each
  further iteration reaps a completion, and there is only so much for the kernel to complete.
* **`fatal_submit_latched`** — both together.
* `fatal_submit_unlatched` — a run on which the fatal failure of a fast flush goes unnoticed.
-/

namespace Aura

open Lib Lib.Prog

variable {env : Env} {cb : Callback} {depth : ℕ} {w w' w'' : World}

/-! ## Runs of calls -/

/-- From `w` to `w'` a submit failed fatally. -/
def Fails (w w' : World) : Prop :=
  ∃ new, w'.log = w.log ++ new ∧
    ∃ site, ∃ e : Errno, .submitFailed site e ∈ new ∧ flushErrorIsFatal e = true

/-- From `w` to `w'` every submit that failed fatally was one of a flush whose caller looks at the
error, or an error was latched before. -/
def Looked (w w' : World) : Prop :=
  w.engine.fatalSubmitErrno ≠ 0 ∨ ∀ new, w'.log = w.log ++ new →
    ∀ site, ∀ e : Errno, .submitFailed site e ∈ new → flushErrorIsFatal e = true → site = .checked

/-- A library call that returns, with its fatal failures looked at. -/
def LookedCall (env : Env) (depth : ℕ) (w w' : World) : Prop :=
  Looked w w' ∧ ∃ c r, apiCall env (callback env depth) c w = .ret r w'

/-- A failure that was looked at is latched. -/
theorem Latching.latched (h : Latching w w') (hlook : Looked w w') (hfail : Fails w w') :
    w'.engine.fatalSubmitErrno ≠ 0 := by
  obtain ⟨hstay, new, hnew, hn⟩ := h
  rcases hlook with hne | hlook
  · rwa [hstay hne]
  · obtain ⟨new', hnew', site, e, he, hfatal⟩ := hfail
    have hsite := hlook new' hnew' site e he hfatal
    rw [hnew', List.append_cancel_left_eq] at hnew
    rw [hnew, hsite] at he
    exact hn e he hfatal

/-- A failure of a run is one of its first or of its second part. -/
theorem Fails.split (h : Fails w w'') (h₁ : LogPrefix w w') (h₂ : LogPrefix w' w'') :
    Fails w w' ∨ Fails w' w'' := by
  obtain ⟨new, hnew, site, e, he, hfatal⟩ := h
  obtain ⟨x, hx⟩ := h₁
  obtain ⟨y, hy⟩ := h₂
  rw [← hy, ← hx, List.append_assoc, List.append_cancel_left_eq] at hnew
  rw [← hnew] at he
  rcases List.mem_append.mp he with he | he
  · exact .inl ⟨x, hx.symm, site, e, he, hfatal⟩
  · exact .inr ⟨y, hy.symm, site, e, he, hfatal⟩

/-- A call keeps the latch and the log. -/
theorem LookedCall.latching (h : LookedCall env depth w w') : Latching w w' ∧ LogPrefix w w' := by
  obtain ⟨-, c, r, hr⟩ := h
  have hlatch := @calling_latching env
  have hlog := @calling_logPrefix env
  exact ⟨(hlatch.apiCall (hlatch.callback depth) c).ensures w r w' hr,
    (hlog.apiCall (hlog.callback depth) c).ensures w r w' hr⟩

/-- **Along a run of looked-at calls a fatal failure is latched.** -/
theorem LookedCall.latched (h : Relation.ReflTransGen (LookedCall env depth) w w') :
    LogPrefix w w' ∧ (Fails w w' → w'.engine.fatalSubmitErrno ≠ 0) := by
  induction h with
  | refl =>
      refine ⟨steady_logPrefix.refl w, ?_⟩
      rintro ⟨new, hnew, site, e, he, -⟩
      have hnil : new = [] := by simpa using hnew
      rw [hnil] at he
      cases he
  | tail _ hcall ih =>
      obtain ⟨hlatch, hlog⟩ := hcall.latching
      obtain ⟨hlog₀, hfail₀⟩ := ih
      refine ⟨hlog₀.trans hlog, fun hfail => ?_⟩
      rcases hfail.split hlog₀ hlog with hfail | hfail
      · rw [hlatch.1 (hfail₀ hfail)]
        exact hfail₀ hfail
      · exact hlatch.latched hcall.1 hfail

/-! ## The load of the engine -/

/-- The completions that the first `n` rings can still produce. -/
def World.load (n : ℕ) (w : World) : ℕ := ∑ i ∈ Finset.range n, (w.ring i).load

/-- The run reaped at least `a` completions of the first `n` rings, and gave the kernel nothing new
to complete. -/
def Drains (n a : ℕ) (w w' : World) : Prop :=
  w'.engine.ringCount = w.engine.ringCount ∧ w'.load n + a ≤ w.load n

variable {n : ℕ}

theorem Drains.of_rings (hcount : w'.engine.ringCount = w.engine.ringCount)
    (h : ∀ i, (w'.ring i).load ≤ (w.ring i).load) : Drains n 0 w w' :=
  ⟨hcount, by rw [Nat.add_zero]; exact Finset.sum_le_sum fun i _ => h i⟩

theorem Drains.of_setRing {i : ℕ} {r : RingCtx} (h : r.load ≤ (w.ring i).load) :
    Drains n 0 w (w.setRing i r) := by
  refine .of_rings rfl fun j => ?_
  rw [World.setRing_ring]
  split
  · next hj => rwa [hj]
  · exact le_rfl

theorem Drains.trans {a b : ℕ} (h : Drains n a w w') (h' : Drains n b w' w'') :
    Drains n (a + b) w w'' := by
  obtain ⟨hcount, hload⟩ := h
  obtain ⟨hcount', hload'⟩ := h'
  exact ⟨hcount'.trans hcount, by omega⟩

theorem steady_drains (n : ℕ) : Steady (Drains n 0) where
  refl _ := .of_rings rfl fun _ => le_rfl
  trans h h' := h.trans h'
  move h := by
    cases h with
    | quiet h =>
        cases h with
        | ring i h => exact .of_setRing h.frame_load.2
        | engine h => exact .of_rings h.ringCount fun i => by rw [World.ring, h.rings]; exact le_rfl
        | tls h => exact .of_rings rfl fun _ => le_rfl
        | tick => exact .of_rings rfl fun _ => le_rfl
    | ring i h => exact .of_setRing h.frame_load.2
    | tls h => exact .of_rings rfl fun _ => le_rfl
    | mark m => exact .of_rings rfl fun _ => le_rfl
  submitted w i op r h := by
    obtain ⟨sqe, o, t, sc, -, -, rfl⟩ := h
    exact .of_setRing le_rfl
  link w i slot := .of_setRing le_rfl
  lastSqe _ _ := .of_rings rfl fun _ => le_rfl
  log _ _ _ := .of_rings rfl fun _ => le_rfl

/-- The kernel refuses every submit, for good. -/
def Env.Refuses (env : Env) : Prop :=
  ∀ site clock, ∃ e, env.submit site clock = .error e ∧ flushErrorIsFatal e = true

/-- With a kernel that accepts nothing, no call adds to the load. -/
theorem calling_drains (henv : env.Refuses) (n : ℕ) :
    Calling env fun (α : Type) (p : AuraM α) => Keeps (Drains n 0) p := by
  have h := steady_drains n
  have hsubmit : ∀ site i, Keeps (Drains n 0) (ioUringSubmit env site i) := by
    refine fun site i => h.moving.andThen h.moving.kernelTurn ?_
    refine h.moving.bind (h.moving.read _) fun clock => ?_
    obtain ⟨e, he, -⟩ := henv site clock
    rw [he]
    exact h.moving.andThen (fun _ => .of_rings rfl fun _ => le_rfl) (h.moving.pure _)
  refine h.calling
    (fun _ _ hreg => .of_rings hreg.ringCount fun i => by rw [World.ring, hreg.rings]; exact le_rfl)
    (fun hcb => keeps_invokeCallback h.refl h.trans (fun _ _ _ _ => .of_rings rfl fun _ => le_rfl)
      (fun _ _ => .of_rings rfl fun _ => le_rfl) hcb) ?_ ?_ ?_
  · exact fun i => h.moving.ringFlushLatching (hsubmit .checked i)
  · exact fun i => h.moving.flushQueued (hsubmit .fast i)
  · exact fun i => h.moving.ringFlush (hsubmit .abort i)

/-- Reaping a completion of the first `n` rings takes one off the load. -/
theorem drains_reap {i : ℕ} (hi : i < n) (hcq : (w.ring i).cq ≠ []) :
    Drains n 1 w (w.setRing i (w.ring i).cqeSeen) := by
  refine ⟨rfl, ?_⟩
  have hi' := Finset.mem_range.mpr hi
  unfold World.load
  rw [← Finset.add_sum_erase _ _ hi', ← Finset.add_sum_erase _ _ hi', World.setRing_self]
  have hrest : ∑ j ∈ (Finset.range n).erase i, ((w.setRing i (w.ring i).cqeSeen).ring j).load =
      ∑ j ∈ (Finset.range n).erase i, (w.ring j).load := by
    refine Finset.sum_congr rfl fun j hj => ?_
    rw [World.setRing_ring, if_neg (Finset.ne_of_mem_erase hj)]
  have hone : ((w.ring i).cqeSeen).load + 1 = (w.ring i).load := by
    have hpos := List.length_pos_iff.mpr hcq
    simp only [RingCtx.load, RingCtx.cqeSeen, List.length_tail]
    omega
  omega

theorem counted_drains (henv : env.Refuses) (depth n : ℕ) :
    Counted env (callback env depth) (fun w => w.engine.ringCount = n) (· < n)
      fun a _ => Drains n a := by
  have h := calling_drains henv n
  have hcb := h.callback depth
  exact {
    moving := .of_ensures (steady_drains n).refl (steady_drains n).trans (steady_drains n).move
    latching := fun i => (h.latching i).ensures
    fast := fun i => (h.fast i).ensures
    finalize := h.finalize.ensures
    add := Drains.trans
    bound := fun hd hw => hd.1.trans hw
    reap := drains_reap
    process := fun i c => (h.processCqe hcb i c).ensures }

/-! ## A drain without a deadline -/

/-- With a latched error, the general path of `aura_wait` reaps something or reports the error. -/
theorem waitGeneral_of_latched {timeoutMs m : ℤ} (hne : w.engine.fatalSubmitErrno ≠ 0)
    (hcb : ∀ q res, Keeps Latching (cb q res)) (h : waitGeneral env cb timeoutMs w = .ret m w') :
    0 < m ∨ (m = -1 ∧ w'.tls.errno = w.engine.fatalSubmitErrno) := by
  have hlatch := @calling_latching env
  unfold waitGeneral at h
  rw [Prog.bind_apply, Prog.read_apply, Outcome.bind_ret] at h
  obtain ⟨fin, w₁, hfin, h⟩ := bind_eq_ret.mp h
  rw [maybeFinalizeDeferredUnregistration_eq hfin, if_neg (by simp)] at h
  obtain ⟨_, w₂, hdrain, h⟩ := bind_eq_ret.mp h
  obtain ⟨rings, w₂', hrings, h⟩ := bind_eq_ret.mp h
  obtain ⟨-, rfl⟩ := Outcome.ret.inj hrings
  obtain ⟨⟨fatal, first, total⟩, w₃, hpass, h⟩ := bind_eq_ret.mp h
  have hstay : w₃.engine.fatalSubmitErrno = w.engine.fatalSubmitErrno :=
    (((hlatch.finalize.ensures w fin w₁ hfin).trans
      (hlatch.drainEventfdIfRegistered.ensures w₁ _ w₂ hdrain)).trans
      ((hlatch.waitPass hcb rings).ensures w₂ _ w₃ hpass)).1 hne
  dsimp only at h
  rw [Prog.ite_apply] at h
  split at h
  · next hpos =>
      obtain ⟨fin', w₄, hfin', h⟩ := bind_eq_ret.mp h
      rw [maybeFinalizeDeferredUnregistration_eq hfin', if_neg (by simp)] at h
      obtain ⟨rfl, rfl⟩ := Outcome.ret.inj h
      exact .inl (by exact_mod_cast hpos)
  · rw [if_pos (by simp [hne])] at h
    obtain ⟨rfl, rfl⟩ := Outcome.ret.inj h
    exact .inr ⟨rfl, hstay⟩

theorem Engine.RegFrame.ownRing {e : Engine} (h : w.engine.RegFrame e) :
    World.ownRing { w with engine := e } = w.ownRing := by
  unfold World.ownRing Engine.ringIsSoleOwner Engine.ringOf
  grind [h.rings, h.ringCount, h.ringSelect, h.addr, h.ringsBase]

/-- With a latched error, an iteration of a drain that goes on has reaped a completion. -/
theorem drainOnce_drains (henv : env.Refuses) {timeoutMs deadlineNs : ℤ} {total total' : ℕ}
    (htime : timeoutMs < 0) (hne : w.engine.fatalSubmitErrno ≠ 0)
    (hmed : w.engine.fatalSubmitErrno ≠ ETIMEDOUT) (hown : w.ownRing = none)
    (h : drainOnce env (callback env depth) timeoutMs deadlineNs total w =
      .ret (.again total') w') : Drains w.engine.ringCount 1 w w' := by
  have hcount := counted_drains henv depth w.engine.ringCount
  obtain ⟨fin, w₁, hfin, h⟩ := bind_eq_ret.mp h
  have h₁ := hcount.finalize w fin w₁ hfin
  obtain ⟨e, ⟨hframe, -⟩, rfl⟩ := maybeFinalizeDeferredUnregistration_frame hfin
  have hne' := hframe.latched hne
  have hown' : World.ownRing { w with engine := e } = none := by rw [hframe.ownRing, hown]
  rw [Prog.bind_apply, Prog.read_apply, Outcome.bind_ret,
    maybeFinalizeDeferredUnregistration_eq hfin, if_neg (by simp)] at h
  rw [Prog.ite_apply] at h
  split at h
  · obtain ⟨fin', w₂, -, h⟩ := bind_eq_ret.mp h
    rw [Prog.ite_apply] at h
    split at h <;> cases (Outcome.ret.inj h).1
  · rw [if_neg (by omega : ¬timeoutMs = 0)] at h
    obtain ⟨m, w₂, hwait, h⟩ := bind_eq_ret.mp h
    have hdrain := hcount.auraWait (fun w hw i hi => hw ▸ hi) 100 _ m w₂ hframe.ringCount hwait
    have hpos : 0 < m := by
      unfold auraWait at hwait
      rw [Prog.bind_apply, Prog.read_apply, Outcome.bind_ret, hown'] at hwait
      rcases waitGeneral_of_latched (by rwa [hne']) (calling_latching.callback depth) hwait with
        hpos | ⟨rfl, herr⟩
      · exact hpos
      · rw [Prog.bind_apply, getErrno, Prog.read_apply, Outcome.bind_ret, herr,
          if_pos ⟨by omega, by rwa [hne']⟩] at h
        cases (Outcome.ret.inj h).1
    rw [Prog.bind_apply, getErrno, Prog.read_apply, Outcome.bind_ret, if_neg (by omega)] at h
    obtain ⟨-, rfl⟩ := Outcome.ret.inj h
    obtain ⟨hrings, hload⟩ := h₁.trans hdrain
    exact ⟨hrings, by omega⟩

/-- A drain that goes on for ever: the world and the total before each of its iterations. -/
def DrainRun (env : Env) (depth : ℕ) (timeoutMs deadlineNs : ℤ) (s : ℕ → World × ℕ) : Prop :=
  ∀ n, drainOnce env (callback env depth) timeoutMs deadlineNs (s n).2 (s n).1 =
    .ret (.again (s (n + 1)).2) (s (n + 1)).1

/-- **With a latched error a drain on the general path of `aura_wait` does not go on for ever.** -/
theorem DrainRun.ends {timeoutMs deadlineNs : ℤ} {s : ℕ → World × ℕ} (henv : env.Refuses)
    (htime : timeoutMs < 0) (hown : ∀ n, (s n).1.ownRing = none)
    (hmed : ∀ n, (s n).1.engine.fatalSubmitErrno ≠ ETIMEDOUT) {k : ℕ}
    (hne : (s k).1.engine.fatalSubmitErrno ≠ 0) : ¬DrainRun env depth timeoutMs deadlineNs s := by
  intro hrun
  have hlatch := @calling_latching env
  set N := (s k).1.engine.ringCount
  have hload : ∀ n,
      (s (k + n)).1.engine.fatalSubmitErrno ≠ 0 ∧ Drains N n (s k).1 (s (k + n)).1 := by
    intro n
    induction n with
    | zero => exact ⟨hne, .of_rings rfl fun _ => le_rfl⟩
    | succ n ih =>
        obtain ⟨hne', hdrains⟩ := ih
        have hstep := hrun (k + n)
        have hstay := ((hlatch.drainOnce (hlatch.callback depth) timeoutMs deadlineNs
          (s (k + n)).2).ensures _ _ _ hstep).1 hne'
        have hone := drainOnce_drains henv htime hne' (hmed _) (hown _) hstep
        rw [hdrains.1] at hone
        exact ⟨by rwa [← Nat.add_assoc, hstay], hdrains.trans hone⟩
  have hbound := (hload ((s k).1.load N + 1)).2.2
  omega

/-- **Fatal submit errors are latched, and end drains, where they are looked at.** Along every run
of calls whose fatal failures are looked at, one that happened is latched and no later submission
gets through, whatever the thread did in between. A drain without a deadline then ends, if it is on
the general path of `aura_wait` and the error is not the one that means a time-out. -/
theorem fatal_submit_latched (env : Env) (depth : ℕ) :
    (∀ w w', Relation.ReflTransGen (LookedCall env depth) w w' → Fails w w' →
      w'.engine.fatalSubmitErrno ≠ 0 ∧ ∀ prog call args o w'',
        auraSubmit env (callback env depth) call args
          (runUser env (callback env depth) prog w').state = .ret o w'' → o = none) ∧
    ∀ timeoutMs deadlineNs s, env.Refuses → timeoutMs < 0 →
      (∀ n, (s n).1.ownRing = none ∧ (s n).1.engine.fatalSubmitErrno ≠ ETIMEDOUT ∧
        Looked (s 0).1 (s n).1) →
      (∃ n, Fails (s 0).1 (s n).1) → ¬DrainRun env depth timeoutMs deadlineNs s := by
  have hlatch := @calling_latching env
  have hcb := hlatch.callback depth
  refine ⟨fun w w' hrun hfail => ?_, fun timeoutMs deadlineNs s henv htime hs => ?_⟩
  · have hne := (LookedCall.latched hrun).2 hfail
    refine ⟨hne, fun prog call args o w'' h => auraSubmit_of_latched ?_ h⟩
    rw [(hlatch.runUser hcb prog w').1 hne]
    exact hne
  · rintro ⟨k, hfail⟩ hrun
    have hstays : ∀ n, Latching (s 0).1 (s n).1 := by
      intro n
      induction n with
      | zero => exact steady_latching.refl _
      | succ n ih =>
          exact ih.trans ((hlatch.drainOnce hcb timeoutMs deadlineNs _).ensures _ _ _ (hrun n))
    have hne := (hstays k).latched (hs k).2.2 hfail
    exact DrainRun.ends henv htime (fun n => (hs n).1) (fun n => (hs n).2.1) hne hrun

/-! ## Two engines on a kernel that refuses every submit -/

/-- The kernel refuses every submit with `EBADF`. -/
def refuseEnv : Env := { calmEnv with submit _ _ := .error ⟨9, by decide⟩ }

/-- A world in which a read is prepared on the only ring of an engine, but not submitted yet. -/
def queuedWorld (singleThread : Bool) : World :=
  (auraSubmit refuseEnv (callback refuseEnv 0) (.read 3 (.unregistered (some 2000)) 8 0) {}
    (.start (auraCreate { queueDepth := 4, singleThread } 4096 4))).state

/-- The world after `aura_flush`, on a ring with a lock. -/
def flushedWorld : World :=
  (apiCall refuseEnv (callback refuseEnv 0) .flush (queuedWorld false)).state

theorem flushedWorld_log :
    flushedWorld.log = (queuedWorld false).log ++ [.submitFailed .checked ⟨9, by decide⟩] := rfl

theorem looked_flushedWorld : Looked (queuedWorld false) flushedWorld := by
  refine .inr fun new hnew site e he _ => ?_
  rw [flushedWorld_log, List.append_cancel_left_eq] at hnew
  rw [← hnew] at he
  cases List.mem_singleton.mp he
  rfl

theorem fails_flushedWorld : Fails (queuedWorld false) flushedWorld :=
  ⟨_, flushedWorld_log, .checked, _, List.mem_singleton.mpr rfl, by decide⟩

/-- The flush of `aura_flush` latches the error, and a drain that follows it does not go on for
ever. -/
theorem fatal_submit_latched_flush :
    flushedWorld.engine.fatalSubmitErrno ≠ 0 ∧
      ¬DrainRun refuseEnv 0 (-1) 0 fun n =>
        (if n = 0 then queuedWorld false else flushedWorld, 0) := by
  have h := fatal_submit_latched refuseEnv 0
  have hcall : LookedCall refuseEnv 0 (queuedWorld false) flushedWorld :=
    ⟨looked_flushedWorld, .flush, .code (-1), rfl⟩
  have hrefl : Looked (queuedWorld false) (queuedWorld false) := by
    refine .inr fun new hnew site e he _ => ?_
    have hnil : new = [] := by simpa using hnew
    rw [hnil] at he
    cases he
  refine ⟨(h.1 _ _ (.single hcall) fails_flushedWorld).1, ?_⟩
  refine h.2 (-1) 0 _ (fun _ _ => ⟨_, rfl, by decide⟩) (by decide) ?_ ⟨1, fails_flushedWorld⟩
  intro n
  cases n with
  | zero => exact ⟨rfl, by decide, hrefl⟩
  | succ n =>
      have hmed : flushedWorld.engine.fatalSubmitErrno ≠ ETIMEDOUT := by decide
      exact ⟨rfl, hmed, looked_flushedWorld⟩

/-- On the only ring of a single-threaded engine `aura_poll` flushes without looking: the submit
fails, nothing is latched, and the next submission gets through. -/
theorem fatal_submit_unlatched :
    ∃ w r w', apiCall refuseEnv (callback refuseEnv 0) .poll (queuedWorld true) = .ret (.code 0) w ∧
      Fails (queuedWorld true) w ∧ w.engine.fatalSubmitErrno = 0 ∧
      auraSubmit refuseEnv (callback refuseEnv 0) (.read 3 (.unregistered (some 2000)) 8 0) {} w =
        .ret (some r) w' := by
  refine ⟨_, _, _, rfl, ?_, by decide, rfl⟩
  exact ⟨[.submitFailed .fast ⟨9, by decide⟩], rfl, .fast, _, List.mem_singleton.mpr rfl, by decide⟩

end Aura
