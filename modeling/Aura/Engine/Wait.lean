import Aura.Engine.Count
import Aura.Engine.Latch

/-!
# The return contract of `aura_wait`

`aura_wait` promises the number of completions it processed, `0` when nothing was pending, and
`ETIMEDOUT` when operations were pending and none completed (`WaitContract`).

* `waitGeneral_contract` — the general path keeps the promise.
* `waitOwn_contract_iff` — the paths of a thread on its own ring return what `ring_wait` returns,
  where a time-out is `0`. They keep the promise unless something is pending and no completion of
  that ring is there or arrives in time.
* **`auraWait_contract_iff`** — both together.
-/

namespace Aura

open Lib Lib.Prog

variable {env : Env} {cb : Callback} {depth : ℕ} {w w' w'' : World} {i : ℕ}

/-! ## The contract -/

/-- The event is a processed completion at callback depth `d`. -/
def LogEvent.completionAt (d : ℕ) : LogEvent → Bool
  | .completion d' _ _ => d' = d
  | _ => false

/-- The completions processed from `w` to `w'` at the depth of `w`, without those that callbacks
processed meanwhile. -/
def World.processed (w w' : World) : ℕ :=
  (w'.log.drop w.log.length).countP (·.completionAt w.tls.callbackContextDepth)

/-- The promise of `aura_wait` for a call that returned `m`. -/
def WaitContract (w : World) (m : ℤ) (w' : World) : Prop :=
  if 0 < w.processed w' then m = w.processed w'
  else if w.engine.hasPending then m = -1 ∧ w'.tls.errno = ETIMEDOUT
  else m = 0

/-- From `w` to `w'`, `k` completions were processed at the depth of `w`. -/
def Processes (k : ℕ) (w w' : World) : Prop :=
  w'.tls.callbackContextDepth = w.tls.callbackContextDepth ∧ ∃ new, w'.log = w.log ++ new ∧
    new.countP (·.completionAt w.tls.callbackContextDepth) = k

theorem Processes.processed_eq {k : ℕ} (h : Processes k w w') : w.processed w' = k := by
  obtain ⟨-, new, hnew, hk⟩ := h
  rw [World.processed, hnew, List.drop_left, hk]

theorem Processes.of_log_eq (hdepth : w'.tls.callbackContextDepth = w.tls.callbackContextDepth)
    (hlog : w'.log = w.log) : Processes 0 w w' := ⟨hdepth, [], by simpa using hlog, rfl⟩

theorem Processes.add {j k : ℕ} (h : Processes j w w') (h' : Processes k w' w'') :
    Processes (j + k) w w'' := by
  obtain ⟨hdepth, new, hnew, hj⟩ := h
  obtain ⟨hdepth', new', hnew', hk⟩ := h'
  rw [hdepth] at hk
  refine ⟨hdepth'.trans hdepth, new ++ new', by rw [hnew', hnew, List.append_assoc], ?_⟩
  rw [List.countP_append, hj, hk]

theorem moving_processes : Moving fun (α : Type) (p : AuraM α) => Ensures (Processes 0) p :=
  .of_ensures (fun _ => .of_log_eq rfl rfl) (fun h h' => h.add h')
    fun h => .of_log_eq h.depth_eq h.log_eq

/-- A processed completion counts one; whatever its callback does happens deeper. -/
theorem processes_processCqe (depth i : ℕ) (c : Cqe) :
    Ensures (Processes 1) (processCqe env (callback env depth) i c) := by
  intro w e w' h
  obtain ⟨_, w₁, hw₁, h⟩ := bind_eq_ret.mp h
  obtain ⟨-, rfl⟩ := Outcome.ret.inj hw₁
  have hone : Processes 1 w
      { w with log := w.log ++ [.completion w.tls.callbackContextDepth i c] } :=
    ⟨rfl, _, rfl, by simp [LogEvent.completionAt]⟩
  refine hone.add (k := 0) ?_
  obtain ⟨⟨e', q⟩, w₂, hw₂, h⟩ := bind_eq_ret.mp h
  have hmove := moving_processes.moves.update
    (fun _ => .single (.ring i (.process (env.now _) c.req c.res))) _ _ _ hw₂
  refine hmove.add (k := 0) ?_
  cases q with
  | none =>
      obtain ⟨-, rfl⟩ := Outcome.ret.inj h
      exact .of_log_eq rfl rfl
  | some q =>
      obtain ⟨_, w₃, hw₃, h⟩ := bind_eq_ret.mp h
      obtain ⟨-, rfl⟩ := Outcome.ret.inj h
      obtain ⟨hdepth, new, hnew, hn⟩ := invokeCallback_nested (calling_nested.callback depth) hw₃
      refine ⟨hdepth, new, hnew, List.countP_eq_zero.mpr fun ev hev => ?_⟩
      cases ev with
      | completion d j c' =>
          rcases hn _ hev d rfl with hlt | heq
          · simpa [LogEvent.completionAt] using hlt.ne'
          · cases heq
      | _ => simp [LogEvent.completionAt]

/-- **`aura_wait` and what it is made of return the number of completions they process.** -/
theorem counted_processes (env : Env) (depth : ℕ) :
    Counted env (callback env depth) (fun _ => True) (fun _ => True) fun _ => Processes := by
  have h := moving_processes
  have hsubmit : ∀ site i, Ensures (Processes 0) (ioUringSubmit env site i) := fun site i =>
    h.ioUringSubmit
      (fun e => Keeps.ensures fun _ => ⟨rfl, [.submitFailed site e], rfl, rfl⟩)
      (fun _ _ => Keeps.ensures fun _ => .of_log_eq rfl rfl) i
  exact {
    moving := h
    latching := fun i => h.ringFlushLatching (hsubmit .checked i)
    fast := fun i => h.flushQueued (hsubmit .fast i)
    finalize := fun w n w' hs => by
      obtain ⟨e, -, rfl⟩ := maybeFinalizeDeferredUnregistration_frame hs
      exact .of_log_eq rfl rfl
    add := Processes.add
    bound := fun _ _ => trivial
    reap := fun _ _ => .of_log_eq rfl rfl
    process := processes_processCqe depth }

/-! ## Nothing but the kernel's turns -/

/-- The completions that the kernel has posted on the ring so far. -/
def RingCtx.posted (r : RingCtx) : ℤ := r.handed.length - r.inKernel.length

/-- Nothing was reaped from the ring or retired on it: what was posted is in the queue. -/
structure RingCtx.Idle (r r' : RingCtx) : Prop where
  pending : r'.pendingCount = r.pendingCount
  initialized : r'.ringInitialized = r.ringInitialized
  batch : r'.pollBatchSize = r.pollBatchSize
  balance : r'.posted + r.cq.length = r.posted + r'.cq.length
  mono : r.posted ≤ r'.posted

/-- Nothing was reaped or retired on any ring. -/
structure Idle (w w' : World) : Prop where
  ringCount : w'.engine.ringCount = w.engine.ringCount
  rings : ∀ i, (w.ring i).Idle (w'.ring i)

theorem RingCtx.Idle.refl (r : RingCtx) : r.Idle r := ⟨rfl, rfl, rfl, rfl, le_rfl⟩

theorem Idle.refl (w : World) : Idle w w := ⟨rfl, fun _ => .refl _⟩

theorem Idle.trans (h : Idle w w') (h' : Idle w' w'') : Idle w w'' := by
  refine ⟨h'.ringCount.trans h.ringCount, fun i => ?_⟩
  obtain ⟨hp, hi, hb, hbal, hmono⟩ := h.rings i
  obtain ⟨hp', hi', hb', hbal', hmono'⟩ := h'.rings i
  exact ⟨hp'.trans hp, hi'.trans hi, hb'.trans hb, by omega, hmono.trans hmono'⟩

theorem Idle.of_rings (hcount : w'.engine.ringCount = w.engine.ringCount)
    (h : w'.engine.rings = w.engine.rings) : Idle w w' := by
  refine ⟨hcount, fun i => ?_⟩
  rw [World.ring, World.ring, h]
  exact .refl _

theorem Idle.of_setRing {r : RingCtx} (h : (w.ring i).Idle r) : Idle w (w.setRing i r) := by
  refine ⟨rfl, fun j => ?_⟩
  rw [World.setRing_ring]
  split
  · next hj => rwa [hj]
  · exact .refl _

theorem RingQuiet.idle {r r' : RingCtx} (h : RingQuiet r r') : r.Idle r' := by
  cases h with
  | post k res =>
      unfold RingCtx.kernelPost
      split
      · exact .refl r
      · next sqe hk =>
          have hlt := (List.getElem?_eq_some_iff.mp hk).1
          have hposted : (List.length (r.inKernel.eraseIdx k)) + 1 = r.inKernel.length := by
            rw [List.length_eraseIdx_of_lt hlt]
            omega
          refine ⟨rfl, rfl, rfl, ?_, ?_⟩ <;>
            simp only [RingCtx.posted, List.length_append, List.length_singleton] <;> omega
  | _ => exact ⟨rfl, rfl, rfl, rfl, le_rfl⟩

theorem quietly_idle : Quietly fun (α : Type) (p : AuraM α) => Ensures Idle p := by
  refine .of_ensures Idle.refl Idle.trans fun h => ?_
  cases h with
  | ring i h => exact .of_setRing h.idle
  | engine h => exact .of_rings h.ringCount h.rings
  | tls h => exact .of_rings rfl rfl
  | tick => exact .of_rings rfl rfl

/-- Flushing hands entries over, and that is all. -/
theorem idle_ioUringSubmit (site : FlushSite) (i : ℕ) :
    Ensures Idle (ioUringSubmit env site i) := by
  refine quietly_idle.ioUringSubmit (fun e => Keeps.ensures fun _ => .of_rings rfl rfl)
    (fun j k => Keeps.ensures fun w => .of_setRing ⟨rfl, rfl, rfl, ?_, ?_⟩) i <;>
  · simp only [RingCtx.posted, RingCtx.kernelAccept, List.length_append, List.length_take]
    omega

theorem idle_ringLock (i : ℕ) : Ensures Idle (ringLock i) := by
  intro w st w' h
  unfold ringLock at h
  rw [await_apply] at h
  cases hlock : (w.ring i).lock with
  | none => simp [hlock] at h
  | some p =>
      simp only [hlock, Option.map_some, Outcome.ret.injEq] at h
      obtain ⟨-, rfl⟩ := h
      refine .of_setRing ?_
      rcases RingCtx.lock_eq_some.mp hlock with ⟨-, -, hr⟩ | ⟨-, -, -, hr⟩ <;>
        rw [hr] <;> exact ⟨rfl, rfl, rfl, rfl, le_rfl⟩

theorem idle_ringUnlock (i : ℕ) (st : Bool) : Ensures Idle (ringUnlock i st) :=
  Keeps.ensures fun w => .of_setRing (by cases st <;> exact ⟨rfl, rfl, rfl, rfl, le_rfl⟩)

theorem idle_ringCqLock (i : ℕ) : Ensures Idle (ringCqLock i) := by
  intro w st w' h
  unfold ringCqLock at h
  rw [await_apply] at h
  cases hlock : (w.ring i).cqLock with
  | none => simp [hlock] at h
  | some p =>
      simp only [hlock, Option.map_some, Outcome.ret.injEq] at h
      obtain ⟨-, rfl⟩ := h
      refine .of_setRing ?_
      unfold RingCtx.cqLock at hlock
      split_ifs at hlock <;> cases hlock <;> exact ⟨rfl, rfl, rfl, rfl, le_rfl⟩

theorem idle_ringCqUnlock (i : ℕ) (st : Bool) : Ensures Idle (ringCqUnlock i st) :=
  Keeps.ensures fun w => .of_setRing (by cases st <;> exact ⟨rfl, rfl, rfl, rfl, le_rfl⟩)

/-! ## Drains that find nothing -/

/-- A look that finds nothing leaves an empty queue. -/
theorem reapCqe_none (h : reapCqe env i w = .ret none w') : Idle w w' ∧ (w'.ring i).cq = [] := by
  rw [reapCqe_apply] at h
  obtain ⟨hhead, rfl⟩ := Outcome.ret.inj h
  have hnil := List.head?_eq_none_iff.mp hhead
  have hturn : Idle w (w.turn env) := quietly_idle.kernelTurn w () _ rfl
  refine ⟨hturn.trans (.of_setRing ⟨rfl, rfl, rfl, ?_, le_rfl⟩), ?_⟩
  · simp [RingCtx.cqeSeen, RingCtx.posted, hnil]
  · simp [RingCtx.cqeSeen, hnil]

/-- The batched drain returns at least what it has counted already. -/
theorem drainLoop_le {fuel n m : ℕ} (h : drainLoop env cb i fuel n w = .ret m w') : n ≤ m := by
  induction fuel generalizing w n with
  | zero => cases h
  | succ fuel ih =>
      obtain ⟨size, w₁, -, h⟩ := bind_eq_ret.mp h
      obtain ⟨cqSt, w₂, -, h⟩ := bind_eq_ret.mp h
      obtain ⟨batch, w₃, -, h⟩ := bind_eq_ret.mp h
      obtain ⟨_, w₄, -, h⟩ := bind_eq_ret.mp h
      rw [Prog.ite_apply] at h
      split at h
      · obtain ⟨rfl, -⟩ := Outcome.ret.inj h
        exact le_rfl
      · obtain ⟨es, w₅, -, h⟩ := bind_eq_ret.mp h
        obtain ⟨st, w₆, -, h⟩ := bind_eq_ret.mp h
        obtain ⟨_, w₇, -, h⟩ := bind_eq_ret.mp h
        obtain ⟨_, w₈, -, h⟩ := bind_eq_ret.mp h
        have := ih h
        omega

theorem drainFastLoop_le {fuel n m : ℕ} (h : drainFastLoop env cb i fuel n w = .ret m w') :
    n ≤ m := by
  induction fuel generalizing w n with
  | zero => cases h
  | succ fuel ih =>
      obtain ⟨c, w₁, -, h⟩ := bind_eq_ret.mp h
      cases c with
      | none =>
          obtain ⟨rfl, -⟩ := Outcome.ret.inj h
          exact le_rfl
      | some c =>
          obtain ⟨e, w₂, -, h⟩ := bind_eq_ret.mp h
          obtain ⟨_, w₃, -, h⟩ := bind_eq_ret.mp h
          have := ih h
          omega

/-- A batched drain that reaped nothing found nothing. -/
theorem ringDrainCqes_zero (hbatch : 0 < (w.ring i).pollBatchSize)
    (h : ringDrainCqes env cb i w = .ret 0 w') : Idle w w' ∧ (w'.ring i).cq = [] := by
  obtain ⟨size, w₁, hsize, h⟩ := bind_eq_ret.mp h
  obtain ⟨rfl, rfl⟩ := Outcome.ret.inj hsize
  obtain ⟨k, hk⟩ := Nat.exists_eq_add_of_lt hbatch
  obtain ⟨cqSt, w₂, hlock, h⟩ := bind_eq_ret.mp h
  obtain ⟨batch, w₃, hreap, h⟩ := bind_eq_ret.mp h
  obtain ⟨_, w₄, hunlock, h⟩ := bind_eq_ret.mp h
  rw [Prog.ite_apply] at h
  split at h
  · next hnil =>
      obtain ⟨-, rfl⟩ := Outcome.ret.inj h
      dsimp only at hreap
      rw [hnil, hk, Nat.zero_add] at hreap
      obtain ⟨c, w₅, hc, hrest⟩ := bind_eq_ret.mp hreap
      cases c with
      | none =>
          obtain ⟨-, rfl⟩ := Outcome.ret.inj hrest
          obtain ⟨hidle, hcq⟩ := reapCqe_none hc
          have hlast := idle_ringCqUnlock i cqSt _ _ _ hunlock
          refine ⟨((idle_ringCqLock i _ _ _ hlock).trans hidle).trans hlast, ?_⟩
          obtain ⟨-, rfl⟩ := Outcome.ret.inj hunlock
          rw [World.setRing_self]
          cases cqSt <;> exact hcq
      | some c =>
          obtain ⟨cs, w₆, -, hpure⟩ := bind_eq_ret.mp hrest
          cases (Outcome.ret.inj hpure).1
  · next hne =>
      obtain ⟨es, w₅, -, h⟩ := bind_eq_ret.mp h
      obtain ⟨st, w₆, -, h⟩ := bind_eq_ret.mp h
      obtain ⟨_, w₇, -, h⟩ := bind_eq_ret.mp h
      obtain ⟨_, w₈, -, h⟩ := bind_eq_ret.mp h
      have hle := drainLoop_le h
      exact absurd (List.length_eq_zero_iff.mp (by omega)) hne

/-- A fast drain that reaped nothing found nothing. -/
theorem ringDrainCqesFast_zero (hinit : (w.ring i).ringInitialized = true)
    (h : ringDrainCqesFast env cb i w = .ret 0 w') : Idle w w' ∧ (w'.ring i).cq = [] := by
  unfold ringDrainCqesFast readRing at h
  rw [Prog.bind_apply, Prog.read_apply, Outcome.bind_ret] at h
  dsimp only at h
  rw [if_neg (by simp [hinit])] at h
  obtain ⟨c, w₁, hc, h⟩ := bind_eq_ret.mp h
  cases c with
  | none =>
      obtain ⟨-, rfl⟩ := Outcome.ret.inj h
      exact reapCqe_none hc
  | some c =>
      obtain ⟨e, w₂, -, h⟩ := bind_eq_ret.mp h
      obtain ⟨_, w₃, -, h⟩ := bind_eq_ret.mp h
      have hle := drainFastLoop_le h
      omega

/-- The rings of the engine are as `ring_init` leaves them: initialized, with a positive batch
size. -/
def World.Ready (w : World) : Prop :=
  ∀ i < w.engine.ringCount, (w.ring i).ringInitialized = true ∧ 0 < (w.ring i).pollBatchSize

theorem Idle.ready (h : Idle w w') (hw : w.Ready) : w'.Ready := by
  intro i hi
  rw [h.ringCount] at hi
  rw [(h.rings i).initialized, (h.rings i).batch]
  exact hw i hi

theorem ringPoll_zero (hw : w.Ready) (hi : i < w.engine.ringCount)
    (h : ringPoll env cb i w = .ret 0 w') : Idle w w' ∧ (w'.ring i).cq = [] := by
  obtain ⟨hinit, hbatch⟩ := hw i hi
  obtain ⟨r, w₁, hr, h⟩ := bind_eq_ret.mp h
  obtain ⟨rfl, rfl⟩ := Outcome.ret.inj hr
  rw [if_neg (by simp [hinit]), Prog.ite_apply] at h
  split at h
  · exact ringDrainCqesFast_zero hinit h
  · exact ringDrainCqes_zero hbatch h

/-! ## A kernel without surprises -/

/-- Waits end with a completion, a time-out or a signal. -/
def Env.OnlyInterrupts (env : Env) : Prop := ∀ clock e, env.wait clock = some e → e.1 = EINTR

/-- No submit fails fatally. -/
def Env.SubmitsSoftly (env : Env) : Prop :=
  ∀ site clock e, env.submit site clock = .error e → flushErrorIsFatal e = false

theorem flushRingChecked_eq_false (henv : env.SubmitsSoftly) {b : Bool}
    (h : flushRingChecked env i w = .ret b w') : b = false := by
  obtain ⟨status, w₁, hstatus, h⟩ := bind_eq_ret.mp h
  obtain ⟨n, w₂, hn, hstatus⟩ := bind_eq_ret.mp hstatus
  rw [Prog.bind_apply, getErrno, Prog.read_apply, Outcome.bind_ret, Prog.ite_apply] at hstatus
  obtain ⟨-, ⟨hpos, -⟩ | ⟨e, rfl, herr, -, clock, hsubmit⟩⟩ := ringFlush_outcome hn
  · rw [if_pos hpos] at hstatus
    obtain ⟨rfl, rfl⟩ := Outcome.ret.inj hstatus
    exact (Outcome.ret.inj h).1.symm
  · have hsoft := henv .checked clock e hsubmit
    rw [if_neg (by omega), herr, Prog.ite_apply, if_neg (by simp [hsoft])] at hstatus
    obtain ⟨rfl, rfl⟩ := Outcome.ret.inj hstatus
    exact (Outcome.ret.inj h).1.symm

theorem idle_flushRingChecked (i : ℕ) : Ensures Idle (flushRingChecked env i) :=
  quietly_idle.bind (quietly_idle.ringFlushLatching (idle_ioUringSubmit .checked i)) fun
    | .ok => quietly_idle.pure _
    | .retry => quietly_idle.andThen (quietly_idle.setErrno _) (quietly_idle.pure _)
    | .fatal => quietly_idle.pure _

/-- What a wait for a completion returns. -/
def WaitCode (ret : ℤ) : Prop := ret = 0 ∨ ret = -ETIME ∨ ret = -EINTR

theorem waitCqe_code (henv : env.OnlyInterrupts) {ret : ℤ} (h : waitCqe env i w = .ret ret w') :
    WaitCode ret := by
  obtain ⟨c, w₁, -, h⟩ := bind_eq_ret.mp h
  rw [Prog.bind_apply, Prog.read_apply, Outcome.bind_ret, Prog.ite_apply] at h
  split at h
  · obtain ⟨rfl, -⟩ := Outcome.ret.inj h
    exact .inl rfl
  · cases hwait : env.wait w₁.clock with
    | none =>
        rw [hwait] at h
        obtain ⟨rfl, -⟩ := Outcome.ret.inj h
        exact .inr (.inl rfl)
    | some e =>
        rw [hwait] at h
        obtain ⟨rfl, -⟩ := Outcome.ret.inj h
        exact .inr (.inr (by rw [henv _ e hwait]))

theorem waitForever_code (henv : env.OnlyInterrupts) {fuel : ℕ} {ret : ℤ}
    (h : waitForever env i fuel w = .ret ret w') : WaitCode ret := by
  induction fuel generalizing w with
  | zero => cases h
  | succ fuel ih =>
      obtain ⟨ret', w₁, hret, h⟩ := bind_eq_ret.mp h
      obtain ⟨r, w₂, -, h⟩ := bind_eq_ret.mp h
      have hcode := waitCqe_code henv hret
      simp only [Prog.ite_apply] at h
      split_ifs at h
      · rwa [← (Outcome.ret.inj h).1]
      · rwa [← (Outcome.ret.inj h).1]
      · rwa [← (Outcome.ret.inj h).1]
      · exact ih h

/-! ## Waiting on one ring -/

/-- The drains return no less than zero. -/
theorem natCast_eq_ret {p : AuraM ℕ} {m : ℤ} (hm : m ≤ 0)
    (h : (do let n ← p; pure (n : ℤ)) w = .ret m w') : m = 0 ∧ p w = .ret 0 w' := by
  obtain ⟨n, w₁, hn, h⟩ := bind_eq_ret.mp h
  obtain ⟨rfl, rfl⟩ := Outcome.ret.inj h
  have hzero : n = 0 := by omega
  rw [hzero] at hn ⊢
  exact ⟨rfl, hn⟩

/-- A `ring_wait` that reaped nothing returns zero: nothing is pending on the ring, or it looked and
found nothing. -/
theorem ringWait_zero (henv : env.OnlyInterrupts) (hw : w.Ready) (hi : i < w.engine.ringCount)
    {timeoutMs m : ℤ} (hm : m ≤ 0) (h : ringWait env cb i timeoutMs w = .ret m w') :
    m = 0 ∧ Idle w w' ∧ ((w.ring i).pendingCount = 0 ∧ w' = w ∨ (w'.ring i).cq = []) := by
  obtain ⟨hinit, hbatch⟩ := hw i hi
  obtain ⟨r, w₁, hr, h⟩ := bind_eq_ret.mp h
  obtain ⟨rfl, rfl⟩ := Outcome.ret.inj hr
  rw [if_neg (by simp [hinit]), Prog.ite_apply] at h
  split at h
  · next hpending =>
      obtain ⟨rfl, rfl⟩ := Outcome.ret.inj h
      exact ⟨rfl, .refl _, .inl ⟨hpending, rfl⟩⟩
  · rw [Prog.ite_apply] at h
    split at h
    · obtain ⟨hm₀, hrun⟩ := natCast_eq_ret hm h
      rw [Prog.ite_apply] at hrun
      have hzero : Idle w w' ∧ (w'.ring i).cq = [] := by
        split at hrun
        · exact ringDrainCqesFast_zero hinit hrun
        · exact ringDrainCqes_zero hbatch hrun
      exact ⟨hm₀, hzero.1, .inr hzero.2⟩
    · obtain ⟨cqSt, w₂, hlock, h⟩ := bind_eq_ret.mp h
      obtain ⟨c, w₃, hc, h⟩ := bind_eq_ret.mp h
      obtain ⟨_, w₄, hunlock, h⟩ := bind_eq_ret.mp h
      have hidle : Idle w w₄ := ((idle_ringCqLock i _ _ _ hlock).trans
        (quietly_idle.peekCqe i _ _ _ hc)).trans (idle_ringCqUnlock i _ _ _ _ hunlock)
      have hdrain : ∀ {w₅ : World}, Idle w w₅ → ringDrainCqes env cb i w₅ = .ret 0 w' →
          Idle w w' ∧ (w'.ring i).cq = [] := by
        intro w₅ hidle' h₅
        obtain ⟨hlast, hcq⟩ := ringDrainCqes_zero (by rwa [(hidle'.rings i).batch]) h₅
        exact ⟨hidle'.trans hlast, hcq⟩
      rw [Prog.ite_apply] at h
      split at h
      · obtain ⟨hm₀, hrun⟩ := natCast_eq_ret hm h
        obtain ⟨hlast, hcq⟩ := hdrain hidle hrun
        exact ⟨hm₀, hlast, .inr hcq⟩
      · obtain ⟨ret, w₅, hret, h⟩ := bind_eq_ret.mp h
        have hidle' : Idle w w₅ := hidle.trans
          (quietly_idle.ite (quietly_idle.waitForever i _) (quietly_idle.waitCqe i) _ _ _ hret)
        have hcode : WaitCode ret := by
          rw [Prog.ite_apply] at hret
          split at hret
          · exact waitForever_code henv hret
          · exact waitCqe_code henv hret
        unfold ringWaitDrain at h
        rw [Prog.ite_apply, if_neg (by rcases hcode with rfl | rfl | rfl <;> simp)] at h
        obtain ⟨hm₀, hrun⟩ := natCast_eq_ret hm h
        obtain ⟨hlast, hcq⟩ := hdrain hidle' hrun
        exact ⟨hm₀, hlast, .inr hcq⟩

/-! ## The paths of a thread on its own ring -/

theorem idle_finalize : Ensures Idle maybeFinalizeDeferredUnregistration := by
  intro w n w' h
  obtain ⟨e, ⟨hframe, -⟩, rfl⟩ := maybeFinalizeDeferredUnregistration_frame h
  exact .of_rings hframe.ringCount hframe.rings

theorem idle_flushOwn (i : ℕ) : Ensures Idle (flushOwn env i) := by
  have h := quietly_idle
  refine h.bind (h.readRing i _) fun st => h.ite ?_ ?_
  · exact h.andThen (h.flushQueued (idle_ioUringSubmit .fast i)) (h.pure _)
  · exact h.bind (idle_ringLock i) fun st =>
      h.andThen (idle_flushRingChecked i) (idle_ringUnlock i st)

theorem idle_finalizeOwn : Ensures Idle finalizeOwn :=
  quietly_idle.bind (quietly_idle.read _) fun _ =>
    quietly_idle.when (quietly_idle.andThen idle_finalize (quietly_idle.pure _))

/-- A poll of the own ring that reaped nothing found nothing. -/
theorem pollOwn_zero (hw : w.Ready) (hi : i < w.engine.ringCount)
    (h : pollOwn env cb i w = .ret 0 w') : Idle w w' ∧ (w'.ring i).cq = [] := by
  obtain ⟨_, w₁, hflush, h⟩ := bind_eq_ret.mp h
  have hidle := idle_flushOwn i _ _ _ hflush
  obtain ⟨n, w₂, hpoll, h⟩ := bind_eq_ret.mp h
  obtain ⟨_, w₃, hfin, h⟩ := bind_eq_ret.mp h
  obtain ⟨rfl, rfl⟩ := Outcome.ret.inj h
  obtain ⟨hidle', hcq⟩ := ringPoll_zero (hidle.ready hw) (by rwa [hidle.ringCount]) hpoll
  refine ⟨(hidle.trans hidle').trans (idle_finalizeOwn _ _ _ hfin), ?_⟩
  have hrings : w₃.ring i = w₂.ring i := by
    unfold finalizeOwn at hfin
    rw [Prog.bind_apply, Prog.read_apply, Outcome.bind_ret] at hfin
    cases hpending : w₂.engine.buffersUnregPending || w₂.engine.filesUnregPending with
    | false =>
        rw [hpending] at hfin
        rw [← (Outcome.ret.inj hfin).2]
    | true =>
        rw [hpending] at hfin
        obtain ⟨m, w₄, hfin', hpure⟩ := bind_eq_ret.mp hfin
        obtain ⟨-, rfl⟩ := Outcome.ret.inj hpure
        obtain ⟨e, ⟨hframe, -⟩, rfl⟩ := maybeFinalizeDeferredUnregistration_frame hfin'
        rw [World.ring, hframe.rings]
        rfl
  rwa [hrings]

/-- A wait on the own ring that reaped nothing returns zero, with nothing left in the queue. -/
theorem waitOwn_zero (henv : env.OnlyInterrupts) (hw : w.Ready) (hi : i < w.engine.ringCount)
    {timeoutMs m : ℤ} (hm : m ≤ 0) (h : waitOwn env cb i timeoutMs w = .ret m w') :
    m = 0 ∧ Idle w w' ∧ (w'.ring i).cq = [] := by
  obtain ⟨n, w₁, hpoll, h⟩ := bind_eq_ret.mp h
  rw [Prog.ite_apply] at h
  split at h
  · obtain ⟨rfl, rfl⟩ := Outcome.ret.inj h
    omega
  · next hn =>
      have hzero : n = 0 := by omega
      rw [hzero] at hpoll
      obtain ⟨hidle, hcq⟩ := pollOwn_zero hw hi hpoll
      obtain ⟨hm₀, hidle', hlast⟩ :=
        ringWait_zero henv (hidle.ready hw) (by rwa [hidle.ringCount]) hm h
      refine ⟨hm₀, hidle.trans hidle', ?_⟩
      rcases hlast with ⟨-, rfl⟩ | hlast
      · exact hcq
      · exact hlast

/-- Reaping takes completions that were in the queue or arrived meanwhile. -/
def Supplied (i a : ℕ) (w w' : World) : Prop :=
  (w.ring i).posted + (w'.ring i).cq.length + a ≤ (w'.ring i).posted + (w.ring i).cq.length

theorem Supplied.add {a b : ℕ} (h : Supplied i a w w') (h' : Supplied i b w' w'') :
    Supplied i (a + b) w w'' := by
  unfold Supplied at *
  push_cast
  omega

theorem Supplied.of_load {a : ℕ} (hhanded : (w'.ring i).handed = (w.ring i).handed)
    (hload : (w'.ring i).load + a ≤ (w.ring i).load) : Supplied i a w w' := by
  unfold Supplied RingCtx.posted
  unfold RingCtx.load at hload
  rw [hhanded]
  omega

theorem Supplied.of_rings (h : w'.engine.rings = w.engine.rings) : Supplied i 0 w w' := by
  refine .of_load ?_ ?_ <;> simp [World.ring, h]

theorem Supplied.of_setRing {j : ℕ} {r : RingCtx} (hhanded : r.handed = (w.ring j).handed)
    (hload : r.load ≤ (w.ring j).load) : Supplied i 0 w (w.setRing j r) := by
  refine .of_load ?_ ?_ <;> rw [World.setRing_ring]
  · split
    · next hij => rw [hij, hhanded]
    · rfl
  · split
    · next hij => rwa [hij]
    · exact le_rfl

theorem steady_supplied (i : ℕ) : Steady (Supplied i 0) where
  refl _ := .of_rings rfl
  trans h h' := h.add h'
  move h := by
    cases h with
    | quiet h =>
        cases h with
        | ring j h => exact .of_setRing h.frame_load.1.handed h.frame_load.2
        | engine h => exact .of_rings h.rings
        | tls h => exact .of_rings rfl
        | tick => exact .of_rings rfl
    | ring j h => exact .of_setRing h.frame_load.1.handed h.frame_load.2
    | tls _ _ => exact .of_rings rfl
    | mark m => exact .of_rings rfl
  submitted w j op r h := by
    obtain ⟨sqe, o, t, sc, -, -, rfl⟩ := h
    exact .of_setRing rfl le_rfl
  link _ _ _ := .of_setRing rfl le_rfl
  lastSqe _ _ := .of_rings rfl
  log _ _ _ := .of_rings rfl

theorem supplied_ioUringSubmit (site : FlushSite) (i j : ℕ) :
    Keeps (Supplied i 0) (ioUringSubmit env site j) := by
  refine (steady_supplied i).moving.ioUringSubmit (fun e _ => .of_rings rfl) (fun j k w => ?_) j
  change Supplied i 0 w (w.setRing j _)
  unfold Supplied RingCtx.posted
  rw [World.setRing_ring]
  split
  · next hij =>
      simp only [hij, RingCtx.kernelAccept, List.length_append, List.length_take]
      omega
  · omega

theorem calling_supplied (i : ℕ) :
    Calling env fun (α : Type) (p : AuraM α) => Keeps (Supplied i 0) p := by
  have h := steady_supplied i
  refine h.calling (fun _ _ hreg => .of_rings hreg.rings)
    (fun hcb => keeps_invokeCallback h.refl h.trans (fun _ _ _ _ => .of_rings rfl)
      (fun _ _ => .of_rings rfl) hcb) ?_ ?_ ?_
  · exact fun j => h.moving.ringFlushLatching (supplied_ioUringSubmit .checked i j)
  · exact fun j => h.moving.flushQueued (supplied_ioUringSubmit .fast i j)
  · exact fun j => h.moving.ringFlush (supplied_ioUringSubmit .abort i j)

/-- What a wait on ring `i` reaps was there or arrived. -/
theorem counted_supplied (depth i : ℕ) :
    Counted env (callback env depth) (fun _ => True) (· = i) fun a _ => Supplied i a := by
  have h := @calling_supplied env i
  have hcb := h.callback depth
  exact {
    moving := .of_ensures (steady_supplied i).refl (steady_supplied i).trans
      (steady_supplied i).move
    latching := fun j => (h.latching j).ensures
    fast := fun j => (h.fast j).ensures
    finalize := h.finalize.ensures
    add := Supplied.add
    bound := fun _ _ => trivial
    reap := fun {w j} hj hcq => by
      have hpos := List.length_pos_iff.mpr hcq
      subst hj
      refine .of_load ?_ ?_ <;> rw [World.setRing_self]
      · rfl
      · simp only [RingCtx.load, RingCtx.cqeSeen, List.length_tail]
        omega
    process := fun j c => (h.processCqe hcb j c).ensures }

/-- Some completion of ring `i` was ready in `w`, or the kernel posted one until `w'`. -/
def Arrives (i : ℕ) (w w' : World) : Prop :=
  (w.ring i).cq ≠ [] ∨ (w.ring i).posted < (w'.ring i).posted

/-- **On the paths of a thread on its own ring the contract holds unless something is pending and
nothing arrives.** -/
theorem waitOwn_contract_iff (henv : env.OnlyInterrupts) (hw : w.Ready)
    (hi : i < w.engine.ringCount) {timeoutMs m : ℤ}
    (h : waitOwn env (callback env depth) i timeoutMs w = .ret m w') :
    WaitContract w m w' ↔ (w.engine.hasPending = false ∨ Arrives i w w') := by
  have hcount : Processes m.toNat w w' :=
    (counted_processes env depth).waitOwn trivial timeoutMs w m w' trivial h
  have hsupply : Supplied i m.toNat w w' :=
    (counted_supplied depth i).waitOwn rfl timeoutMs w m w' trivial h
  unfold WaitContract
  rw [hcount.processed_eq]
  by_cases hm : 0 < m
  · have harrives : Arrives i w w' := by
      unfold Supplied at hsupply
      by_cases hcq : (w.ring i).cq = []
      · rw [hcq] at hsupply
        exact .inr (by simp only [List.length_nil] at hsupply; omega)
      · exact .inl hcq
    rw [if_pos (by omega)]
    exact ⟨fun _ => .inr harrives, fun _ => by omega⟩
  · obtain ⟨rfl, hidle, hcq⟩ := waitOwn_zero henv hw hi (by omega) h
    have hbal := (hidle.rings i).balance
    have harrives : ¬Arrives i w w' := by
      have hmono := (hidle.rings i).mono
      rw [hcq] at hbal
      simp only [List.length_nil] at hbal
      rintro (hne | hlt)
      · have := List.length_pos_iff.mpr hne
        omega
      · omega
    rw [if_neg (by simp)]
    cases hpending : w.engine.hasPending with
    | false => simp
    | true => simpa using harrives

/-! ## The general path -/

/-- A flush-and-poll pass that reaped nothing found the first ring with operations pending. -/
theorem waitPass_zero (henv : env.SubmitsSoftly) (hw : w.Ready) {is : List ℕ}
    (his : ∀ i ∈ is, i < w.engine.ringCount) {fatal : Bool} {first : Option ℕ}
    (h : waitPass env cb is w = .ret (fatal, first, 0) w') :
    fatal = false ∧ Idle w w' ∧ (first.isSome ↔ ∃ i ∈ is, (w.ring i).pendingCount > 0) ∧
      ∀ i ∈ first, i ∈ is := by
  induction is generalizing w fatal first with
  | nil =>
      obtain ⟨hp, rfl⟩ := Outcome.ret.inj h
      cases hp
      exact ⟨rfl, .refl _, by simp, by simp⟩
  | cons i is ih =>
      obtain ⟨st, w₁, hst, h⟩ := bind_eq_ret.mp h
      obtain ⟨f, w₂, hf, h⟩ := bind_eq_ret.mp h
      obtain ⟨pending, w₃, hpending, h⟩ := bind_eq_ret.mp h
      obtain ⟨_, w₄, hunlock, h⟩ := bind_eq_ret.mp h
      obtain ⟨n, w₅, hpoll, h⟩ := bind_eq_ret.mp h
      obtain ⟨⟨f', first', m⟩, w₆, hrest, h⟩ := bind_eq_ret.mp h
      obtain ⟨hp, rfl⟩ := Outcome.ret.inj h
      simp only [Prod.mk.injEq] at hp
      obtain ⟨hfatal, hfirst, hsum⟩ := hp
      obtain ⟨hn, hm⟩ : n = 0 ∧ m = 0 := by omega
      rw [hn] at hpoll
      rw [hm] at hrest
      obtain ⟨hval, rfl⟩ := Outcome.ret.inj hpending
      have hflush : Idle w w₂ :=
        (idle_ringLock i _ _ _ hst).trans (idle_flushRingChecked i _ _ _ hf)
      have hidle := hflush.trans (idle_ringUnlock i st _ _ _ hunlock)
      obtain ⟨hidle', -⟩ := ringPoll_zero (hidle.ready hw)
        (by rw [hidle.ringCount]; exact his i List.mem_cons_self) hpoll
      have hbefore := hidle.trans hidle'
      obtain ⟨hf', hrest, hsome, hmem⟩ := ih (hbefore.ready hw)
        (fun j hj => by rw [hbefore.ringCount]; exact his j (List.mem_cons_of_mem i hj)) hrest
      have hpend : ∀ j, (w₅.ring j).pendingCount = (w.ring j).pendingCount := fun j =>
        (hbefore.rings j).pending
      rw [hval.symm.trans (hflush.rings i).pending] at hfirst
      refine ⟨?_, hbefore.trans hrest, ?_, ?_⟩
      · rw [← hfatal, hf', flushRingChecked_eq_false henv hf]
        rfl
      · simp only [hpend] at hsome
        rw [← hfirst]
        split
        · next hpos => simp [hpos]
        · next hpos =>
            rw [hsome]
            simp [hpos]
      · rw [← hfirst]
        split
        · intro j hj
          cases hj
          exact List.mem_cons_self
        · exact fun j hj => List.mem_cons_of_mem i (hmem j hj)

/-- A time-out is reported as one. -/
theorem waitTimedOut_eq {m : ℤ} (h : waitTimedOut w = .ret m w') :
    m = -1 ∧ w'.tls.errno = ETIMEDOUT := by
  obtain ⟨fin, w₁, hfin, h⟩ := bind_eq_ret.mp h
  rw [maybeFinalizeDeferredUnregistration_eq hfin, if_neg (by simp)] at h
  obtain ⟨rfl, rfl⟩ := Outcome.ret.inj h
  exact ⟨rfl, rfl⟩

/-- A count that is not positive leads to what follows it. -/
theorem waitReturn_or {p : AuraM ℕ} {q : AuraM ℤ} {m : ℤ} (hm : m ≤ 0)
    (h : (do let n ← p; if n > 0 then waitReturn n else q) w = .ret m w') :
    ∃ w₁, q w₁ = .ret m w' := by
  obtain ⟨n, w₁, -, h⟩ := bind_eq_ret.mp h
  rw [Prog.ite_apply] at h
  split at h
  · next hpos =>
      obtain ⟨fin, w₂, hfin, h⟩ := bind_eq_ret.mp h
      rw [maybeFinalizeDeferredUnregistration_eq hfin, if_neg (by simp)] at h
      obtain ⟨rfl, rfl⟩ := Outcome.ret.inj h
      omega
  · exact ⟨w₁, h⟩

theorem waitLastPoll_nonpos {m : ℤ} (hm : m ≤ 0) (h : waitLastPoll env cb w = .ret m w') :
    m = -1 ∧ w'.tls.errno = ETIMEDOUT := by
  obtain ⟨rings, w₁, -, h⟩ := bind_eq_ret.mp h
  obtain ⟨w₂, h⟩ := waitReturn_or hm h
  exact waitTimedOut_eq h

theorem waitOnEventfd_nonpos (henv : env.OnlyInterrupts) {timeoutMs m : ℤ} (hm : m ≤ 0)
    (h : waitOnEventfd env cb timeoutMs w = .ret m w') : m = -1 ∧ w'.tls.errno = ETIMEDOUT := by
  obtain ⟨r, w₁, hr, h⟩ := bind_eq_ret.mp h
  cases r with
  | timeout => exact waitLastPoll_nonpos hm h
  | ready =>
      obtain ⟨_, w₂, -, h⟩ := bind_eq_ret.mp h
      obtain ⟨rings, w₃, -, h⟩ := bind_eq_ret.mp h
      obtain ⟨n, w₄, -, h⟩ := bind_eq_ret.mp h
      obtain ⟨fin, w₅, hfin, h⟩ := bind_eq_ret.mp h
      rw [maybeFinalizeDeferredUnregistration_eq hfin, if_neg (by simp), Prog.ite_apply] at h
      split at h
      · obtain ⟨rfl, -⟩ := Outcome.ret.inj h
        omega
      · exact waitLastPoll_nonpos hm h
  | error e =>
      have hintr : e.1 = EINTR := by
        obtain ⟨_, w₂, -, hr⟩ := bind_eq_ret.mp hr
        rw [Prog.bind_apply, Prog.read_apply, Outcome.bind_ret, Prog.ite_apply] at hr
        split at hr
        · cases (Outcome.ret.inj hr).1
        · simp only [id] at hr
          cases hwait : env.wait w₂.clock with
          | none =>
              rw [hwait] at hr
              simp only [Prog.ite_apply] at hr
              split at hr
              · cases hr
              · cases (Outcome.ret.inj hr).1
          | some e' =>
              rw [hwait] at hr
              cases (Outcome.ret.inj hr).1
              exact henv _ _ hwait
      dsimp only at h
      rw [if_neg (by simp [hintr])] at h
      exact waitLastPoll_nonpos hm h

theorem waitOnRing_nonpos (henv : env.OnlyInterrupts) (hw : w.Ready)
    (hi : i < w.engine.ringCount) {timeoutMs m : ℤ} (hm : m ≤ 0)
    (h : waitOnRing env cb i timeoutMs w = .ret m w') : m = -1 ∧ w'.tls.errno = ETIMEDOUT := by
  obtain ⟨n, w₁, hn, h⟩ := bind_eq_ret.mp h
  rw [Prog.ite_apply] at h
  split at h
  · next hpos =>
      obtain ⟨rings, w₂, -, h⟩ := bind_eq_ret.mp h
      obtain ⟨more, w₃, -, h⟩ := bind_eq_ret.mp h
      obtain ⟨fin, w₄, hfin, h⟩ := bind_eq_ret.mp h
      rw [maybeFinalizeDeferredUnregistration_eq hfin, if_neg (by simp)] at h
      obtain ⟨rfl, -⟩ := Outcome.ret.inj h
      push_cast at hm
      omega
  · next hpos =>
      obtain ⟨hzero, -, -⟩ := ringWait_zero henv hw hi (by omega) hn
      rw [hzero, if_neg (by simp)] at h
      exact waitTimedOut_eq h

/-- The general path without a completion: `0` if nothing was pending, else a time-out. -/
theorem waitGeneral_nonpos (henv : env.OnlyInterrupts) (hsoft : env.SubmitsSoftly) (hw : w.Ready)
    (hlatch : w.engine.fatalSubmitErrno = 0) {timeoutMs m : ℤ} (hm : m ≤ 0)
    (h : waitGeneral env cb timeoutMs w = .ret m w') :
    if w.engine.hasPending then m = -1 ∧ w'.tls.errno = ETIMEDOUT else m = 0 := by
  unfold waitGeneral at h
  rw [Prog.bind_apply, Prog.read_apply, Outcome.bind_ret] at h
  obtain ⟨fin, w₁, hfin, h⟩ := bind_eq_ret.mp h
  rw [maybeFinalizeDeferredUnregistration_eq hfin, if_neg (by simp)] at h
  obtain ⟨_, w₂, hdrain, h⟩ := bind_eq_ret.mp h
  obtain ⟨rings, w₂', hrings, h⟩ := bind_eq_ret.mp h
  obtain ⟨rfl, rfl⟩ := Outcome.ret.inj hrings
  obtain ⟨⟨fatal, first, total⟩, w₃, hpass, h⟩ := bind_eq_ret.mp h
  have hidle : Idle w w₂ := (idle_finalize _ _ _ hfin).trans
    (quietly_idle.drainEventfdIfRegistered _ _ _ hdrain)
  dsimp only at h
  rw [Prog.ite_apply] at h
  split at h
  · next hpos =>
      obtain ⟨fin', w₄, hfin', h⟩ := bind_eq_ret.mp h
      rw [maybeFinalizeDeferredUnregistration_eq hfin', if_neg (by simp)] at h
      obtain ⟨rfl, -⟩ := Outcome.ret.inj h
      omega
  · next hpos =>
      have hzero : total = 0 := by omega
      rw [hzero] at hpass
      obtain ⟨rfl, hidle', hsome, hmem⟩ := waitPass_zero hsoft (hidle.ready hw)
        (fun i hi => List.mem_range.mp hi) hpass
      rw [if_neg (by simp [hlatch])] at h
      have hpending : first.isSome = w.engine.hasPending := by
        rw [Bool.eq_iff_iff, hsome, Engine.hasPending, List.any_eq_true]
        refine exists_congr fun i => ?_
        rw [(hidle.rings i).pending, hidle.ringCount, decide_eq_true_iff]
        rfl
      rw [← hpending]
      cases first with
      | none => exact (Outcome.ret.inj h).1.symm
      | some i =>
          rw [Option.isSome_some, if_pos rfl]
          have hi := List.mem_range.mp (hmem i rfl)
          obtain ⟨fd, w₄, hfd, h⟩ := bind_eq_ret.mp h
          obtain ⟨-, rfl⟩ := Outcome.ret.inj hfd
          rw [Prog.ite_apply] at h
          split at h
          · exact waitOnEventfd_nonpos henv hm h
          · exact waitOnRing_nonpos henv ((hidle.trans hidle').ready hw)
              (by rwa [hidle'.ringCount]) hm h

/-- **On the general path the contract holds.** -/
theorem waitGeneral_contract (henv : env.OnlyInterrupts) (hsoft : env.SubmitsSoftly) (hw : w.Ready)
    (hlatch : w.engine.fatalSubmitErrno = 0) {timeoutMs m : ℤ}
    (h : waitGeneral env (callback env depth) timeoutMs w = .ret m w') : WaitContract w m w' := by
  have hcount : Processes m.toNat w w' := (counted_processes env depth).waitGeneral
    (fun _ _ _ _ => trivial) timeoutMs w m w' trivial h
  unfold WaitContract
  rw [hcount.processed_eq]
  by_cases hm : 0 < m
  · rw [if_pos (by omega)]
    omega
  · rw [if_neg (by omega)]
    exact waitGeneral_nonpos henv hsoft hw hlatch (by omega) h

/-! ## All paths -/

/-- **`aura_wait` keeps its contract, unless the thread waits on its own ring, something is pending,
and no completion of that ring is there or arrives.** The kernel is one whose submits do not fail
for good and whose waits end with a completion, a time-out or a signal. -/
theorem auraWait_contract_iff (env : Env) (depth : ℕ) (timeoutMs : ℤ) (w w' : World) (m : ℤ)
    (henv : env.OnlyInterrupts) (hsoft : env.SubmitsSoftly) (hw : w.Ready)
    (hlatch : w.engine.fatalSubmitErrno = 0)
    (h : auraWait env (callback env depth) timeoutMs w = .ret m w') :
    WaitContract w m w' ↔
      ∀ i, w.ownRing = some i → w.engine.hasPending = true → Arrives i w w' := by
  obtain ⟨own, w₁, hown, h⟩ := bind_eq_ret.mp h
  obtain ⟨rfl, rfl⟩ := Outcome.ret.inj hown
  cases hring : w.ownRing with
  | none =>
      rw [hring] at h
      exact ⟨fun _ _ hnone => (nomatch hnone), fun _ =>
        waitGeneral_contract henv hsoft hw hlatch h⟩
  | some i =>
      rw [hring] at h
      rw [waitOwn_contract_iff henv hw (ownRing_lt hring) h]
      constructor
      · rintro (hnone | harrives) j hj hpending
        · rw [hnone] at hpending
          cases hpending
        · cases hj
          exact harrives
      · intro hcond
        cases hpending : w.engine.hasPending with
        | false => exact .inl rfl
        | true => exact .inr (hcond i rfl hpending)

/-! ## A read that does not complete -/

theorem calmEnv_onlyInterrupts : calmEnv.OnlyInterrupts := fun _ _ h => nomatch h

theorem calmEnv_submitsSoftly : calmEnv.SubmitsSoftly := fun _ _ _ h => nomatch h

/-- A world in which a read is under way on the only ring of an engine. -/
def readingWorld (singleThread : Bool) : World :=
  (auraSubmit calmEnv (callback calmEnv 0) (.read 3 (.unregistered (some 2000)) 8 0) {}
    (.start (auraCreate { queueDepth := 4, singleThread } 4096 4))).state

/-- A wait of ten milliseconds for it. -/
def waitedWorld (singleThread : Bool) : World :=
  (auraWait calmEnv (callback calmEnv 0) 10 (readingWorld singleThread)).state

/-- On a ring with a lock the wait times out as promised. -/
theorem auraWait_contract_shared :
    WaitContract (readingWorld false) (-1) (waitedWorld false) := by
  have hready : (readingWorld false).Ready := by
    intro i hi
    have hzero : i = 0 := Nat.lt_one_iff.mp hi
    subst hzero
    exact ⟨rfl, by decide⟩
  refine (auraWait_contract_iff calmEnv 0 10 (readingWorld false) _ _ calmEnv_onlyInterrupts
    calmEnv_submitsSoftly hready rfl rfl).mpr fun i hi => ?_
  cases hi

/-- On the only ring of a single-threaded engine it returns zero, with the read still pending. -/
theorem auraWait_contract_broken :
    auraWait calmEnv (callback calmEnv 0) 10 (readingWorld true) = .ret 0 (waitedWorld true) ∧
      (readingWorld true).engine.hasPending = true ∧
      (readingWorld true).processed (waitedWorld true) = 0 ∧
      ¬WaitContract (readingWorld true) 0 (waitedWorld true) := by
  refine ⟨rfl, rfl, rfl, ?_⟩
  have hcount : (readingWorld true).processed (waitedWorld true) = 0 := rfl
  rw [WaitContract, hcount, if_neg (by simp), if_pos (by rfl)]
  rintro ⟨h, -⟩
  cases h

end Aura
