import Aura.Engine.RegLock
import Aura.Engine.Wait

/-!
# The loops that wait for completions

`aura_drain`, `aura_unregister` and `aura_run` call `aura_wait` until something is so. Their loops
are bounded by `Env.fuel`; what is said about them is said of calls that return.

* **`auraDrain_contract`** — what `aura_drain` returns is the number of completions it processed,
  and then nothing is pending; it reports a time-out only when its time is up.
* **`auraUnregister_contract`** — when `aura_unregister` returns zero outside of callbacks, the
  table is gone from the engine and from the kernel.
* **`auraRun_contract`** — `aura_run` does not return before it is stopped, and is through a hundred
  waits later.
-/

namespace Aura

open Lib Lib.Prog

/-! ## Counting polls -/

namespace Counted

variable {env : Env} {cb : Callback} {I : World → Prop} {P : ℕ → Prop}
  {R : ℕ → ℕ → World → World → Prop} {w w' : World}

section

variable (h : Counted env cb I P R)

include h

/-- The first pass of `aura_poll` returns its count last. -/
theorem pollPass {is : List ℕ} (his : ∀ i ∈ is, P i) {fatal : Bool} {skipped n : ℕ} (hw : I w)
    (hs : Aura.pollPass env cb is w = .ret (fatal, skipped, n) w') : R n n w w' := by
  induction is generalizing w fatal skipped n with
  | nil =>
      obtain ⟨hp, rfl⟩ := Outcome.ret.inj hs
      cases hp
      exact h.refl _
  | cons i is ih =>
      have his' : ∀ j ∈ is, P j := fun j hj => his j (List.mem_cons_of_mem i hj)
      obtain ⟨st, w₁, hst, hs⟩ := bind_eq_ret.mp hs
      have h₁ := h.moving.ringTrylock i w st w₁ hst
      cases st with
      | none =>
          obtain ⟨⟨f', skipped', m⟩, w₂, hrest, hs⟩ := bind_eq_ret.mp hs
          obtain ⟨hp, rfl⟩ := Outcome.ret.inj hs
          cases hp
          exact h.after h₁ (ih his' (h.bound h₁ hw) hrest)
      | some st =>
          obtain ⟨f, w₂, hf, hs⟩ := bind_eq_ret.mp hs
          obtain ⟨_, w₃, hunlock, hs⟩ := bind_eq_ret.mp hs
          obtain ⟨k, w₄, hk, hs⟩ := bind_eq_ret.mp hs
          obtain ⟨⟨f', skipped', m⟩, w₅, hrest, hs⟩ := bind_eq_ret.mp hs
          obtain ⟨hp, rfl⟩ := Outcome.ret.inj hs
          cases hp
          have h₂ : R 0 0 w w₃ := h.after h₁ (h.after (h.flushRingChecked i w₁ f w₂ hf)
            (h.moving.ringUnlock i st w₂ _ w₃ hunlock))
          have h₃ := h.after h₂ (h.ringPoll (his i List.mem_cons_self) w₃ k w₄ (h.bound h₂ hw) hk)
          exact h.add h₃ (ih his' (h.bound h₃ hw) hrest)

/-- So does the second one. -/
theorem pollPassBlocking {is : List ℕ} (his : ∀ i ∈ is, P i) {fatal : Bool} {n : ℕ} (hw : I w)
    (hs : Aura.pollPassBlocking env cb is w = .ret (fatal, n) w') : R n n w w' := by
  induction is generalizing w fatal n with
  | nil =>
      obtain ⟨hp, rfl⟩ := Outcome.ret.inj hs
      cases hp
      exact h.refl _
  | cons i is ih =>
      obtain ⟨st, w₁, hst, hs⟩ := bind_eq_ret.mp hs
      obtain ⟨f, w₂, hf, hs⟩ := bind_eq_ret.mp hs
      obtain ⟨_, w₃, hunlock, hs⟩ := bind_eq_ret.mp hs
      obtain ⟨k, w₄, hk, hs⟩ := bind_eq_ret.mp hs
      obtain ⟨⟨f', m⟩, w₅, hrest, hs⟩ := bind_eq_ret.mp hs
      obtain ⟨hp, rfl⟩ := Outcome.ret.inj hs
      cases hp
      have h₁ : R 0 0 w w₃ := h.after (h.moving.ringLock i w st w₁ hst)
        (h.after (h.flushRingChecked i w₁ f w₂ hf) (h.moving.ringUnlock i st w₂ _ w₃ hunlock))
      have h₂ := h.after h₁ (h.ringPoll (his i List.mem_cons_self) w₃ k w₄ (h.bound h₁ hw) hk)
      exact h.add h₂ (ih (fun j hj => his j (List.mem_cons_of_mem i hj)) (h.bound h₂ hw) hrest)

/-- A positive count is returned; an error is reported when nothing was counted. -/
theorem pollResult {fatal : Bool} {total : ℕ} {m : ℤ}
    (hs : Aura.pollResult fatal total w = .ret m w') : m.toNat = total ∧ R 0 0 w w' := by
  obtain ⟨fin, w₁, hfin, hs⟩ := bind_eq_ret.mp hs
  have h₁ := h.finalize w fin w₁ hfin
  rw [maybeFinalizeDeferredUnregistration_eq hfin, Prog.ite_apply, if_neg (by simp),
    Prog.ite_apply] at hs
  split at hs
  · next hfatal =>
      obtain ⟨err, w₂, herr, hs⟩ := bind_eq_ret.mp hs
      obtain ⟨_, w₃, hset, hs⟩ := bind_eq_ret.mp hs
      obtain ⟨rfl, rfl⟩ := Outcome.ret.inj hs
      refine ⟨hfatal.2.symm, h.after h₁ (h.after ?_ (h.moving.setErrno err w₂ _ w₃ hset))⟩
      exact h.moving.read _ w₁ err w₂ herr
  · obtain ⟨rfl, rfl⟩ := Outcome.ret.inj hs
    exact ⟨Int.toNat_natCast total, h₁⟩

/-- **`aura_poll` returns the number of completions it reaped and processed.** -/
theorem auraPoll (hI : ∀ w, I w → w.RingsIn P) : CountsInt I R (Aura.auraPoll env cb) := by
  intro w m w' hw hs
  obtain ⟨own, w₁, hown, hs⟩ := bind_eq_ret.mp hs
  obtain ⟨rfl, rfl⟩ := Outcome.ret.inj hown
  cases hring : w.ownRing with
  | some i =>
      rw [hring] at hs
      exact (h.pollOwn (hI w hw i (ownRing_lt hring))).int w m w' hw hs
  | none =>
      rw [hring] at hs
      refine h.countsInt_bind (h.moving.read _) (fun latched => h.countsInt_bind h.finalize
        fun fin => .ite (h.countsInt_pure (by omega)) ?_) w m w' hw hs
      refine h.countsInt_bind h.moving.drainEventfdIfRegistered fun _ => CountsInt.allRings hI ?_
      intro is his w m w' hw hs
      obtain ⟨⟨fatal, skipped, total⟩, w₁, hpass, hs⟩ := bind_eq_ret.mp hs
      have h₁ := h.pollPass his hw hpass
      dsimp only at hs
      rw [Prog.ite_apply] at hs
      split at hs
      · next hskipped =>
          obtain ⟨⟨fatal', total'⟩, w₂, hpass', hs⟩ := bind_eq_ret.mp hs
          obtain ⟨htotal, h₃⟩ := h.pollResult hs
          rw [hskipped.2] at h₁
          have h₂ := h.after h₁ (h.pollPassBlocking his (h.bound h₁ hw) hpass')
          rw [htotal]
          exact h.before h₂ h₃
      · obtain ⟨htotal, h₂⟩ := h.pollResult hs
        rw [htotal]
        exact h.before h₁ h₂

end

end Counted

section

variable {env : Env} {depth : ℕ} {w w' : World} {timeoutMs deadlineNs : ℤ} {total : ℕ} {n : ℤ}

/-! ## `aura_drain` -/

/-- Finalization leaves the pending counts alone. -/
theorem hasPending_finalize {m : ℤ} (h : maybeFinalizeDeferredUnregistration w = .ret m w') :
    w'.engine.hasPending = w.engine.hasPending := by
  obtain ⟨e, ⟨hframe, -, -⟩, rfl⟩ := maybeFinalizeDeferredUnregistration_frame h
  simp only [Engine.hasPending, hframe.rings, hframe.ringCount]

/-- What is true when `aura_drain` returns `n`, if `total` completions were processed before. -/
structure DrainEnds (env : Env) (timeoutMs deadlineNs : ℤ) (total : ℕ) (n : ℤ) (w w' : World) :
    Prop where
  counts : 0 ≤ n → ∃ k : ℕ, n = total + k ∧ Processes k w w'
  drained : 0 ≤ n → timeoutMs ≠ 0 → w'.engine.hasPending = false
  timeout : n < 0 → 0 < timeoutMs → w'.tls.errno = ETIMEDOUT → deadlineNs ≤ env.now w'.clock

/-- An iteration of the drain goes on with the completions added, or ends it. -/
theorem drainOnce_spec {r : DrainStep}
    (h : drainOnce env (callback env depth) timeoutMs deadlineNs total w = .ret r w') :
    (∃ k, r = .again (total + k) ∧ Processes k w w') ∨
      ∃ n, r = .finished n ∧ DrainEnds env timeoutMs deadlineNs total n w w' := by
  have hc := counted_processes env depth
  have hI : ∀ w : World, True → w.RingsIn fun _ => True := fun _ _ _ _ => trivial
  -- a wait adds what it processed, or fails
  have hwait {waitMs : ℤ} {w₁ : World} (h₁ : Processes 0 w w₁)
      (hs : drainWait env (callback env depth) waitMs total w₁ = .ret r w') :
      (∃ k, r = .again (total + k) ∧ Processes k w w') ∨
        ∃ n, r = .finished n ∧ DrainEnds env timeoutMs deadlineNs total n w w' := by
    obtain ⟨m, w₂, hm, hs⟩ := bind_eq_ret.mp hs
    obtain ⟨err, w₃, herr, hs⟩ := bind_eq_ret.mp hs
    obtain ⟨rfl, rfl⟩ := Outcome.ret.inj herr
    have h₂ : Processes m.toNat w w₂ :=
      hc.after (a := 0) h₁ (hc.auraWait hI waitMs w₁ m w₂ trivial hm)
    rw [Prog.ite_apply] at hs
    split at hs
    · next hfail =>
        obtain ⟨rfl, rfl⟩ := Outcome.ret.inj hs
        exact .inr ⟨-1, rfl, fun hn => absurd hn (by decide), fun hn => absurd hn (by decide),
          fun _ _ herr => absurd herr hfail.2⟩
    · obtain ⟨rfl, rfl⟩ := Outcome.ret.inj hs
      exact .inl ⟨m.toNat, rfl, h₂⟩
  obtain ⟨fin, w₁, hfin, h⟩ := bind_eq_ret.mp h
  obtain ⟨_, _, hread, h⟩ := bind_eq_ret.mp h
  obtain ⟨rfl, rfl⟩ := Outcome.ret.inj hread
  have h₁ := hc.finalize w fin _ hfin
  rw [maybeFinalizeDeferredUnregistration_eq hfin, Prog.ite_apply, if_neg (by simp),
    Prog.ite_apply] at h
  split at h
  · -- nothing is pending
    next hnone =>
      obtain ⟨fin', w₂, hfin', h⟩ := bind_eq_ret.mp h
      rw [maybeFinalizeDeferredUnregistration_eq hfin', Prog.ite_apply, if_neg (by simp)] at h
      obtain ⟨rfl, rfl⟩ := Outcome.ret.inj h
      have hdone : w₂.engine.hasPending = false := by
        rw [hasPending_finalize hfin']
        simpa using hnone
      have h₂ : Processes 0 w w₂ := hc.after (a := 0) h₁ (hc.finalize _ fin' w₂ hfin')
      exact .inr ⟨total, rfl, fun _ => ⟨0, by simp, h₂⟩, fun _ _ => hdone, fun hneg => by omega⟩
  · rw [Prog.ite_apply] at h
    split at h
    · -- one poll
      next hzero =>
        obtain ⟨m, w₂, hm, h⟩ := bind_eq_ret.mp h
        obtain ⟨rfl, rfl⟩ := Outcome.ret.inj h
        have h₂ : Processes m.toNat w w₂ :=
          hc.after (a := 0) h₁ (hc.auraPoll hI _ m w₂ trivial hm)
        refine .inr ⟨_, rfl, fun hn => ⟨m.toNat, ?_, h₂⟩, fun _ hne => absurd hzero hne,
          fun _ hpos => by omega⟩
        split_ifs at hn ⊢ <;> omega
    · rw [Prog.ite_apply] at h
      split at h
      · exact hwait h₁ h
      · rw [Prog.ite_apply] at h
        split at h
        · next hlate =>
            obtain ⟨_, w₂, hset, h⟩ := bind_eq_ret.mp h
            obtain ⟨-, rfl⟩ := Outcome.ret.inj hset
            obtain ⟨rfl, rfl⟩ := Outcome.ret.inj h
            exact .inr ⟨-1, rfl, fun hn => absurd hn (by decide), fun hn => absurd hn (by decide),
              fun _ _ _ => sub_nonpos.mp hlate⟩
        · exact hwait h₁ h

theorem drainIterations_spec {fuel : ℕ}
    (h : drainIterations env (callback env depth) timeoutMs deadlineNs fuel total w = .ret n w') :
    DrainEnds env timeoutMs deadlineNs total n w w' := by
  induction fuel generalizing total w with
  | zero => cases h
  | succ fuel ih =>
      obtain ⟨r, w₁, hr, h⟩ := bind_eq_ret.mp h
      rcases drainOnce_spec hr with ⟨k, rfl, h₁⟩ | ⟨m, rfl, hends⟩
      · obtain ⟨hcounts, hdrained, htimeout⟩ := ih h
        refine ⟨fun hn => ?_, hdrained, htimeout⟩
        obtain ⟨j, rfl, h₂⟩ := hcounts hn
        exact ⟨k + j, by omega, h₁.add h₂⟩
      · obtain ⟨rfl, rfl⟩ := Outcome.ret.inj h
        exact hends

/-- **`aura_drain` returns the number of completions it processed**, those that callbacks processed
meanwhile not counted; unless it only polled, nothing is pending then. With a time limit it reports
a time-out only when the time is up. -/
theorem auraDrain_contract (env : Env) (depth : ℕ) (timeoutMs : ℤ) (w w' : World) (n : ℤ)
    (h : auraDrain env (callback env depth) timeoutMs w = .ret n w') :
    (0 ≤ n → n = w.processed w' ∧ (timeoutMs ≠ 0 → w'.engine.hasPending = false)) ∧
    (n < 0 → 0 < timeoutMs → w'.tls.errno = ETIMEDOUT →
      env.now w.clock + timeoutMs * 1000000 ≤ env.now w'.clock) := by
  obtain ⟨clock, w₁, hclock, h⟩ := bind_eq_ret.mp h
  obtain ⟨rfl, rfl⟩ := Outcome.ret.inj hclock
  obtain ⟨hcounts, hdrained, htimeout⟩ := drainIterations_spec h
  refine ⟨fun hn => ⟨?_, hdrained hn⟩, fun hn hpos herr => ?_⟩
  · obtain ⟨k, rfl, hk⟩ := hcounts hn
    rw [hk.processed_eq]
    simp
  · have hlate := htimeout hn hpos herr
    rwa [if_pos hpos] at hlate

/-- The kernel completes what it can at each turn. -/
def promptEnv : Env := { calmEnv with posts _ := [(0, 0, 8)] }

/-- A drain that waits for a read. -/
theorem auraDrain_contract_read :
    ∃ w', auraDrain promptEnv (callback promptEnv 1) 50 (readingWorld false) = .ret 1 w' ∧
      1 = (readingWorld false).processed w' ∧ w'.engine.hasPending = false := by
  have hvalue : (auraDrain promptEnv (callback promptEnv 1) 50 (readingWorld false)).value? =
      some 1 := by decide +kernel
  cases h : auraDrain promptEnv (callback promptEnv 1) 50 (readingWorld false) with
  | hang w =>
      rw [h] at hvalue
      cases hvalue
  | ret n w' =>
      rw [h] at hvalue
      obtain rfl : n = 1 := Option.some.inj hvalue
      obtain ⟨hcount, hdrained⟩ := (auraDrain_contract promptEnv 1 50 _ w' 1 h).1 (by decide)
      exact ⟨w', rfl, by exact_mod_cast hcount, hdrained (by decide)⟩

end

/-! ## `aura_unregister` -/

section

variable (env : Env) (cb : Callback)

/-- Is the table neither registered nor being unregistered? The test is made under the registration
lock. -/
def unregisterDone (type : RegType) : AuraM Bool := do
  regRdlock
  let done ← Prog.read fun w => w.engine.idle type
  regRdunlock
  pure done

/-- The loop of `aura_unregister`. The kernel gets a turn while the thread sleeps. -/
def unregisterLoop (type : RegType) (deadlineMs : ℤ) : ℕ → AuraM ℤ
  | 0 => Prog.block
  | fuel + 1 => do
      let done ← unregisterDone type
      if done then pure 0
      else do
        let clock ← Prog.read fun w => w.clock
        if deadlineMs ≤ env.now clock / 1000000 then do
          setErrno ETIMEDOUT
          pure (-1)
        else do
          let n ← auraWait env cb 100
          let err ← getErrno
          if n < 0 ∧ err ≠ ETIMEDOUT then pure (-1)
          else do
            Prog.when (n ≤ 0) (kernelTurn env)
            unregisterLoop type deadlineMs fuel

/-- `aura_unregister`. A callback only makes the request. -/
def auraUnregister (type : RegType) : AuraM ℤ := do
  let depth ← Prog.read fun w => w.tls.callbackContextDepth
  if depth > 0 then auraRequestUnregister type
  else do
    let err ← auraRequestUnregister type
    if err ≠ 0 then pure (-1)
    else do
      let clock ← Prog.read fun w => w.clock
      unregisterLoop env cb type (env.now clock / 1000000 + 10000) env.fuel

end

/-- What every library call has, `aura_unregister` has. -/
theorem ApiStable.auraUnregister {env : Env} {K : ProgProp} (h : ApiStable env K)
    (hdone : ∀ type, K Bool (unregisterDone type)) (depth : ℕ) (type : RegType) :
    K ℤ (Aura.auraUnregister env (Aura.callback env depth) type) := by
  have hloop (deadlineMs : ℤ) (fuel : ℕ) :
      K ℤ (unregisterLoop env (Aura.callback env depth) type deadlineMs fuel) := by
    induction fuel with
    | zero => exact h.block
    | succ fuel ih =>
        refine h.bind (hdone type) fun done => h.ite (h.pure _) (h.bind (h.read _) fun clock => ?_)
        refine h.ite (h.andThen (h.setErrno _) (h.pure _)) ?_
        refine h.bind (h.auraWait (h.callback depth) 100) fun n => h.bind h.getErrno fun err => ?_
        exact h.ite (h.pure _) (h.andThen (h.when h.kernelTurn) ih)
  refine h.bind (h.read _) fun d => h.ite (h.requestUnregister type) ?_
  refine h.bind (h.requestUnregister type) fun err => h.ite (h.pure _) ?_
  exact h.bind (h.read _) fun clock => hloop _ _

section

variable {env : Env} {depth : ℕ} {w w' : World} {type : RegType} {n : ℤ}

/-- The test changes nothing. -/
theorem unregisterDone_eq_ret {done : Bool} (h : unregisterDone type w = .ret done w') :
    done = w.engine.idle type ∧ w' = w := by
  obtain ⟨_, w₁, hlock, h⟩ := bind_eq_ret.mp h
  obtain ⟨_, w₂, hread, h⟩ := bind_eq_ret.mp h
  obtain ⟨rfl, rfl⟩ := Outcome.ret.inj hread
  obtain ⟨_, w₃, hunlock, h⟩ := bind_eq_ret.mp h
  obtain ⟨-, rfl⟩ := Outcome.ret.inj hunlock
  obtain ⟨rfl, rfl⟩ := Outcome.ret.inj h
  obtain rfl := regRdlock_eq_ret hlock
  refine ⟨?_, rfl⟩
  cases type <;> rfl

/-- A request never fails and takes no time. -/
theorem auraRequestUnregister_eq (h : auraRequestUnregister type w = .ret n w') :
    n = 0 ∧ w'.clock = w.clock := by
  obtain ⟨_, w₁, hlock, h⟩ := bind_eq_ret.mp h
  obtain ⟨-, -, rfl⟩ := regWrlock_eq_ret hlock
  obtain ⟨_, w₂, hread, h⟩ := bind_eq_ret.mp h
  obtain ⟨rfl, rfl⟩ := Outcome.ret.inj hread
  rw [Prog.ite_apply] at h
  split at h
  · obtain ⟨_, w₃, hunlock, h⟩ := bind_eq_ret.mp h
    obtain ⟨-, rfl⟩ := Outcome.ret.inj hunlock
    obtain ⟨rfl, rfl⟩ := Outcome.ret.inj h
    exact ⟨rfl, rfl⟩
  · obtain ⟨_, w₃, hset, h⟩ := bind_eq_ret.mp h
    obtain ⟨-, rfl⟩ := Outcome.ret.inj hset
    obtain ⟨_, w₄, hunlock, h⟩ := bind_eq_ret.mp h
    obtain ⟨-, rfl⟩ := Outcome.ret.inj hunlock
    obtain ⟨_, w₅, hfin, h⟩ := bind_eq_ret.mp h
    obtain ⟨_, w₆, hset', h⟩ := bind_eq_ret.mp h
    obtain ⟨_, w₇, hunlock', h⟩ := bind_eq_ret.mp h
    obtain ⟨-, -, rfl⟩ := regWrlock_eq_ret hfin
    obtain ⟨-, rfl⟩ := Outcome.ret.inj hset'
    obtain ⟨-, rfl⟩ := Outcome.ret.inj hunlock'
    obtain ⟨rfl, rfl⟩ := Outcome.ret.inj h
    exact ⟨rfl, rfl⟩

/-- The loop ends when the table is gone, when its time is up, or when a wait fails. -/
theorem unregisterLoop_spec {deadlineMs : ℤ} {fuel : ℕ}
    (h : unregisterLoop env (callback env depth) type deadlineMs fuel w = .ret n w') :
    (n = 0 ∧ w'.engine.idle type = true) ∨
      (n = -1 ∧ (w'.tls.errno = ETIMEDOUT → deadlineMs ≤ env.now w'.clock / 1000000)) := by
  induction fuel generalizing w with
  | zero => cases h
  | succ fuel ih =>
      obtain ⟨done, w₁, hdone, h⟩ := bind_eq_ret.mp h
      obtain ⟨rfl, rfl⟩ := unregisterDone_eq_ret hdone
      rw [Prog.ite_apply] at h
      split at h
      · next hidle =>
          obtain ⟨rfl, rfl⟩ := Outcome.ret.inj h
          exact .inl ⟨rfl, hidle⟩
      · obtain ⟨clock, w₂, hclock, h⟩ := bind_eq_ret.mp h
        obtain ⟨rfl, rfl⟩ := Outcome.ret.inj hclock
        rw [Prog.ite_apply] at h
        split at h
        · next hlate =>
            obtain ⟨_, w₃, hset, h⟩ := bind_eq_ret.mp h
            obtain ⟨-, rfl⟩ := Outcome.ret.inj hset
            obtain ⟨rfl, rfl⟩ := Outcome.ret.inj h
            exact .inr ⟨rfl, fun _ => hlate⟩
        · obtain ⟨m, w₃, hwait, h⟩ := bind_eq_ret.mp h
          obtain ⟨err, w₄, herr, h⟩ := bind_eq_ret.mp h
          obtain ⟨rfl, rfl⟩ := Outcome.ret.inj herr
          rw [Prog.ite_apply] at h
          split at h
          · next hfail =>
              obtain ⟨rfl, rfl⟩ := Outcome.ret.inj h
              exact .inr ⟨rfl, fun herr => absurd herr hfail.2⟩
          · obtain ⟨_, w₅, -, h⟩ := bind_eq_ret.mp h
            exact ih h

theorem regKept_unregisterDone (type : RegType) : Ensures RegKept (unregisterDone type) := by
  intro w done w' h
  obtain ⟨-, rfl⟩ := unregisterDone_eq_ret h
  exact ⟨rfl, rfl⟩

theorem agree_unregisterDone (type : RegType) : Ensures AgreeKept (unregisterDone type) := by
  intro w done w' h
  obtain ⟨-, rfl⟩ := unregisterDone_eq_ret h
  exact id

end

/-- The engine has no table of this kind, and no ring holds one in the kernel. -/
def Engine.TableGone (e : Engine) : RegType → Prop
  | .buffers => e.registeredBuffers = [] ∧ ∀ i < e.ringCount, e.kernelBuffers i = none
  | .files => e.registeredFiles = [] ∧ ∀ i < e.ringCount, e.kernelFiles i = none

/-- A table that is not registered is gone. -/
theorem Engine.TablesAgree.gone {e : Engine} (h : e.TablesAgree) {type : RegType}
    (hidle : e.idle type = true) : e.TableGone type := by
  cases type with
  | buffers =>
      have hnone : e.buffersRegistered = false := by simp_all [Engine.idle]
      obtain ⟨hcopy, hheld⟩ := h.buffers.cleared hnone
      refine ⟨hcopy, fun i hi => (hheld i hi).trans ?_⟩
      exact if_neg (by simp [Engine.bufferTable, hnone])
  | files =>
      have hnone : e.filesRegistered = false := by simp_all [Engine.idle]
      obtain ⟨hcopy, hheld⟩ := h.files.cleared hnone
      refine ⟨hcopy, fun i hi => (hheld i hi).trans ?_⟩
      exact if_neg (by simp [Engine.fileTable, hnone])

/-- **`aura_unregister` waits until the table is gone.** When it returns it has given the
registration lock back, and the tables of the rings agree with the engine's if they did before.
Outside of callbacks it returns zero only if the table is gone; otherwise it returns -1, with a
time-out only when ten seconds have passed. -/
theorem auraUnregister_contract (env : Env) (depth : ℕ) (type : RegType) (w w' : World) (n : ℤ)
    (hagree : w.engine.TablesAgree)
    (h : auraUnregister env (callback env depth) type w = .ret n w') :
    RegKept w w' ∧ w'.engine.TablesAgree ∧ (w.tls.callbackContextDepth = 0 →
      (n = 0 ∧ w'.engine.idle type = true ∧ w'.engine.TableGone type) ∨
      (n = -1 ∧ (w'.tls.errno = ETIMEDOUT →
        env.now w.clock / 1000000 + 10000 ≤ env.now w'.clock / 1000000))) := by
  have hkept := apiStable_regKept.auraUnregister regKept_unregisterDone depth type w n w' h
  have hagree' := apiStable_agree.auraUnregister agree_unregisterDone depth type w n w' h hagree
  refine ⟨hkept, hagree', fun hdepth => ?_⟩
  obtain ⟨d, w₁, hd, h⟩ := bind_eq_ret.mp h
  obtain ⟨rfl, rfl⟩ := Outcome.ret.inj hd
  rw [Prog.ite_apply, if_neg (by simp [hdepth])] at h
  obtain ⟨err, w₂, herr, h⟩ := bind_eq_ret.mp h
  obtain ⟨rfl, hclock⟩ := auraRequestUnregister_eq herr
  rw [Prog.ite_apply, if_neg (by simp)] at h
  obtain ⟨clock, w₃, hc, h⟩ := bind_eq_ret.mp h
  obtain ⟨rfl, rfl⟩ := Outcome.ret.inj hc
  rw [← hclock]
  rcases unregisterLoop_spec h with ⟨rfl, hidle⟩ | hfail
  · exact .inl ⟨rfl, hidle, hagree'.gone hidle⟩
  · exact .inr hfail

/-- A table that nobody uses goes away at once. -/
theorem auraUnregister_contract_unused : ∃ w w', w.engine.buffersRegistered = true ∧
    auraUnregister calmEnv (callback calmEnv 0) .buffers w = .ret 0 w' ∧
    w'.engine.TableGone .buffers := by
  set registered := auraRegisterBuffers calmEnv [⟨0, 64⟩] (.start (auraCreate {} 0 256))
  have hreg : registered = .ret 0 registered.state := rfl
  have hagree := (auraRegisterBuffers_spec (auraCreate_agree {} 0 256) hreg).1
  refine ⟨registered.state, _, rfl, rfl, ?_⟩
  obtain ⟨-, -, hcode⟩ := auraUnregister_contract calmEnv 0 .buffers _ _ 0 hagree rfl
  rcases hcode rfl with ⟨-, -, hgone⟩ | ⟨hneg, -⟩
  · exact hgone
  · cases hneg

/-! ## Programs -/

/-- **Every program of library calls that returns has given the registration lock back**, however
deep its callbacks nest, and is at the callback depth at which it started. -/
theorem runUser_gives_back (env : Env) (depth : ℕ) (p : UserProg) (w w' : World)
    (h : runUser env (callback env depth) p w = .ret () w') :
    w'.engine.regReaders = w.engine.regReaders ∧ w'.engine.regWriter = w.engine.regWriter ∧
      w'.tls.callbackContextDepth = w.tls.callbackContextDepth := by
  have hkept : RegKept w w' :=
    apiStable_regKept.runUser (fun q res => apiStable_regKept.callback depth q res) p w () w' h
  have hnested : Nested w w' :=
    calling_nested.runUser (fun q res => calling_nested.callback depth q res) p w () w' h
  exact ⟨hkept.readers, hkept.writer, hnested.1⟩

/-- A program that registers a table and has it released. -/
theorem runUser_gives_back_table : ∃ w', runUser calmEnv (callback calmEnv 0)
      (.call (.registerBuffers [⟨0, 64⟩]) fun _ =>
        .call (.requestUnregister .buffers) fun _ => .done)
      (.start (auraCreate {} 0 256)) = .ret () w' ∧
    w'.engine.regReaders = 0 ∧ w'.engine.regWriter = false := by
  refine ⟨_, rfl, ?_⟩
  obtain ⟨hreaders, hwriter, -⟩ := runUser_gives_back calmEnv 0
    (.call (.registerBuffers [⟨0, 64⟩]) fun _ =>
      .call (.requestUnregister .buffers) fun _ => .done) (.start (auraCreate {} 0 256)) _ rfl
  exact ⟨hreaders, hwriter⟩

/-! ## `aura_run` -/

/-- Why `aura_run` returns. -/
inductive RunEnd
  /-- A wait failed, and not by a time-out. -/
  | failed
  /-- It was stopped and nothing was left to do. -/
  | drained
  /-- It was stopped a hundred waits ago. -/
  | gaveUp
deriving DecidableEq, Repr

section

variable (env : Env) (cb : Callback) (stopRequested : ℕ → Bool)

/-- The loop of `aura_run`, with its iteration and `drain_iterations`. Callbacks and other threads
may call `aura_stop` at any time: `stopRequested k` is what iteration `k` reads. -/
def runLoop : ℕ → ℕ → ℕ → AuraM (RunEnd × ℕ)
  | 0, _, _ => Prog.block
  | fuel + 1, k, drainIterations => do
      let completed ← auraWait env cb 100
      let err ← getErrno
      if completed < 0 ∧ err ≠ ETIMEDOUT then pure (.failed, k)
      else if !stopRequested k then runLoop fuel (k + 1) 0
      else do
        let pending ← Prog.read fun w => w.engine.hasPending
        if !pending ∧ completed ≤ 0 then pure (.drained, k)
        else if drainIterations + 1 ≥ 100 then pure (.gaveUp, k)
        else runLoop fuel (k + 1) (drainIterations + 1)

/-- `aura_run`. It returns nothing in the source; here it tells why and in which iteration. -/
def auraRun (fuel : ℕ) : AuraM (RunEnd × ℕ) := runLoop env cb stopRequested fuel 0 0

end

section

variable {env : Env} {cb : Callback} {stopRequested : ℕ → Bool} {w w' : World} {m k d fuel : ℕ}

/-- What is true when `aura_run` returns in iteration `j`, for the reason `r`. -/
structure RunEnds (stopRequested : ℕ → Bool) (r : RunEnd) (j : ℕ) (w' : World) : Prop where
  stopped : r ≠ .failed → stopRequested j = true
  drained : r = .drained → w'.engine.hasPending = false
  gaveUp : r = .gaveUp → 99 ≤ j ∧ ∀ i ≤ j, j < i + 100 → stopRequested i = true

/-- From iteration `k` on, if `d` stopped iterations have gone before it. -/
theorem runLoop_spec {r : RunEnd} {j : ℕ} (hd : d ≤ k) (hd' : d < 100)
    (hprev : ∀ i < k, k ≤ i + d → stopRequested i = true)
    (h : runLoop env cb stopRequested fuel k d w = .ret (r, j) w') :
    j < k + fuel ∧ RunEnds stopRequested r j w' := by
  induction fuel generalizing k d w with
  | zero => cases h
  | succ fuel ih =>
      obtain ⟨completed, w₁, hwait, h⟩ := bind_eq_ret.mp h
      obtain ⟨err, w₂, herr, h⟩ := bind_eq_ret.mp h
      rw [Prog.ite_apply] at h
      split at h
      · obtain ⟨hr, rfl⟩ := Outcome.ret.inj h
        cases hr
        exact ⟨by omega, fun hne => absurd rfl hne, nofun, nofun⟩
      rw [Prog.ite_apply] at h
      split at h
      · obtain ⟨hlt, hends⟩ := ih (Nat.zero_le _) (by decide) (by omega) h
        exact ⟨by omega, hends⟩
      next hstop =>
        have hstop : stopRequested k = true := by simpa using hstop
        have hprev' : ∀ i < k + 1, k + 1 ≤ i + (d + 1) → stopRequested i = true := by
          intro i hi hle
          rcases Nat.lt_succ_iff_lt_or_eq.mp hi with hlt | rfl
          · exact hprev i hlt (by omega)
          · exact hstop
        obtain ⟨pending, w₃, hpending, h⟩ := bind_eq_ret.mp h
        obtain ⟨rfl, rfl⟩ := Outcome.ret.inj hpending
        rw [Prog.ite_apply] at h
        split at h
        · next hnone =>
            obtain ⟨hr, rfl⟩ := Outcome.ret.inj h
            cases hr
            exact ⟨by omega, fun _ => hstop, fun _ => by simpa using hnone.1, nofun⟩
        rw [Prog.ite_apply] at h
        split at h
        · next hmany =>
            obtain ⟨hr, rfl⟩ := Outcome.ret.inj h
            cases hr
            exact ⟨by omega, fun _ => hstop, nofun, fun _ => ⟨by omega, fun i hi hlt =>
              hprev' i (by omega) (by omega)⟩⟩
        · obtain ⟨hlt, hends⟩ := ih (by omega) (by omega) hprev' h
          exact ⟨by omega, hends⟩

/-- From iteration `m` on it is stopped: then `b` iterations are enough, and more fuel does not
matter. -/
theorem runLoop_fuel {b fuel' : ℕ} (hstop : ∀ i ≥ m, stopRequested i = true)
    (hb : if m ≤ k then 100 ≤ d + b else m + 100 ≤ k + b) (hd : d < 100) (hfuel : b ≤ fuel)
    (hfuel' : b ≤ fuel') :
    runLoop env cb stopRequested fuel k d = runLoop env cb stopRequested fuel' k d := by
  induction b generalizing k d fuel fuel' with
  | zero => split at hb <;> omega
  | succ b ih =>
      obtain ⟨fuel, rfl⟩ := Nat.exists_eq_add_of_le' (Nat.one_le_of_lt hfuel)
      obtain ⟨fuel', rfl⟩ := Nat.exists_eq_add_of_le' (Nat.one_le_of_lt hfuel')
      refine congrArg (auraWait env cb 100 >>= ·) (funext fun completed => ?_)
      refine congrArg (getErrno >>= ·) (funext fun err => ?_)
      refine if_congr Iff.rfl rfl ?_
      cases hk : stopRequested k with
      | false =>
          have hlt : k < m := by
            by_contra hno
            rw [hstop k (Nat.not_lt.mp hno)] at hk
            cases hk
          rw [if_neg (Nat.not_le.mpr hlt)] at hb
          refine ih ?_ (by decide) (by omega) (by omega)
          split <;> omega
      | true =>
          refine congrArg (Prog.read _ >>= ·) (funext fun pending => ?_)
          refine if_congr Iff.rfl rfl ?_
          split
          · rfl
          · refine ih ?_ (by omega) (by omega) (by omega)
            split at hb <;> split <;> omega

end

end Aura
