import Aura.Engine.Stable

/-!
# Counting completions

Drains, polls and waits return the number of completions they reaped and processed. `Counted` is
what a two-counter measure of runs has to satisfy for that to be true of it: `R a b w w'` says that
the run from `w` to `w'` reaped `a` completions and processed `b`, the first counted only on rings
in `P`. `Counts I R p` says that from worlds in `I` on, `p` returns the number it reaped and
processed.

* `Counted.ringPoll`, `Counted.ringWait` — the ring level.
* `Counted.auraWait` — `aura_wait` on all its paths, where an error counts as zero.
-/

namespace Aura

open Lib Lib.Prog

/-- All rings of the engine are in `P`. -/
def World.RingsIn (P : ℕ → Prop) (w : World) : Prop := ∀ i < w.engine.ringCount, P i

/-- A measure of reaped and processed completions. -/
structure Counted (env : Env) (cb : Callback) (I : World → Prop) (P : ℕ → Prop)
    (R : ℕ → ℕ → World → World → Prop) : Prop where
  moving : Moving fun (α : Type) (p : AuraM α) => Ensures (R 0 0) p
  latching : ∀ i, Ensures (R 0 0) (ringFlushLatching env i)
  fast : ∀ i, Ensures (R 0 0) (ringFlushFast env i)
  finalize : Ensures (R 0 0) maybeFinalizeDeferredUnregistration
  add : ∀ {a b a' b' w w' w''}, R a b w w' → R a' b' w' w'' → R (a + a') (b + b') w w''
  bound : ∀ {a b w w'}, R a b w w' → I w → I w'
  reap : ∀ {w : World} {i : ℕ}, P i → (w.ring i).cq ≠ [] →
    R 1 0 w (w.setRing i (w.ring i).cqeSeen)
  process : ∀ i c, Ensures (R 0 1) (processCqe env cb i c)

/-- `p` returns the number of completions it reaped and processed. -/
def Counts (I : World → Prop) (R : ℕ → ℕ → World → World → Prop) (p : AuraM ℕ) : Prop :=
  ∀ w n w', I w → p w = .ret n w' → R n n w w'

/-- `p` returns the number of completions it reaped and processed, or an error and nothing. -/
def CountsInt (I : World → Prop) (R : ℕ → ℕ → World → World → Prop) (p : AuraM ℤ) : Prop :=
  ∀ w n w', I w → p w = .ret n w' → R n.toNat n.toNat w w'

section

variable {I : World → Prop} {P : ℕ → Prop} {R : ℕ → ℕ → World → World → Prop}

theorem Counts.ite {c : Prop} [Decidable c] {p q : AuraM ℕ} (hp : Counts I R p)
    (hq : Counts I R q) :
    Counts I R (if c then p else q) := by
  split
  · exact hp
  · exact hq

theorem CountsInt.ite {c : Prop} [Decidable c] {p q : AuraM ℤ} (hp : CountsInt I R p)
    (hq : CountsInt I R q) : CountsInt I R (if c then p else q) := by
  split
  · exact hp
  · exact hq

theorem CountsInt.allRings (hI : ∀ w, I w → w.RingsIn P) {f : List ℕ → AuraM ℤ}
    (hf : ∀ is, (∀ i ∈ is, P i) → CountsInt I R (f is)) : CountsInt I R (allRings >>= f) := by
  intro w n w' hw hs
  exact hf _ (fun i hi => hI w hw i (List.mem_range.mp hi)) w n w' hw hs

/-- A count is a count when it is returned as an `int`. -/
theorem Counts.int {p : AuraM ℕ} (hp : Counts I R p) :
    CountsInt I R (do let n ← p; pure (n : ℤ)) := by
  intro w n w' hw hs
  obtain ⟨m, w₁, hm, hpure⟩ := bind_eq_ret.mp hs
  obtain ⟨rfl, rfl⟩ := Outcome.ret.inj hpure
  exact hp w m _ hw hm

end

namespace Counted

variable {env : Env} {cb : Callback} {I : World → Prop} {P : ℕ → Prop}
  {R : ℕ → ℕ → World → World → Prop} {w w' w'' : World} {a b : ℕ}

section

variable (h : Counted env cb I P R)

include h

/-! ## Adding up -/

theorem refl (w : World) : R 0 0 w w := h.moving.pure () w () w rfl

theorem after (h₁ : R 0 0 w w') (h₂ : R a b w' w'') : R a b w w'' := by
  simpa using h.add h₁ h₂

theorem before (h₁ : R a b w w') (h₂ : R 0 0 w' w'') : R a b w w'' := by
  simpa using h.add h₁ h₂

/-- What counts nothing may come first. -/
theorem counts_bind {α : Type} {p : AuraM α} {f : α → AuraM ℕ} (hp : Ensures (R 0 0) p)
    (hf : ∀ a, Counts I R (f a)) : Counts I R (p >>= f) := by
  intro w n w' hw hs
  obtain ⟨a, w₁, ha, hb⟩ := bind_eq_ret.mp hs
  have h₁ := hp w a w₁ ha
  exact h.after h₁ (hf a w₁ n w' (h.bound h₁ hw) hb)

theorem countsInt_bind {α : Type} {p : AuraM α} {f : α → AuraM ℤ} (hp : Ensures (R 0 0) p)
    (hf : ∀ a, CountsInt I R (f a)) : CountsInt I R (p >>= f) := by
  intro w n w' hw hs
  obtain ⟨a, w₁, ha, hb⟩ := bind_eq_ret.mp hs
  have h₁ := hp w a w₁ ha
  exact h.after h₁ (hf a w₁ n w' (h.bound h₁ hw) hb)

theorem counts_zero : Counts I R (pure 0 : AuraM ℕ) := by
  intro w n w' _ hs
  cases hs
  exact h.refl w

/-- An error, or nothing to report. -/
theorem countsInt_pure {n : ℤ} (hn : n ≤ 0) : CountsInt I R (pure n : AuraM ℤ) := by
  intro w m w' _ hs
  cases hs
  rw [Int.toNat_of_nonpos hn]
  exact h.refl w

/-! ## Drains -/

theorem reapCqe {i : ℕ} (hi : P i) {c : Option Cqe} (hs : Aura.reapCqe env i w = .ret c w') :
    R c.toList.length 0 w w' := by
  rw [reapCqe_apply] at hs
  obtain ⟨rfl, rfl⟩ := Outcome.ret.inj hs
  have hturn : R 0 0 w (w.turn env) := h.moving.kernelTurn w () _ rfl
  cases hcq : ((w.turn env).ring i).cq with
  | nil =>
      have hmove : R 0 0 (w.turn env) ((w.turn env).setRing i ((w.turn env).ring i).cqeSeen) :=
        h.moving.onRing (i := i) (fun _ => .reap) (w.turn env) () _ rfl
      exact h.after hturn hmove
  | cons c cs => exact h.after hturn (h.reap hi (by simp [hcq]))

theorem reapBatch {i : ℕ} (hi : P i) {n : ℕ} {cs : List Cqe}
    (hs : Aura.reapBatch env i n w = .ret cs w') : R cs.length 0 w w' := by
  induction n generalizing w cs with
  | zero =>
      cases hs
      exact h.refl _
  | succ n ih =>
      obtain ⟨c, w₁, hc, hrest⟩ := bind_eq_ret.mp hs
      have hreap := h.reapCqe hi hc
      cases c with
      | none =>
          cases hrest
          exact hreap
      | some c =>
          obtain ⟨cs', w₂, hcs, hpure⟩ := bind_eq_ret.mp hrest
          obtain ⟨rfl, rfl⟩ := Outcome.ret.inj hpure
          have := h.add hreap (ih hcs)
          simpa [Nat.add_comm] using this

theorem processBatch {i : ℕ} {cs : List Cqe} {es : List RetireEntry}
    (hs : Aura.processBatch env cb i cs w = .ret es w') : R 0 cs.length w w' := by
  induction cs generalizing w es with
  | nil =>
      cases hs
      exact h.refl _
  | cons c cs ih =>
      obtain ⟨e, w₁, he, hrest⟩ := bind_eq_ret.mp hs
      obtain ⟨es', w₂, hes, hpure⟩ := bind_eq_ret.mp hrest
      cases hpure
      have := h.add (h.process i c w e w₁ he) (ih hes)
      simpa [Nat.add_comm] using this

/-- The batched drain, from `n` completions on. -/
theorem drainLoop {i : ℕ} (hi : P i) {fuel n m : ℕ}
    (hs : Aura.drainLoop env cb i fuel n w = .ret m w') : ∃ k, m = n + k ∧ R k k w w' := by
  induction fuel generalizing w n with
  | zero => cases hs
  | succ fuel ih =>
      obtain ⟨size, w₁, hsize, hs⟩ := bind_eq_ret.mp hs
      obtain ⟨cqSt, w₂, hlock, hs⟩ := bind_eq_ret.mp hs
      obtain ⟨batch, w₃, hbatch, hs⟩ := bind_eq_ret.mp hs
      obtain ⟨_, w₄, hunlock, hs⟩ := bind_eq_ret.mp hs
      have hreap : R batch.length 0 w w₄ :=
        h.before (h.after (h.moving.readRing i _ w size w₁ hsize) (h.after
          (h.moving.ringCqLock i w₁ cqSt w₂ hlock) (h.reapBatch hi hbatch)))
          (h.moving.ringCqUnlock i cqSt w₃ _ w₄ hunlock)
      rw [Prog.ite_apply] at hs
      split at hs
      · next hnil =>
          obtain ⟨rfl, rfl⟩ := Outcome.ret.inj hs
          rw [hnil] at hreap
          exact ⟨0, rfl, hreap⟩
      · obtain ⟨es, w₅, hes, hs⟩ := bind_eq_ret.mp hs
        obtain ⟨st, w₆, hst, hs⟩ := bind_eq_ret.mp hs
        obtain ⟨_, w₇, hretire, hs⟩ := bind_eq_ret.mp hs
        obtain ⟨_, w₈, hrel, hs⟩ := bind_eq_ret.mp hs
        obtain ⟨k, rfl, hk⟩ := ih hs
        have hrest : R 0 0 w₅ w₈ := h.after (h.moving.ringLock i w₅ st w₆ hst) (h.after
          (h.moving.onRing (fun _ => .retireBatch es) w₆ _ w₇ hretire)
          (h.moving.ringUnlock i st w₇ _ w₈ hrel))
        refine ⟨batch.length + k, by omega, ?_⟩
        have := h.add hreap (h.processBatch hes)
        rw [Nat.add_zero, Nat.zero_add] at this
        exact h.add this (h.after hrest hk)

theorem ringDrainCqes {i : ℕ} (hi : P i) : Counts I R (Aura.ringDrainCqes env cb i) := by
  intro w n w' _ hs
  obtain ⟨k, rfl, hk⟩ := h.drainLoop hi hs
  rwa [Nat.zero_add]

/-- The fast drain, from `n` completions on. -/
theorem drainFastLoop {i : ℕ} (hi : P i) {fuel n m : ℕ}
    (hs : Aura.drainFastLoop env cb i fuel n w = .ret m w') : ∃ k, m = n + k ∧ R k k w w' := by
  induction fuel generalizing w n with
  | zero => cases hs
  | succ fuel ih =>
      obtain ⟨c, w₁, hc, hs⟩ := bind_eq_ret.mp hs
      have hreap := h.reapCqe hi hc
      cases c with
      | none =>
          cases hs
          exact ⟨0, rfl, hreap⟩
      | some c =>
          obtain ⟨e, w₂, he, hs⟩ := bind_eq_ret.mp hs
          obtain ⟨_, w₃, hretire, hs⟩ := bind_eq_ret.mp hs
          obtain ⟨k, rfl, hk⟩ := ih hs
          refine ⟨1 + k, by omega, ?_⟩
          have := h.add hreap (h.process i c w₁ e w₂ he)
          exact h.add this
            (h.after (h.moving.onRing (fun _ => .retireInline e) w₂ _ w₃ hretire) hk)

theorem ringDrainCqesFast {i : ℕ} (hi : P i) : Counts I R (Aura.ringDrainCqesFast env cb i) := by
  refine h.counts_bind (h.moving.readRing i _) fun _ => .ite h.counts_zero fun w n w' _ hs => ?_
  obtain ⟨k, rfl, hk⟩ := h.drainFastLoop hi hs
  rwa [Nat.zero_add]

theorem ringPoll {i : ℕ} (hi : P i) : Counts I R (Aura.ringPoll env cb i) :=
  h.counts_bind (h.moving.readRing i _) fun _ => .ite h.counts_zero
    (.ite (h.ringDrainCqesFast hi) (h.ringDrainCqes hi))

/-! ## Waiting on one ring -/

theorem ringWaitDrain {i : ℕ} (hi : P i) (ret : ℤ) :
    CountsInt I R (Aura.ringWaitDrain env cb i ret) :=
  .ite (h.countsInt_bind (h.moving.setErrno _) fun _ => h.countsInt_pure (by omega))
    (h.ringDrainCqes hi).int

theorem ringWait {i : ℕ} (hi : P i) (timeoutMs : ℤ) :
    CountsInt I R (Aura.ringWait env cb i timeoutMs) := by
  refine h.countsInt_bind (h.moving.readRing i _) fun r => ?_
  refine .ite (h.countsInt_bind (h.moving.setErrno _) fun _ => h.countsInt_pure (by omega)) ?_
  refine .ite (h.countsInt_pure le_rfl) (.ite ?_ ?_)
  · exact (Counts.ite (h.ringDrainCqesFast hi) (h.ringDrainCqes hi)).int
  · refine h.countsInt_bind (h.moving.ringCqLock i) fun cqSt => ?_
    refine h.countsInt_bind (h.moving.peekCqe i) fun c => ?_
    refine h.countsInt_bind (h.moving.ringCqUnlock i cqSt) fun _ => ?_
    refine .ite (h.ringDrainCqes hi).int (h.countsInt_bind ?_ fun ret => h.ringWaitDrain hi ret)
    exact h.moving.ite (h.moving.waitForever i _) (h.moving.waitCqe i)

/-! ## `aura_wait` -/

theorem overRings {f : ℕ → AuraM ℕ} (hf : ∀ i, P i → Counts I R (f i)) {is : List ℕ}
    (his : ∀ i ∈ is, P i) : Counts I R (Aura.overRings f is) := by
  induction is with
  | nil => exact h.counts_zero
  | cons i is ih =>
      intro w n w' hw hs
      obtain ⟨k, w₁, hk, hs⟩ := bind_eq_ret.mp hs
      obtain ⟨m, w₂, hm, hpure⟩ := bind_eq_ret.mp hs
      obtain ⟨rfl, rfl⟩ := Outcome.ret.inj hpure
      have h₁ := hf i (his i List.mem_cons_self) w k w₁ hw hk
      exact h.add h₁ (ih (fun j hj => his j (List.mem_cons_of_mem i hj)) w₁ m _ (h.bound h₁ hw) hm)

theorem flushRingChecked (i : ℕ) : Ensures (R 0 0) (Aura.flushRingChecked env i) :=
  h.moving.bind (h.latching i) fun
    | .ok => h.moving.pure _
    | .retry => h.moving.andThen (h.moving.setErrno _) (h.moving.pure _)
    | .fatal => h.moving.pure _

/-- `waitReturn` returns what it is given. -/
theorem waitReturn {n : ℕ} {m : ℤ} (hs : Aura.waitReturn n w = .ret m w') :
    m = n ∧ R 0 0 w w' := by
  obtain ⟨fin, w₁, hfin, hs⟩ := bind_eq_ret.mp hs
  rw [maybeFinalizeDeferredUnregistration_eq hfin] at hs
  obtain ⟨rfl, rfl⟩ := Outcome.ret.inj hs
  exact ⟨rfl, h.finalize w fin _ hfin⟩

theorem waitTimedOut : CountsInt I R Aura.waitTimedOut :=
  h.countsInt_bind h.finalize fun _ => .ite (h.countsInt_pure (by omega))
    (h.countsInt_bind (h.moving.setErrno _) fun _ => h.countsInt_pure (by omega))

/-- A positive count is returned, zero becomes something else. -/
theorem countsInt_waitReturn {p : AuraM ℕ} (hp : Counts I R p) {q : AuraM ℤ}
    (hq : CountsInt I R q) :
    CountsInt I R (do let n ← p; if n > 0 then Aura.waitReturn n else q) := by
  intro w m w' hw hs
  obtain ⟨n, w₁, hn, hs⟩ := bind_eq_ret.mp hs
  have h₁ := hp w n w₁ hw hn
  rw [Prog.ite_apply] at hs
  split at hs
  · obtain ⟨rfl, h₂⟩ := h.waitReturn hs
    exact h.before h₁ h₂
  · next hpos =>
      have hzero : n = 0 := by omega
      rw [hzero] at h₁
      exact h.after h₁ (hq w₁ m w' (h.bound h₁ hw) hs)

theorem waitLastPoll (hI : ∀ w, I w → w.RingsIn P) : CountsInt I R (Aura.waitLastPoll env cb) :=
  CountsInt.allRings hI fun _ his =>
    h.countsInt_waitReturn (h.overRings (fun _ hi => h.ringPoll hi) his) h.waitTimedOut

theorem flushAndPoll {i : ℕ} (hi : P i) : Counts I R (Aura.flushAndPoll env cb i) :=
  h.counts_bind (h.moving.ringLock i) fun st => h.counts_bind (h.flushRingChecked i) fun _ =>
    h.counts_bind (h.moving.ringUnlock i st) fun _ => h.ringPoll hi

theorem waitOnEventfd (hI : ∀ w, I w → w.RingsIn P) (timeoutMs : ℤ) :
    CountsInt I R (Aura.waitOnEventfd env cb timeoutMs) := by
  refine h.countsInt_bind (h.moving.pollEventfd timeoutMs) fun r => ?_
  cases r with
  | timeout => exact h.waitLastPoll hI
  | error e => exact .ite (h.countsInt_pure (by omega)) (h.waitLastPoll hI)
  | ready =>
      refine h.countsInt_bind h.moving.drainEventfd fun _ => CountsInt.allRings hI fun is his => ?_
      intro w m w' hw hs
      obtain ⟨n, w₁, hn, hs⟩ := bind_eq_ret.mp hs
      obtain ⟨fin, w₂, hfin, hs⟩ := bind_eq_ret.mp hs
      have h₁ := h.before (h.overRings (fun _ hi => h.flushAndPoll hi) his w n w₁ hw hn)
        (h.finalize w₁ fin w₂ hfin)
      rw [maybeFinalizeDeferredUnregistration_eq hfin, if_neg (by simp), Prog.ite_apply] at hs
      split at hs
      · obtain ⟨rfl, rfl⟩ := Outcome.ret.inj hs
        exact h₁
      · next hpos =>
          have hzero : n = 0 := by omega
          rw [hzero] at h₁
          exact h.after h₁ (h.waitLastPoll hI w₂ m w' (h.bound h₁ hw) hs)

theorem waitOnRing (hI : ∀ w, I w → w.RingsIn P) {first : ℕ} (hfirst : P first) (timeoutMs : ℤ) :
    CountsInt I R (Aura.waitOnRing env cb first timeoutMs) := by
  intro w m w' hw hs
  obtain ⟨n, w₁, hn, hs⟩ := bind_eq_ret.mp hs
  have h₁ := h.ringWait hfirst timeoutMs w n w₁ hw hn
  have hw₁ := h.bound h₁ hw
  rw [Prog.ite_apply] at hs
  split at hs
  · next hpos =>
      obtain ⟨rings, w₂, hrings, hs⟩ := bind_eq_ret.mp hs
      obtain ⟨rfl, rfl⟩ := Outcome.ret.inj hrings
      obtain ⟨more, w₃, hmore, hs⟩ := bind_eq_ret.mp hs
      obtain ⟨rfl, h₃⟩ := h.waitReturn hs
      have h₂ := h.overRings (fun _ hi => h.ringPoll hi)
        (fun i hi => hI _ hw₁ i (List.mem_range.mp (List.mem_of_mem_filter hi))) _ more w₃ hw₁ hmore
      exact h.before (h.add h₁ h₂) h₃
  · next hpos =>
      have hzero : n.toNat = 0 := by omega
      rw [hzero] at h₁
      refine h.after h₁ ?_
      rw [Prog.ite_apply] at hs
      split at hs
      · exact h.countsInt_pure (n := -1) (by omega) w₁ m w' hw₁ hs
      · exact h.waitTimedOut w₁ m w' hw₁ hs

/-- The flush-and-poll pass returns its count last, and finds a pending ring among those it looks
at. -/
theorem waitPass {is : List ℕ} (his : ∀ i ∈ is, P i) {fatal : Bool} {first : Option ℕ} {n : ℕ}
    (hw : I w) (hs : Aura.waitPass env cb is w = .ret (fatal, first, n) w') :
    R n n w w' ∧ ∀ i ∈ first, P i := by
  induction is generalizing w fatal first n with
  | nil =>
      obtain ⟨hp, rfl⟩ := Outcome.ret.inj hs
      cases hp
      exact ⟨h.refl _, by simp⟩
  | cons i is ih =>
      obtain ⟨st, w₁, hst, hs⟩ := bind_eq_ret.mp hs
      obtain ⟨f, w₂, hf, hs⟩ := bind_eq_ret.mp hs
      obtain ⟨pending, w₃, hpending, hs⟩ := bind_eq_ret.mp hs
      obtain ⟨_, w₄, hunlock, hs⟩ := bind_eq_ret.mp hs
      obtain ⟨k, w₅, hk, hs⟩ := bind_eq_ret.mp hs
      obtain ⟨⟨f', first', m⟩, w₆, hrest, hs⟩ := bind_eq_ret.mp hs
      obtain ⟨hp, rfl⟩ := Outcome.ret.inj hs
      cases hp
      have h₁ : R 0 0 w w₄ := h.after (h.moving.ringLock i w st w₁ hst) (h.after
        (h.flushRingChecked i w₁ f w₂ hf) (h.after (h.moving.readRing i _ w₂ pending w₃ hpending)
          (h.moving.ringUnlock i st w₃ _ w₄ hunlock)))
      have hi := his i List.mem_cons_self
      have h₂ := h.after h₁ (h.ringPoll hi w₄ k w₅ (h.bound h₁ hw) hk)
      obtain ⟨h₃, hfirst⟩ :=
        ih (fun j hj => his j (List.mem_cons_of_mem i hj)) (h.bound h₂ hw) hrest
      refine ⟨h.add h₂ h₃, ?_⟩
      split
      · simpa using hi
      · exact hfirst

theorem waitPending (hI : ∀ w, I w → w.RingsIn P) (timeoutMs : ℤ) {first : Option ℕ}
    (hfirst : ∀ i ∈ first, P i) : CountsInt I R (Aura.waitPending env cb timeoutMs first) := by
  cases first with
  | none => exact h.countsInt_pure le_rfl
  | some i =>
      exact h.countsInt_bind (h.moving.read _) fun _ =>
        CountsInt.ite (h.waitOnEventfd hI timeoutMs) (h.waitOnRing hI (hfirst i rfl) timeoutMs)

theorem waitGeneral (hI : ∀ w, I w → w.RingsIn P) (timeoutMs : ℤ) :
    CountsInt I R (Aura.waitGeneral env cb timeoutMs) := by
  refine h.countsInt_bind (h.moving.read _) fun latched => h.countsInt_bind h.finalize fun fin => ?_
  refine .ite (h.countsInt_pure (by omega)) ?_
  refine h.countsInt_bind h.moving.drainEventfdIfRegistered fun _ => CountsInt.allRings hI ?_
  intro is his w m w' hw hs
  obtain ⟨⟨fatal, first, n⟩, w₁, hpass, hs⟩ := bind_eq_ret.mp hs
  obtain ⟨h₁, hfirst⟩ := h.waitPass his hw hpass
  have hw₁ := h.bound h₁ hw
  dsimp only at hs
  rw [Prog.ite_apply] at hs
  split at hs
  · obtain ⟨rfl, h₂⟩ := h.waitReturn hs
    exact h.before h₁ h₂
  · next hpos =>
      have hzero : n = 0 := by omega
      rw [hzero] at h₁
      refine h.after h₁ ?_
      have herr : CountsInt I R (do
          let err ← Prog.read fun w => w.engine.fatalSubmitErrno
          setErrno err
          pure (-1)) :=
        h.countsInt_bind (h.moving.read _) fun _ => h.countsInt_bind (h.moving.setErrno _)
          fun _ => h.countsInt_pure (by omega)
      exact CountsInt.ite herr (h.waitPending hI timeoutMs hfirst) w₁ m w' hw₁ hs

theorem pollOwn {i : ℕ} (hi : P i) : Counts I R (Aura.pollOwn env cb i) := by
  have hflush : Ensures (R 0 0) (Aura.flushOwn env i) :=
    h.moving.bind (h.moving.readRing i _) fun _ => h.moving.ite
      (h.moving.andThen (h.fast i) (h.moving.pure _))
      (h.moving.bind (h.moving.ringLock i) fun st =>
        h.moving.andThen (h.flushRingChecked i) (h.moving.ringUnlock i st))
  have hfin : Ensures (R 0 0) Aura.finalizeOwn :=
    h.moving.bind (h.moving.read _) fun _ =>
      h.moving.when (h.moving.andThen h.finalize (h.moving.pure _))
  refine h.counts_bind hflush fun _ => ?_
  intro w n w' hw hs
  obtain ⟨k, w₁, hk, hs⟩ := bind_eq_ret.mp hs
  obtain ⟨_, w₂, hw₂, hs⟩ := bind_eq_ret.mp hs
  obtain ⟨rfl, rfl⟩ := Outcome.ret.inj hs
  exact h.before (h.ringPoll hi w k w₁ hw hk) (hfin w₁ _ _ hw₂)

theorem waitOwn {i : ℕ} (hi : P i) (timeoutMs : ℤ) :
    CountsInt I R (Aura.waitOwn env cb i timeoutMs) := by
  intro w m w' hw hs
  obtain ⟨n, w₁, hn, hs⟩ := bind_eq_ret.mp hs
  have h₁ := h.pollOwn hi w n w₁ hw hn
  rw [Prog.ite_apply] at hs
  split at hs
  · obtain ⟨rfl, rfl⟩ := Outcome.ret.inj hs
    exact h₁
  · next hpos =>
      have hzero : n = 0 := by omega
      rw [hzero] at h₁
      exact h.after h₁ (h.ringWait hi timeoutMs w₁ m w' (h.bound h₁ hw) hs)

/-- **`aura_wait` returns the number of completions it reaped and processed**, on all its paths. -/
theorem auraWait (hI : ∀ w, I w → w.RingsIn P) (timeoutMs : ℤ) :
    CountsInt I R (Aura.auraWait env cb timeoutMs) := by
  intro w m w' hw hs
  obtain ⟨own, w₁, hown, hs⟩ := bind_eq_ret.mp hs
  obtain ⟨rfl, rfl⟩ := Outcome.ret.inj hown
  cases hw₀ : w.ownRing with
  | none =>
      rw [hw₀] at hs
      exact h.waitGeneral hI timeoutMs w m w' hw hs
  | some i =>
      rw [hw₀] at hs
      exact h.waitOwn (hI w hw i (ownRing_lt hw₀)) timeoutMs w m w' hw hs

end

end Counted

end Aura
