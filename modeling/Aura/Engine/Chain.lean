import Aura.Engine.Pinned

/-!
# A chain that breaks

`aura_request_set_linked` pins the thread's next submissions to a ring (`tls_link_ring`) until the
tail of the chain is submitted. When the next submission of a chain fails, `submit_abort` takes the
pin away; the other exits of a failing submission leave it.

* `submitAbort_unpins` — after `submit_abort` there is no pin.
* **`chain_unpinned_iff`** — after a failing submission of a chain the pin is gone exactly when the
  failure went through `submit_abort`, or a callback had ended the chain before.
* `chain_stays_pinned` — a chain that ran out of slots leaves the thread pinned.

`tls_link_depth` only counts; nothing reads it.
-/

namespace Aura

open Lib Lib.Prog

variable {env : Env} {w w' : World}

/-- `submit_abort` takes the pin away. -/
theorem submitAbort_unpins {ctx : SubmitCtx} {u : Unit} (h : submitAbort env ctx w = .ret u w') :
    w'.tls.linkRing = none := by
  obtain ⟨w₁, hflush, rfl⟩ := submitAbort_eq_ret h
  cases hlink : w.tls.linkRing with
  | none =>
      rw [hlink] at hflush
      obtain ⟨-, rfl⟩ := Outcome.ret.inj hflush
      exact hlink
  | some a =>
      rw [hlink] at hflush
      obtain ⟨_, w₂, -, hclear⟩ := bind_eq_ret.mp hflush
      obtain ⟨-, rfl⟩ := Outcome.ret.inj hclear
      rfl

namespace Entry

variable (env : Env) (cb : Callback) (e : Entry) (w : World)

/-- The entry gets a slot from `submit_begin`, and its fixed-file index, if it has one, is valid. -/
def Tries : Prop :=
  ∃ ctx w₁, submitBegin env cb e.allowPoll w = .ret (some ctx) w₁ ∧
    ∀ index ∈ e.lateIndex, w₁.engine.fixedFileValid index = true

/-- A callback that `submit_begin` runs while it makes room ends the chain. -/
def EndedMeanwhile : Prop :=
  ∃ o w₁, submitBegin env cb e.allowPoll w = .ret o w₁ ∧ w.callbacks < w₁.callbacks ∧
    w₁.tls.linkRing = none

end Entry

/-- **A failing submission of a chain takes the pin away exactly when it got as far as
`ring_submit_*`**, unless a callback had ended the chain meanwhile. -/
theorem chain_unpinned_iff (env : Env) (depth : ℕ) (call : SubmitCall) (args : SubmitArgs)
    {w w₁ w' : World} {i : ℕ} {e : Entry} (hchain : w.InChain i)
    (henter : call.enter env args w.marked = .ret (some e) w₁)
    (hfail : auraSubmit env (callback env depth) call args w = .ret none w') :
    w'.tls.linkRing = none ↔
      e.Tries env (callback env depth) w₁ ∨ e.EndedMeanwhile env (callback env depth) w₁ := by
  have hlog := (@calling_logPrefix env).callback depth
  obtain ⟨hvalid, hw₁⟩ := call.enter_enters env args _ _ _ henter
  change submitCall env _ args call w.marked = _ at hfail
  rw [submitCall_eq, Prog.bind_apply, henter, Outcome.bind_ret] at hfail
  obtain ⟨o, w₂, w₃, hbegin, rfl, hrest⟩ := Entry.run_eq_none hvalid hfail
  have hchain₁ : w₁.InChain i := by
    rw [hw₁]
    exact hchain
  have hkept : BeginKept w₁ w₂ := by
    have := @submitBegin_kept env _ w₁ hlog (.inr ⟨i, hchain₁⟩) e.allowPoll
    rwa [hbegin] at this
  have hended : w₂.tls.linkRing = none ↔ e.EndedMeanwhile env (callback env depth) w₁ := by
    constructor
    · intro hnone
      refine ⟨o, w₂, hbegin, lt_of_le_of_ne hkept.callbacks fun heq => ?_, hnone⟩
      refine hchain₁.linkRing_ne ?_
      rw [← (hkept.kept heq.symm).linkRing, hnone]
    · rintro ⟨o', w₂', hbegin', -, hnone⟩
      obtain ⟨-, rfl⟩ := Outcome.ret.inj (hbegin.symm.trans hbegin')
      exact hnone
  have htries : e.Tries env (callback env depth) w₁ ↔
      ∃ ctx, o = some ctx ∧ ∀ index ∈ e.lateIndex, w₂.engine.fixedFileValid index = true := by
    constructor
    · rintro ⟨ctx, w₂', hbegin', hindex⟩
      obtain ⟨rfl, rfl⟩ := Outcome.ret.inj (hbegin.symm.trans hbegin')
      exact ⟨ctx, rfl, hindex⟩
    · rintro ⟨ctx, rfl, hindex⟩
      exact ⟨ctx, w₂, hbegin, hindex⟩
  rw [htries, ← hended]
  change w₃.tls.linkRing = none ↔ _
  cases o with
  | none =>
      cases hrest
      simp
  | some ctx =>
      cases hrest with
      | late index hlate hinvalid => simp [hlate, hinvalid, World.withErrno]
      | aborted q err hq hindex habort =>
          have hnone := submitAbort_unpins habort
          exact iff_of_true hnone (.inl ⟨ctx, rfl, hindex⟩)

/-! ## Two failures inside a chain -/

/-- A thread-local engine with a few request slots, on which a read was submitted and linked. -/
def linkedWorld (queueDepth : ℕ) : World :=
  ((do
    let req ← auraSubmit calmEnv (callback calmEnv 0) (.read 3 (.unregistered (some 2000)) 8 0) {}
    let _ ← auraRequestSetLinked req
    pure ())
    (.start (auraCreate { queueDepth, ringSelect := .threadLocal } 4096 2))).state

/-- A read that is too long goes through `submit_abort`, and the pin is gone. -/
theorem chain_unpinned_too_long : ∃ w, auraSubmit calmEnv (callback calmEnv 0)
      (.read 3 (.unregistered (some 2000)) 4294967296 0) {} (linkedWorld 2) = .ret none w ∧
    w.tls.linkRing = none := by
  have hchain : (linkedWorld 2).InChain 0 := rfl
  refine ⟨_, rfl, (chain_unpinned_iff calmEnv 0 (.read 3 (.unregistered (some 2000)) 4294967296 0)
    {} hchain rfl rfl).mpr (.inl ?_)⟩
  refine ⟨⟨0, 0, true⟩, _, by rfl, ?_⟩
  rintro index ⟨⟩

/-- With a single slot the next submission finds none, and the thread stays pinned to the ring of
the chain. -/
theorem chain_stays_pinned : (linkedWorld 1).InChain 0 ∧
    ∃ w, auraSubmit calmEnv (callback calmEnv 0) (.fsync 3 0) {} (linkedWorld 1) = .ret none w ∧
      w.tls.errno = ENOMEM ∧ w.InChain 0 :=
  ⟨rfl, _, rfl, rfl, rfl⟩

end Aura
