import Aura.Engine.Normal
import Aura.Engine.Stable

/-!
# Submission calls through their entries

What the normal form of `Aura.Engine.Normal` gives for the properties of `Aura.Engine.Stable`: a
submission call is a `submit_begin`, a stable rest, and the release of the registration lock.

* `Stable.auraSubmit_ensures` — a relation that stable programs ensure is ensured by submission
  calls, if it bears with `errno` and with the registration lock held in between.
-/

namespace Aura

open Lib Lib.Prog

variable {env : Env} {cb : Callback} {K : ProgProp}

namespace Stable

theorem submitOn (h : Stable env K) {e : Entry} (he : e.Valid) (ctx : SubmitCtx) :
    K _ (e.submitOn env ctx) := by
  refine h.andThen (h.bind (h.read _) fun eng => h.andThen ?_ ?_) ?_
  · exact h.fillRequest ctx fun r q => he.fill eng r q
  · exact h.when (h.addFixedBuf _)
  · refine h.bind (h.submit he.submits ctx) fun ok => h.ite ?_ ?_
    · exact h.andThen (h.submitEnd ctx) (h.pure _)
    · exact h.andThen (h.when (h.subFixedBuf _)) (h.andThen (h.submitAbort ctx) (h.pure _))

theorem finish (h : Stable env K) {e : Entry} (he : e.Valid) (ctx : SubmitCtx) :
    K _ (e.finish env ctx) := by
  unfold Entry.finish
  cases e.lateIndex with
  | none => exact h.submitOn he ctx
  | some index =>
      exact h.bind (h.validateFixedFile index) fun _ => h.ite (h.submitOn he ctx) (h.pure _)

end Stable

/-- The world after the entry let go of the registration lock. -/
def World.left (w : World) (locked : Bool) : World :=
  { w with engine := { w.engine with regReaders := w.engine.regReaders - locked.toNat } }

theorem Entry.leave_apply (e : Entry) (w : World) : e.leave w = .ret () (w.left e.locked) := by
  unfold Entry.leave
  cases e.locked <;> rfl

/-- An entry that ran: `submit_begin` with what follows it, and the release of the lock. -/
theorem Entry.run_eq_ret {e : Entry} {w w' : World} {o : Option ReqPtr}
    (h : e.run env cb w = .ret o w') :
    ∃ ctx w₁ w₂, submitBegin env cb e.allowPoll w = .ret ctx w₁ ∧ w' = w₂.left e.locked ∧
      match ctx with
      | none => o = none ∧ w₂ = w₁
      | some ctx => e.finish env ctx w₁ = .ret o w₂ := by
  obtain ⟨ctx, w₁, hbegin, h⟩ := bind_eq_ret.mp h
  cases ctx with
  | none =>
      obtain ⟨_, w₂, hleave, h⟩ := bind_eq_ret.mp h
      rw [Entry.leave_apply] at hleave
      obtain ⟨-, rfl⟩ := Outcome.ret.inj hleave
      obtain ⟨rfl, rfl⟩ := Outcome.ret.inj h
      exact ⟨none, w₁, w₁, hbegin, rfl, rfl, rfl⟩
  | some ctx =>
      obtain ⟨req, w₂, hfinish, h⟩ := bind_eq_ret.mp h
      obtain ⟨_, w₃, hleave, h⟩ := bind_eq_ret.mp h
      rw [Entry.leave_apply] at hleave
      obtain ⟨-, rfl⟩ := Outcome.ret.inj hleave
      obtain ⟨rfl, rfl⟩ := Outcome.ret.inj h
      exact ⟨some ctx, w₁, w₂, hbegin, rfl, hfinish⟩

/-- **A relation that stable programs ensure is ensured by submission calls.** -/
theorem Stable.auraSubmit_ensures {R : World → World → Prop}
    (h : Stable env fun (α : Type) (p : AuraM α) => Ensures R p)
    (htrans : ∀ {w w' w''}, R w w' → R w' w'' → R w w'')
    (herrno : ∀ (w : World) err, R w (w.marked.withErrno err))
    (hlock : ∀ {w w' : World} {locked : Bool}, R (w.marked.withReader locked) w' →
      R w (w'.left locked))
    (hcb : ∀ q res, Ensures R (cb q res)) (call : SubmitCall) (args : SubmitArgs) :
    Ensures R (auraSubmit env cb call args) := by
  intro w o w' hs
  rcases auraSubmit_eq_ret hs with ⟨-, err, rfl⟩ | ⟨e, he, hs⟩
  · exact herrno w err
  · obtain ⟨ctx, w₁, w₂, hbegin, rfl, hrest⟩ := Entry.run_eq_ret hs
    have h₁ := h.submitBegin hcb e.allowPoll _ _ _ hbegin
    cases ctx with
    | none =>
        obtain ⟨-, rfl⟩ := hrest
        exact hlock h₁
    | some ctx => exact hlock (htrans h₁ (h.finish he ctx _ _ _ hrest))

end Aura
