import Aura.Engine.Entries

/-!
# How a submission call fails

A submission call that returns `NULL` failed before `submit_begin`, inside it, at a fixed-file index
that is looked at only afterwards, or at its `ring_submit_*` function. Only the last of these goes
through `submit_abort`. `Entry.Failure` says what each does to the world that `submit_begin` left,
and `Entry.run_eq_none` that there are no others.
-/

namespace Aura

open Lib Lib.Prog

variable {env : Env} {cb : Callback} {w w' : World}

/-- `submit_abort` gives the slot back, leaves the chain if there is one, and lets the lock go. -/
theorem submitAbort_eq_ret {ctx : SubmitCtx} {u : Unit} (h : submitAbort env ctx w = .ret u w') :
    ∃ w₁, Prog.when w.tls.linkRing.isSome (do
          let _ ← ringFlush env .abort ctx.ring
          clearLink)
        (w.setRing ctx.ring (ringPutRequest (w.ring ctx.ring) ctx.opIdx)) = .ret () w₁ ∧
      w' = w₁.setRing ctx.ring ((w₁.ring ctx.ring).unlock ctx.lockSt) := by
  obtain ⟨_, w₀, hput, h⟩ := bind_eq_ret.mp h
  obtain ⟨-, rfl⟩ := Outcome.ret.inj hput
  obtain ⟨linked, w₁, hread, h⟩ := bind_eq_ret.mp h
  obtain ⟨rfl, rfl⟩ := Outcome.ret.inj hread
  obtain ⟨_, w₂, hflush, h⟩ := bind_eq_ret.mp h
  obtain ⟨-, rfl⟩ := Outcome.ret.inj h
  exact ⟨w₂, hflush, rfl⟩

@[simp] theorem World.setRing_setRing (w : World) (i : ℕ) (r r' : RingCtx) :
    (w.setRing i r).setRing i r' = w.setRing i r' := by
  simp [World.setRing]

@[simp] theorem World.setRing_ring_self (w : World) (i : ℕ) : w.setRing i (w.ring i) = w := by
  simp [World.setRing, World.ring]

namespace Entry

/-- The failures after `submit_begin`, with the world it left and the one the failure leaves. -/
inductive Failure (env : Env) (e : Entry) (ctx : SubmitCtx) (w : World) : World → Prop
  /-- The index of `validate_fixed_file` is not valid; the call returns at once. -/
  | late (index : ℤ) (hlate : e.lateIndex = some index)
      (hinvalid : w.engine.fixedFileValid index = false) : Failure env e ctx w (w.withErrno EINVAL)
  /-- `ring_submit_*` fails on the request `q`; the slot goes through `submit_abort`. -/
  | aborted (q : Request) (err : ℤ) {w' : World}
      (hq : ((w.ring ctx.ring).requests ctx.opIdx).SameSlot q)
      (hvalid : ∀ index ∈ e.lateIndex, w.engine.fixedFileValid index = true)
      (habort : submitAbort env ctx ((w.setRing ctx.ring
        ((w.ring ctx.ring).setRequest ctx.opIdx q)).withErrno err) = .ret () w') :
      Failure env e ctx w w'

variable {e : Entry} {ctx : SubmitCtx}

/-- The world with the request written. -/
def written (e : Entry) (ctx : SubmitCtx) (w : World) : World :=
  w.setRing ctx.ring ((w.ring ctx.ring).setRequest ctx.opIdx
    (e.fill w.engine (w.ring ctx.ring) ((w.ring ctx.ring).requests ctx.opIdx)))

/-- A change of a ring that is taken back leaves only the error behind. -/
theorem onRing_undo {f g : RingCtx → RingCtx} {i : ℕ} (hfg : ∀ r, g (f r) = r) (w : World)
    (err : ℤ) :
    onRing i g ((w.setRing i (f (w.ring i))).withErrno err) = .ret () (w.withErrno err) := by
  have hring : ((w.setRing i (f (w.ring i))).withErrno err).ring i = f (w.ring i) :=
    w.setRing_self i _
  have hback : (w.setRing i (f (w.ring i))).setRing i (w.ring i) = w := by simp
  unfold onRing
  rw [Prog.modify_apply, hring, hfg]
  exact congrArg (Outcome.ret ()) (congrArg (World.withErrno · err) hback)

theorem subFixedBuf_undo (w : World) (i : ℕ) (err : ℤ) :
    subFixedBuf i ((w.setRing i { w.ring i with
      fixedBufInflight := (w.ring i).fixedBufInflight + 1 }).withErrno err) =
      .ret () (w.withErrno err) :=
  onRing_undo (f := fun r => { r with fixedBufInflight := r.fixedBufInflight + 1 })
    (fun r => by simp) w err

/-- A submission that failed went through `submit_abort`, with the request written and nothing
counted. -/
theorem submitOn_eq_none (h : e.submitOn env ctx w = .ret none w') :
    ∃ err, submitAbort env ctx ((e.written ctx w).withErrno err) = .ret () w' := by
  obtain ⟨_, w₁, hprep, h⟩ := bind_eq_ret.mp h
  obtain ⟨ok, w₂, hsubmit, h⟩ := bind_eq_ret.mp h
  unfold submitRequest at hsubmit
  rw [Prog.bind_apply, Prog.read_apply, Outcome.bind_ret, id] at hsubmit
  cases hf : e.submit (env.now w₁.clock) (w₁.ring ctx.ring) ctx.opIdx with
  | error err =>
      rw [hf] at hsubmit
      obtain ⟨rfl, rfl⟩ := Outcome.ret.inj hsubmit
      obtain ⟨_, w₃, huncount, h⟩ := bind_eq_ret.mp h
      obtain ⟨_, w₄, habort, h⟩ := bind_eq_ret.mp h
      obtain ⟨-, rfl⟩ := Outcome.ret.inj h
      have hback : w₃ = (e.written ctx w).withErrno err := by
        unfold uncount at huncount
        unfold prepare at hprep
        cases hbuf : e.usesBuffer with
        | false =>
            rw [hbuf] at huncount hprep
            obtain ⟨-, rfl⟩ := Outcome.ret.inj hprep
            obtain ⟨-, rfl⟩ := Outcome.ret.inj huncount
            rfl
        | true =>
            rw [hbuf] at huncount hprep
            obtain ⟨-, rfl⟩ := Outcome.ret.inj hprep
            exact (Outcome.ret.inj (huncount.symm.trans (subFixedBuf_undo _ _ _))).2
      exact ⟨err, hback ▸ habort⟩
  | ok r =>
      rw [hf] at hsubmit
      obtain ⟨rfl, rfl⟩ := Outcome.ret.inj hsubmit
      obtain ⟨_, w₃, -, h⟩ := bind_eq_ret.mp h
      cases h

/-- What follows a `submit_begin` that found a slot can fail in two ways. -/
theorem finish_eq_none (he : e.Valid) (h : e.finish env ctx w = .ret none w') :
    Failure env e ctx w w' := by
  have hon : ∀ {w'}, (∀ index ∈ e.lateIndex, w.engine.fixedFileValid index = true) →
      e.submitOn env ctx w = .ret none w' → Failure env e ctx w w' := by
    intro w' hvalid h
    obtain ⟨err, habort⟩ := submitOn_eq_none h
    exact .aborted _ err (he.fill _ _ _) hvalid habort
  unfold finish at h
  cases hlate : e.lateIndex with
  | none =>
      rw [hlate] at h
      exact hon (by simp [hlate]) h
  | some index =>
      rw [hlate] at h
      obtain ⟨ok, w₁, hvalid, h⟩ := bind_eq_ret.mp h
      obtain ⟨rfl, rfl⟩ := validateFixedFile_eq_ret hvalid
      cases hok : w.engine.fixedFileValid index with
      | true =>
          rw [hok] at h
          exact hon (by simpa [hlate] using hok) h
      | false =>
          rw [hok] at h
          obtain ⟨-, rfl⟩ := Outcome.ret.inj h
          exact .late index hlate hok

/-- **How an entry fails**: inside `submit_begin`, or after it. -/
theorem run_eq_none (he : e.Valid) (h : e.run env cb w = .ret none w') :
    ∃ o w₁ w₂, submitBegin env cb e.allowPoll w = .ret o w₁ ∧ w' = w₂.left e.locked ∧
      match o with
      | none => w₂ = w₁
      | some ctx => Failure env e ctx w₁ w₂ := by
  obtain ⟨o, w₁, w₂, hbegin, hleft, hrest⟩ := Entry.run_eq_ret h
  refine ⟨o, w₁, w₂, hbegin, hleft, ?_⟩
  cases o with
  | none => exact hrest.2
  | some ctx => exact finish_eq_none he hrest

end Entry

end Aura
