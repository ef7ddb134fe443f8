import Aura.Engine.Tables

/-!
# The registration lock is given back

A library call that returns has released the registration lock as often as it took it, callbacks
included (`apiStable_regKept`).
-/

namespace Aura

open Lib Lib.Prog

variable {env : Env} {cb : Callback} {w w' w'' : World}

/-- The readers and the writer of the registration lock are the same. -/
structure RegKept (w w' : World) : Prop where
  readers : w'.engine.regReaders = w.engine.regReaders
  writer : w'.engine.regWriter = w.engine.regWriter

theorem Move.regKept (h : Move w w') : RegKept w w' := by
  cases h with
  | quiet h =>
      cases h with
      | engine h => exact ⟨h.regReaders, h.regWriter⟩
      | _ => exact ⟨rfl, rfl⟩
  | _ => exact ⟨rfl, rfl⟩

theorem steady_regKept : Steady RegKept where
  refl _ := ⟨rfl, rfl⟩
  trans h h' := ⟨h'.readers.trans h.readers, h'.writer.trans h.writer⟩
  move h := h.regKept
  submitted _ _ _ _ _ := ⟨rfl, rfl⟩
  link _ _ _ := ⟨rfl, rfl⟩
  lastSqe _ _ := ⟨rfl, rfl⟩
  log _ _ _ := ⟨rfl, rfl⟩

theorem stable_regKept : Stable env fun (α : Type) (p : AuraM α) => Ensures RegKept p := by
  have hm := steady_regKept.moving
  have hsubmit : ∀ site i, Keeps RegKept (ioUringSubmit env site i) := fun site i =>
    hm.ioUringSubmit (fun _ _ => ⟨rfl, rfl⟩) (fun _ _ _ => ⟨rfl, rfl⟩) i
  refine steady_regKept.stable_ensures ?_ (fun i => hm.ringFlushLatching (hsubmit _ i))
    (fun i => hm.flushQueued (hsubmit _ i)) (fun i => hm.ringFlush (hsubmit _ i)) ?_
  · intro cb hcb q res
    have h := Ensures.composes steady_regKept.refl steady_regKept.trans
    have htls : ∀ f, Ensures RegKept (onTls f) := fun f =>
      Keeps.ensures fun w => ⟨rfl, rfl⟩
    refine h.bind (h.read _) fun saved => h.when (h.andThen ?_ (h.andThen (htls _)
      (h.andThen (hcb q res) (htls _))))
    exact Keeps.ensures fun w => ⟨rfl, rfl⟩
  · intro w n w' h
    obtain ⟨e, ⟨-, hreaders, hwriter⟩, rfl⟩ := maybeFinalizeDeferredUnregistration_frame h
    exact ⟨hreaders, hwriter⟩

/-! ## The registration calls -/

/-- Nothing but the writer of the registration lock may have changed. -/
def ReadersKept (w w' : World) : Prop := w'.engine.regReaders = w.engine.regReaders

theorem moving_readersKept : Moving fun (α : Type) (p : AuraM α) => Ensures ReadersKept p :=
  .of_ensures (fun _ => rfl) (fun h h' => h'.trans h) fun h => h.regKept.readers

theorem onEngine_readersKept {f : Engine → Engine}
    (hf : ∀ e : Engine, (f e).regReaders = e.regReaders) : Ensures ReadersKept (onEngine f) :=
  Keeps.ensures fun w => hf w.engine

/-- The writer of the registration lock has left. -/
def WriterLeft (w w' : World) : Prop := ReadersKept w w' ∧ w'.engine.regWriter = false

section

variable {α β : Type}

theorem WriterLeft.bind {p : AuraM α} {q : α → AuraM β} (hp : Ensures ReadersKept p)
    (hq : ∀ a, Ensures WriterLeft (q a)) : Ensures WriterLeft (p >>= q) := by
  intro w b w' h
  obtain ⟨a, w₁, ha, hb⟩ := bind_eq_ret.mp h
  obtain ⟨hreaders, hleft⟩ := hq a w₁ b w' hb
  exact ⟨hreaders.trans (hp w a w₁ ha), hleft⟩

theorem WriterLeft.ite {c : Prop} [Decidable c] {p q : AuraM α} (hp : Ensures WriterLeft p)
    (hq : Ensures WriterLeft q) : Ensures WriterLeft (if c then p else q) := by
  split
  · exact hp
  · exact hq

theorem WriterLeft.wrunlock {q : AuraM α} (hq : Ensures RegKept q) :
    Ensures WriterLeft (do regWrunlock; q) := by
  intro w a w' h
  obtain ⟨_, w₁, hunlock, h⟩ := bind_eq_ret.mp h
  obtain ⟨-, rfl⟩ := Outcome.ret.inj hunlock
  have hkept := hq _ _ _ h
  exact ⟨hkept.readers, hkept.writer⟩

/-- A program that takes the write lock, and lets the writer leave. -/
theorem regKept_wrlock {q : AuraM α} (hq : Ensures WriterLeft q) :
    Ensures RegKept (do regWrlock; q) := by
  intro w a w' h
  obtain ⟨_, w₁, hlock, h⟩ := bind_eq_ret.mp h
  obtain ⟨hfree, -, rfl⟩ := regWrlock_eq_ret hlock
  obtain ⟨hreaders, hleft⟩ := hq _ _ _ h
  exact ⟨hreaders, hleft.trans hfree.symm⟩

end

theorem kernelRegisterWith_readersKept {f : Engine → Engine}
    (hf : ∀ e : Engine, (f e).regReaders = e.regReaders) :
    Ensures ReadersKept (kernelRegisterWith env f) := by
  have h := moving_readersKept
  refine h.bind (h.andThen h.kernelTurn (h.bind (h.read _) fun _ => h.pure _)) fun err => ?_
  exact h.andThen (h.when (onEngine_readersKept hf)) (h.pure _)

theorem registerRings_readersKept {set clear : ℕ → Engine → Engine}
    (hset : ∀ i (e : Engine), (set i e).regReaders = e.regReaders)
    (hclear : ∀ i (e : Engine), (clear i e).regReaders = e.regReaders) (i n : ℕ) :
    Ensures ReadersKept (registerRings env set clear i n) := by
  have h := moving_readersKept
  have hundo : ∀ (js : List ℕ) (e : Engine),
      (js.foldl (fun e j => clear j e) e).regReaders = e.regReaders := by
    intro js
    induction js with
    | nil => exact fun e => rfl
    | cons j js ih => exact fun e => (ih _).trans (hclear j e)
  induction n generalizing i with
  | zero => exact h.pure _
  | succ n ih =>
      refine h.bind (kernelRegisterWith_readersKept (hset i)) fun err => ?_
      cases err with
      | none => exact ih _
      | some err => exact h.andThen (onEngine_readersKept (hundo _)) (h.pure _)

theorem updateRings_readersKept (index : ℕ) (fd : ℤ) (i n : ℕ) :
    Ensures ReadersKept (updateRings env index fd i n) := by
  have h := moving_readersKept
  induction n generalizing i with
  | zero => exact h.pure _
  | succ n ih =>
      refine h.bind (kernelRegisterWith_readersKept fun _ => rfl) fun err => ?_
      cases err with
      | none => exact ih _
      | some err => exact h.pure _

theorem rollbackRings_readersKept (index : ℕ) (oldFd : ℤ) (js : List ℕ) :
    Ensures ReadersKept (rollbackRings env index oldFd js) := by
  have h := moving_readersKept
  induction js with
  | nil => exact h.pure _
  | cons j js ih =>
      exact h.bind (kernelRegisterWith_readersKept fun _ => rfl) fun _ =>
        h.bind ih fun _ => h.pure _

theorem registerTable_regKept {α : Type} {ops : TableOps α}
    (hrec : ∀ t (e : Engine), (ops.setRecorded t e).regReaders = e.regReaders)
    (hker : ∀ t i (e : Engine), (ops.setKernel t i e).regReaders = e.regReaders)
    (hreg : ∀ e : Engine, (ops.setRegistered e).regReaders = e.regReaders) (table : List α) :
    Ensures RegKept (registerTable env ops table) := by
  have h := @stable_regKept env
  have hfail : ∀ e : ℤ, Ensures WriterLeft (do regWrunlock; setErrno e; pure (-1 : ℤ)) := fun e =>
    .wrunlock (h.andThen (h.setErrno e) (h.pure _))
  refine h.ite (h.andThen (h.setErrno _) (h.pure _)) (regKept_wrlock ?_)
  refine .bind (moving_readersKept.read _) fun e => .ite (hfail _) ?_
  refine .bind (onEngine_readersKept (hrec _)) fun _ => ?_
  refine .bind (registerRings_readersKept (hker _) (hker _) _ _) fun err => ?_
  cases err with
  | some err => exact .bind (onEngine_readersKept (hrec _)) fun _ => hfail _
  | none => exact .bind (onEngine_readersKept hreg) fun _ => .wrunlock (h.pure _)

theorem auraUpdateFile_regKept (index fd : ℤ) : Ensures RegKept (auraUpdateFile env index fd) := by
  have h := @stable_regKept env
  have hfail : ∀ e : ℤ, Ensures WriterLeft (do regWrunlock; setErrno e; pure (-1 : ℤ)) := fun e =>
    .wrunlock (h.andThen (h.setErrno e) (h.pure _))
  refine h.ite (h.andThen (h.setErrno _) (h.pure _)) (regKept_wrlock ?_)
  refine .bind (moving_readersKept.read _) fun e => .ite (hfail _) (.ite (hfail _) ?_)
  refine .bind (updateRings_readersKept _ _ _ _) fun r => ?_
  cases r with
  | some p =>
      refine .bind (rollbackRings_readersKept _ _ _) fun failed => .bind ?_ fun _ => hfail _
      exact moving_readersKept.when (onEngine_readersKept fun e => (e.latch_frame EIO).regReaders)
  | none => exact .bind (onEngine_readersKept fun _ => rfl) fun _ => .wrunlock (h.pure _)

theorem auraRequestUnregister_regKept (type : RegType) :
    Ensures RegKept (auraRequestUnregister type) := by
  have h := Ensures.composes steady_regKept.refl steady_regKept.trans
  have hfinal : Ensures RegKept finalizeDeferredUnregistration := by
    intro w n w' hs
    obtain ⟨e, ⟨-, hreaders, hwriter⟩, rfl⟩ := finalizeDeferredUnregistration_frame hs
    exact ⟨hreaders, hwriter⟩
  have hset : ∀ e : Engine, (e.requestUnregister type).regReaders = e.regReaders := fun e => by
    cases type <;> rfl
  exact regKept_wrlock (.bind (moving_readersKept.read _) fun e =>
    .ite (.wrunlock (h.pure _)) (.bind (onEngine_readersKept hset) fun _ => .wrunlock hfinal))

/-- **Every library call that returns has given the registration lock back.** -/
theorem apiStable_regKept : ApiStable env fun (α : Type) (p : AuraM α) => Ensures RegKept p where
  toStable := stable_regKept
  submission hcb call args := by
    refine stable_regKept.auraSubmit_ensures steady_regKept.trans (fun w err => ⟨rfl, rfl⟩)
      (fun {w w' locked} h => ⟨?_, h.writer⟩) hcb call args
    have hreaders : w'.engine.regReaders = w.engine.regReaders + locked.toNat := h.readers
    change w'.engine.regReaders - locked.toNat = w.engine.regReaders
    omega
  registerBuffers iovs :=
    registerTable_regKept (fun _ _ => rfl) (fun _ _ _ => rfl) (fun _ => rfl) iovs
  registerFiles fds :=
    registerTable_regKept (fun _ _ => rfl) (fun _ _ _ => rfl) (fun _ => rfl) fds
  requestUnregister := auraRequestUnregister_regKept
  updateFile := auraUpdateFile_regKept

end Aura
