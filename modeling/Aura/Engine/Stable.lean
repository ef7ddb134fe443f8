import Aura.Engine.Reaping

/-!
# Every library call, along the program text

* `Registering K`, `Stable env K` and `Calling env K` — properties of programs that, besides moves,
  the registration state, submissions, flushes and callbacks have. The lemmas below them walk
  through the program text from where `Aura.Engine.Reaping` stops.
* `ApiStable env K` — with the submission and registration calls known, every call and every
  callback has the property (`ApiStable.apiCall`, `ApiStable.callback`).
* `Steady R` — a preorder on worlds that contains every change of a call, failed submits and
  callbacks apart. `Steady.calling` is the way from it to `Calling`.
-/

namespace Aura

open Lib Lib.Prog

/-! ## Changes of the engine -/

/-- Unfold a frame whose fields are all unchanged. -/
theorem Engine.RegFrame.of_eq {e e' : Engine} (h : e'.rings = e.rings ∧
    e'.ringCount = e.ringCount ∧ e'.addr = e.addr ∧ e'.ringsBase = e.ringsBase ∧
    e'.ringSelect = e.ringSelect ∧ e'.singleThread = e.singleThread ∧
    e'.shuttingDown = e.shuttingDown ∧ e'.fatalSubmitErrno = e.fatalSubmitErrno) :
    e.RegFrame e' := by
  obtain ⟨h₁, h₂, h₃, h₄, h₅, h₆, h₇, h₈⟩ := h
  exact ⟨h₁, h₂, h₃, h₄, h₅, h₆, h₇, fun _ => h₈⟩

theorem Engine.RegFrame.trans {e e' e'' : Engine} (h : e.RegFrame e') (h' : e'.RegFrame e'') :
    e.RegFrame e'' where
  rings := h'.rings.trans h.rings
  ringCount := h'.ringCount.trans h.ringCount
  addr := h'.addr.trans h.addr
  ringsBase := h'.ringsBase.trans h.ringsBase
  ringSelect := h'.ringSelect.trans h.ringSelect
  singleThread := h'.singleThread.trans h.singleThread
  shuttingDown := h'.shuttingDown.trans h.shuttingDown
  latched hne := by
    have heq := h.latched hne
    rw [h'.latched (by rwa [heq]), heq]

/-- Finalization only touches the registration state. -/
theorem Engine.finalize_frame (e : Engine) : e.RegFrame e.finalize := by
  have hbuf : e.RegFrame e.finalizeBuffers := by
    unfold Engine.finalizeBuffers
    split <;> exact .of_eq ⟨rfl, rfl, rfl, rfl, rfl, rfl, rfl, rfl⟩
  refine hbuf.trans ?_
  unfold Engine.finalize Engine.finalizeFiles
  split <;> exact .of_eq ⟨rfl, rfl, rfl, rfl, rfl, rfl, rfl, rfl⟩

theorem Engine.setKernelBuffers_frame (e : Engine) (i : ℕ) (t : Option (List Iovec)) :
    e.RegFrame (e.setKernelBuffers i t) := .of_eq ⟨rfl, rfl, rfl, rfl, rfl, rfl, rfl, rfl⟩

theorem Engine.setKernelFiles_frame (e : Engine) (i : ℕ) (t : Option (List ℤ)) :
    e.RegFrame (e.setKernelFiles i t) := .of_eq ⟨rfl, rfl, rfl, rfl, rfl, rfl, rfl, rfl⟩

theorem Engine.failRollback_frame (e : Engine) : e.RegFrame e.failRollback := by
  obtain ⟨h, -, -, -⟩ := e.latch_frame EIO
  exact h.trans (.of_eq ⟨rfl, rfl, rfl, rfl, rfl, rfl, rfl, rfl⟩)

/-- Finalization leaves the readers of the registration lock alone. -/
theorem Engine.finalize_regReaders (e : Engine) : e.finalize.regReaders = e.regReaders := by
  unfold Engine.finalize Engine.finalizeFiles Engine.finalizeBuffers
  split_ifs <;> rfl

/-- Finalization takes the registration lock and gives it back. -/
theorem finalizeDeferredUnregistration_frame {w w' : World} {n : ℤ}
    (h : finalizeDeferredUnregistration w = .ret n w') :
    ∃ e, (w.engine.RegFrame e ∧ e.regReaders = w.engine.regReaders ∧
      e.regWriter = w.engine.regWriter) ∧ w' = { w with engine := e } := by
  obtain ⟨u, w₁, hlock, h⟩ := bind_eq_ret.mp h
  unfold regWrlock at hlock
  rw [await_apply] at hlock
  split_ifs at hlock with hfree
  obtain ⟨-, rfl⟩ := Outcome.ret.inj hlock
  obtain ⟨-, rfl⟩ := Outcome.ret.inj h
  have hframe := Engine.finalize_frame { w.engine with regWriter := true }
  refine ⟨{ Engine.finalize { w.engine with regWriter := true } with regWriter := false },
    ⟨⟨hframe.rings, hframe.ringCount, hframe.addr, hframe.ringsBase, hframe.ringSelect,
      hframe.singleThread, hframe.shuttingDown, hframe.latched⟩, ?_, ?_⟩, rfl⟩
  · exact Engine.finalize_regReaders { w.engine with regWriter := true }
  · exact (Bool.eq_false_of_not_eq_true (not_or.mp hfree).1).symm

/-- So does the conditional finalization. -/
theorem maybeFinalizeDeferredUnregistration_frame {w w' : World} {n : ℤ}
    (h : maybeFinalizeDeferredUnregistration w = .ret n w') :
    ∃ e, (w.engine.RegFrame e ∧ e.regReaders = w.engine.regReaders ∧
      e.regWriter = w.engine.regWriter) ∧ w' = { w with engine := e } := by
  have hrefl : w.engine.RegFrame w.engine := .of_eq ⟨rfl, rfl, rfl, rfl, rfl, rfl, rfl, rfl⟩
  unfold maybeFinalizeDeferredUnregistration at h
  rw [Prog.bind_apply, Prog.read_apply, Outcome.bind_ret, Prog.ite_apply] at h
  split at h
  · obtain ⟨-, rfl⟩ := Outcome.ret.inj h
    exact ⟨w.engine, ⟨hrefl, rfl, rfl⟩, rfl⟩
  · obtain ⟨u, w₁, hlock, h⟩ := bind_eq_ret.mp h
    unfold regRdlock at hlock
    rw [await_apply] at hlock
    split at hlock
    · cases hlock
    · next hw₁ =>
        split_ifs at hw₁
        obtain ⟨-, rfl⟩ := Outcome.ret.inj hlock
        cases hw₁
        rw [Prog.bind_apply, Prog.read_apply, Outcome.bind_ret] at h
        obtain ⟨u, w₂, hunlock, h⟩ := bind_eq_ret.mp h
        obtain ⟨-, rfl⟩ := Outcome.ret.inj hunlock
        simp only [Nat.add_sub_cancel] at h
        rw [Prog.ite_apply] at h
        split at h
        · obtain ⟨-, rfl⟩ := Outcome.ret.inj h
          exact ⟨w.engine, ⟨hrefl, rfl, rfl⟩, rfl⟩
        · exact finalizeDeferredUnregistration_frame h

theorem Engine.requestUnregister_frame (e : Engine) (type : RegType) :
    e.RegFrame (e.requestUnregister type) := by
  cases type <;> exact .of_eq ⟨rfl, rfl, rfl, rfl, rfl, rfl, rfl, rfl⟩

/-! ## The properties -/

/-- A property that moves, changes of the registration state and the operations of the registration
lock have. -/
structure Registering (K : ProgProp) : Prop extends Moving K where
  rdlock : K Unit regRdlock
  wrlock : K Unit regWrlock
  regs : ∀ {f : Engine → Engine}, (∀ e : Engine, e.RegFrame (f e)) → K Unit (onEngine f)

/-- A property that moves have, and so do the operations that matter one by one: preparing an entry,
linking, processing a completion, running a callback, the three kinds of flush, and finalization. -/
structure Stable (env : Env) (K : ProgProp) : Prop extends Moving K where
  submit : ∀ {f : RingSubmitFn}, f.Submits → ∀ ctx, K Bool (submitRequest env f ctx)
  cancel : ∀ i target op, K Bool (submitCancel i target op)
  link : ∀ req, K ℤ (auraRequestSetLinked req)
  completion : ∀ i c, K Unit (logEvent fun w => .completion w.tls.callbackContextDepth i c)
  invoke : ∀ {cb : Callback}, (∀ q res, K Unit (cb q res)) →
    ∀ q res, K Unit (invokeCallback cb q res)
  latching : ∀ i, K FlushStatus (ringFlushLatching env i)
  fast : ∀ i, K ℤ (ringFlushFast env i)
  abort : ∀ i, K ℤ (ringFlush env .abort i)
  finalize : K ℤ maybeFinalizeDeferredUnregistration

/-- A property that moves have, and so do the operations of `Stable`, the submission calls and the
calls that change the registration state. -/
structure ApiStable (env : Env) (K : ProgProp) : Prop extends Stable env K where
  submission : ∀ {cb : Callback}, (∀ q res, K Unit (cb q res)) →
    ∀ call args, K _ (auraSubmit env cb call args)
  registerBuffers : ∀ iovs, K ℤ (auraRegisterBuffers env iovs)
  registerFiles : ∀ fds, K ℤ (auraRegisterFiles env fds)
  requestUnregister : ∀ type, K ℤ (auraRequestUnregister type)
  updateFile : ∀ index fd, K ℤ (auraUpdateFile env index fd)

/-- A property that every library call has if the operations of `Stable` and those of the
registration lock do. -/
structure Calling (env : Env) (K : ProgProp) : Prop extends Stable env K, Registering K

/-! ## Registration -/

namespace Registering

variable {env : Env} {K : ProgProp} {α : Type}

section

variable (h : Registering K)

include h

theorem rdunlock : K Unit Aura.regRdunlock :=
  h.regs fun _ => .of_eq ⟨rfl, rfl, rfl, rfl, rfl, rfl, rfl, rfl⟩

theorem wrunlock : K Unit Aura.regWrunlock :=
  h.regs fun _ => .of_eq ⟨rfl, rfl, rfl, rfl, rfl, rfl, rfl, rfl⟩

theorem finalizeDeferredUnregistration : K _ Aura.finalizeDeferredUnregistration :=
  h.andThen h.wrlock (h.andThen (h.regs Engine.finalize_frame)
    (h.andThen h.wrunlock (h.pure _)))

theorem maybeFinalizeDeferredUnregistration :
    K _ Aura.maybeFinalizeDeferredUnregistration := by
  refine h.bind (h.read _) fun e => h.ite (h.pure _) (h.andThen h.rdlock ?_)
  exact h.bind (h.read _) fun e => h.andThen h.rdunlock
    (h.ite (h.pure _) h.finalizeDeferredUnregistration)

theorem auraRequestUnregister (type : RegType) : K _ (Aura.auraRequestUnregister type) := by
  refine h.andThen h.wrlock (h.bind (h.read _) fun e => h.ite ?_ ?_)
  · exact h.andThen h.wrunlock (h.pure _)
  · exact h.andThen (h.regs fun e => e.requestUnregister_frame type)
      (h.andThen h.wrunlock h.finalizeDeferredUnregistration)

theorem kernelRegister : K _ (Aura.kernelRegister env) :=
  h.andThen h.kernelTurn (h.bind (h.read _) fun _ => h.pure _)

theorem kernelRegisterWith {f : Engine → Engine} (hf : ∀ e : Engine, e.RegFrame (f e)) :
    K _ (Aura.kernelRegisterWith env f) :=
  h.bind h.kernelRegister fun _ => h.andThen (h.when (h.regs hf)) (h.pure _)

theorem registerRings {set clear : ℕ → Engine → Engine}
    (hset : ∀ i (e : Engine), e.RegFrame (set i e))
    (hclear : ∀ i (e : Engine), e.RegFrame (clear i e)) (i n : ℕ) :
    K _ (Aura.registerRings env set clear i n) := by
  have hundo : ∀ (js : List ℕ) (e : Engine), e.RegFrame (js.foldl (fun e j => clear j e) e) := by
    intro js
    induction js with
    | nil => exact fun e => .of_eq ⟨rfl, rfl, rfl, rfl, rfl, rfl, rfl, rfl⟩
    | cons j js ih => exact fun e => (hclear j e).trans (ih _)
  induction n generalizing i with
  | zero => exact h.pure _
  | succ n ih =>
      refine h.bind (h.kernelRegisterWith (hset i)) fun err => ?_
      cases err with
      | none => exact ih _
      | some err => exact h.andThen (h.regs fun e => hundo _ e) (h.pure _)

theorem updateRings (index : ℕ) (fd : ℤ) (i n : ℕ) : K _ (Aura.updateRings env index fd i n) := by
  induction n generalizing i with
  | zero => exact h.pure _
  | succ n ih =>
      refine h.bind (h.kernelRegisterWith fun e => e.setKernelFiles_frame _ _) fun err => ?_
      cases err with
      | none => exact ih _
      | some err => exact h.pure _

theorem rollbackRings (index : ℕ) (oldFd : ℤ) (js : List ℕ) :
    K _ (Aura.rollbackRings env index oldFd js) := by
  induction js with
  | nil => exact h.pure _
  | cons j js ih =>
      exact h.bind (h.kernelRegisterWith fun e => e.setKernelFiles_frame _ _) fun _ =>
        h.bind ih fun _ => h.pure _

theorem registerTable {ops : TableOps α} (hrec : ∀ t (e : Engine), e.RegFrame (ops.setRecorded t e))
    (hker : ∀ t i (e : Engine), e.RegFrame (ops.setKernel t i e))
    (hreg : ∀ e : Engine, e.RegFrame (ops.setRegistered e)) (table : List α) :
    K _ (Aura.registerTable env ops table) := by
  refine h.ite (h.andThen (h.setErrno _) (h.pure _)) (h.andThen h.wrlock ?_)
  refine h.bind (h.read _) fun e => h.ite
    (h.andThen h.wrunlock (h.andThen (h.setErrno _) (h.pure _))) ?_
  refine h.andThen (h.regs (hrec _)) ?_
  refine h.bind (h.registerRings (hker _) (hker _) _ _) fun err => ?_
  cases err with
  | some err =>
      exact h.andThen (h.regs (hrec _)) (h.andThen h.wrunlock (h.andThen (h.setErrno _) (h.pure _)))
  | none => exact h.andThen (h.regs hreg) (h.andThen h.wrunlock (h.pure _))

theorem auraRegisterBuffers (iovs : List Iovec) : K _ (Aura.auraRegisterBuffers env iovs) :=
  h.registerTable (fun _ _ => .of_eq ⟨rfl, rfl, rfl, rfl, rfl, rfl, rfl, rfl⟩)
    (fun t i e => e.setKernelBuffers_frame i t)
    (fun _ => .of_eq ⟨rfl, rfl, rfl, rfl, rfl, rfl, rfl, rfl⟩) iovs

theorem auraRegisterFiles (fds : List ℤ) : K _ (Aura.auraRegisterFiles env fds) :=
  h.registerTable (fun _ _ => .of_eq ⟨rfl, rfl, rfl, rfl, rfl, rfl, rfl, rfl⟩)
    (fun t i e => e.setKernelFiles_frame i t)
    (fun _ => .of_eq ⟨rfl, rfl, rfl, rfl, rfl, rfl, rfl, rfl⟩) fds

theorem auraUpdateFile (index fd : ℤ) : K _ (Aura.auraUpdateFile env index fd) := by
  refine h.ite (h.andThen (h.setErrno _) (h.pure _)) (h.andThen h.wrlock ?_)
  have hfail : ∀ e : ℤ, K _ (do Aura.regWrunlock; Aura.setErrno e; Pure.pure (-1 : ℤ)) := fun e =>
    h.andThen h.wrunlock (h.andThen (h.setErrno e) (h.pure _))
  refine h.bind (h.read _) fun e => h.ite (hfail _) (h.ite (hfail _) ?_)
  refine h.bind (h.updateRings _ _ _ _) fun r => ?_
  cases r with
  | some p =>
      exact h.bind (h.rollbackRings _ _ _) fun _ =>
        h.andThen (h.when (h.regs Engine.failRollback_frame)) (hfail _)
  | none =>
      exact h.andThen (h.regs fun _ => .of_eq ⟨rfl, rfl, rfl, rfl, rfl, rfl, rfl, rfl⟩)
        (h.andThen h.wrunlock (h.pure _))

/-! ## Registered files and buffers of a submission -/

theorem resolveFileBegin (fd : ℤ) : K _ (Aura.resolveFileBegin fd) := by
  refine h.bind (h.read _) fun e => h.ite ?_ (h.pure _)
  refine h.andThen (h.when h.rdlock) (h.bind (h.read _) fun e' => ?_)
  cases e'.resolveRegisteredFile fd with
  | some i => exact h.pure _
  | none => exact h.andThen (h.when h.rdunlock) (h.pure _)

theorem resolveFileEnd (g : FileGuard) : K _ (Aura.resolveFileEnd g) :=
  h.when h.rdunlock

theorem resolveFile (fd : ℤ) (fixed : Bool) : K _ (Aura.resolveFile fd fixed) :=
  h.ite (h.bind (h.validateFixedFile fd) fun _ => h.ite (h.pure _) (h.pure _))
    (h.bind (h.resolveFileBegin fd) fun _ => h.pure _)

theorem validateRegisteredBuffer (index : ℤ) (offset len : ℕ) :
    K _ (Aura.validateRegisteredBuffer index offset len) := by
  refine h.bind (h.read _) fun st => h.andThen (h.when h.rdlock) ?_
  refine h.bind (h.read _) fun e => ?_
  cases e.bufferError index offset len with
  | ok iov => exact h.pure _
  | error err => exact h.andThen (h.when h.rdunlock) (h.failWith err)

theorem regRdunlockUnless (st : Bool) : K _ (Aura.regRdunlockUnless st) :=
  h.when h.rdunlock

end

end Registering

namespace Stable

variable {env : Env} {cb : Callback} {K : ProgProp} {α β : Type}

section

variable (h : Stable env K)

include h

theorem flushRingChecked (i : ℕ) : K Bool (Aura.flushRingChecked env i) :=
  h.bind (h.latching i) fun
    | .ok => h.pure _
    | .retry => h.andThen (h.setErrno _) (h.pure _)
    | .fatal => h.pure _

/-! ## Reaping completions -/

section

variable (hcb : ∀ q res, K Unit (cb q res))

include hcb

theorem reaping : Reaping env cb K where
  toRingMoving := h.ringMoving
  completion := h.completion
  invoke := h.invoke hcb

theorem processReaped (i : ℕ) (c : Cqe) : K _ (Aura.processReaped env cb i c) :=
  (h.reaping hcb).processReaped i c

theorem processCqe (i : ℕ) (c : Cqe) : K _ (Aura.processCqe env cb i c) :=
  (h.reaping hcb).processCqe i c

theorem drainFastLoop (i fuel n : ℕ) : K _ (Aura.drainFastLoop env cb i fuel n) :=
  (h.reaping hcb).drainFastLoop i fuel n

theorem ringDrainCqes (i : ℕ) : K _ (Aura.ringDrainCqes env cb i) :=
  (h.reaping hcb).ringDrainCqes i

theorem ringDrainCqesFast (i : ℕ) : K _ (Aura.ringDrainCqesFast env cb i) :=
  (h.reaping hcb).ringDrainCqesFast i

theorem ringPoll (i : ℕ) : K _ (Aura.ringPoll env cb i) := (h.reaping hcb).ringPoll i

theorem ringWait (i : ℕ) (timeoutMs : ℤ) : K _ (Aura.ringWait env cb i timeoutMs) :=
  (h.reaping hcb).ringWait i timeoutMs

/-! ## The submission path -/

theorem submitBeginFast (i : ℕ) : K _ (Aura.submitBeginFast env cb i) :=
  (h.reaping hcb).submitBeginFast (h.fast i)

theorem submitBeginLocked (allowPoll : Bool) (i : ℕ) :
    K _ (Aura.submitBeginLocked env cb allowPoll i) :=
  (h.reaping hcb).submitBeginLocked (h.latching i) allowPoll

theorem submitBegin (allowPoll : Bool) : K _ (Aura.submitBegin env cb allowPoll) := by
  refine h.bind h.checkFatalSubmitErrno fun fatal => h.bind (h.read _) fun down => ?_
  refine h.ite (h.pure _) (h.ite (h.andThen (h.setErrno _) (h.pure _)) ?_)
  refine h.bind h.pickRing fun i => h.bind (h.read _) fun fast => ?_
  exact h.ite (h.submitBeginFast hcb i) (h.submitBeginLocked hcb allowPoll i)

end

theorem submitEndChain (ctx : SubmitCtx) : K _ (Aura.submitEndChain env ctx) :=
  h.bind (h.ite (h.ringLock _) (h.pure _)) fun st => h.andThen (h.latching _)
    (h.andThen h.clearLink (h.andThen (h.onTls (fun _ => rfl) fun _ => .inr rfl)
      (h.ringUnlock _ st)))

theorem submitEnd (ctx : SubmitCtx) : K _ (Aura.submitEnd env ctx) := by
  refine h.bind (h.readRing _ _) fun q => ?_
  refine h.andThen (h.when (h.onRing fun _ => .fixedFile _)) ?_
  refine h.bind (h.read _) fun w => h.andThen (h.rememberLastRing _) (h.ite ?_ ?_)
  · exact h.bind (h.readRing _ _) fun _ => h.when (h.andThen (h.fast _) (h.pure _))
  · refine h.ite (h.submitEndChain ctx) (h.bind (h.readRing _ _) fun flush => ?_)
    exact h.andThen (h.when (h.andThen (h.latching _) (h.pure _))) (h.ringUnlock _ _)

theorem submitAbort (ctx : SubmitCtx) : K _ (Aura.submitAbort env ctx) := by
  refine h.andThen (h.onRing fun _ => .put ctx.opIdx) (h.bind (h.read _) fun linked => ?_)
  exact h.andThen (h.when (h.andThen (h.abort _) h.clearLink)) (h.ringUnlock _ _)

theorem submitOrAbort {f : RingSubmitFn} (hf : f.Submits) (ctx : SubmitCtx) :
    K _ (Aura.submitOrAbort env f ctx) :=
  h.bind (h.submit hf ctx) fun _ =>
    h.ite (h.andThen (h.submitEnd ctx) (h.pure _)) (h.andThen (h.submitAbort ctx) (h.pure _))

theorem submitRegisteredBufferOn {f : RingSubmitFn} (hf : f.Submits) (ctx : SubmitCtx)
    {fill : RingCtx → Request → Request}
    (hfill : ∀ (r : RingCtx) (q : Request), q.SameSlot (fill r q)) :
    K _ (Aura.submitRegisteredBufferOn env ctx fill f) :=
  h.andThen (h.fillRequest ctx hfill) (h.andThen (h.addFixedBuf _) (h.bind (h.submit hf ctx)
    fun _ => h.ite (h.andThen (h.submitEnd ctx) (h.pure _))
      (h.andThen (h.subFixedBuf _) (h.andThen (h.submitAbort ctx) (h.pure _)))))

/-! ## Cancelling and flushing -/

theorem cancelFlush (i : ℕ) (st : Bool) : K _ (Aura.cancelFlush env i st) :=
  h.bind (h.latching i) fun
    | .ok => h.andThen (h.ringUnlock i st) (h.pure _)
    | .retry => h.andThen (h.setErrno _) (h.andThen (h.ringUnlock i st) (h.pure _))
    | .fatal => h.andThen (h.ringUnlock i st) (h.bind (h.read _) fun _ =>
        h.andThen (h.setErrno _) (h.pure _))

theorem cancelWith (i target op : ℕ) (st : Bool) : K _ (Aura.cancelWith env i target op st) := by
  refine h.andThen (h.fillRequest ⟨i, op, st⟩ fun _ _ => ⟨rfl, rfl, rfl⟩) ?_
  refine h.bind (h.cancel i target op) fun ok => h.ite (h.cancelFlush i st) ?_
  exact h.andThen (h.onRing fun _ => .put op) (h.andThen (h.ringUnlock i st) (h.pure _))

theorem cancelLocked (i target : ℕ) (st : Bool) :
    K _ (Aura.cancelLocked env i target st) := by
  refine h.bind (h.readRing i _) fun q => h.ite
    (h.andThen (h.ringUnlock i st) (h.andThen (h.setErrno _) (h.pure _))) ?_
  refine h.bind (h.getRequest i) fun op => ?_
  cases op with
  | none => exact h.andThen (h.ringUnlock i st) (h.andThen (h.setErrno _) (h.pure _))
  | some op => exact h.cancelWith i target op st

theorem auraCancel (req : Option ReqPtr) : K _ (Aura.auraCancel env req) := by
  have hfail : ∀ e : ℤ, K _ (do Aura.setErrno e; Pure.pure (-1 : ℤ)) := fun e =>
    h.andThen (h.setErrno e) (h.pure _)
  refine h.bind (h.read _) fun e => ?_
  cases req with
  | none => exact hfail _
  | some p =>
      refine h.ite (hfail _) (h.ite (hfail _) (h.ite (hfail _) ?_))
      exact h.bind (h.ringLock _) fun st => h.cancelLocked _ _ st

theorem flushLocked (i : ℕ) : K _ (Aura.flushLocked env i) :=
  h.bind (h.ringLock i) fun st => h.bind (h.latching i) fun _ =>
    h.andThen (h.ringUnlock i st) (h.pure _)

theorem auraFlush : K _ (Aura.auraFlush env) := by
  refine h.bind h.allRings fun rings => h.bind (h.overRings (fun i => ?_) rings) fun fatal => ?_
  · exact h.bind (h.flushLocked i) fun _ => h.pure _
  · exact h.ite (h.bind (h.read _) fun _ => h.andThen (h.setErrno _) (h.pure _)) (h.pure _)

/-! ## Event processing -/

theorem flushOwn (i : ℕ) : K _ (Aura.flushOwn env i) :=
  h.bind (h.readRing i _) fun _ => h.ite (h.andThen (h.fast i) (h.pure _))
    (h.bind (h.ringLock i) fun st => h.andThen (h.flushRingChecked i) (h.ringUnlock i st))

theorem finalizeOwn : K _ Aura.finalizeOwn :=
  h.bind (h.read _) fun _ => h.when (h.andThen h.finalize (h.pure _))

theorem pollResult (fatal : Bool) (total : ℕ) : K _ (Aura.pollResult fatal total) :=
  h.bind h.finalize fun _ => h.ite (h.pure _)
    (h.ite (h.bind (h.read _) fun _ => h.andThen (h.setErrno _) (h.pure _)) (h.pure _))

theorem waitReturn (n : ℕ) : K _ (Aura.waitReturn n) :=
  h.bind h.finalize fun _ => h.ite (h.pure _) (h.pure _)

theorem waitTimedOut : K _ Aura.waitTimedOut :=
  h.bind h.finalize fun _ => h.ite (h.pure _)
    (h.andThen (h.setErrno _) (h.pure _))

section

variable (hcb : ∀ q res, K Unit (cb q res))

include hcb

theorem pollOwn (i : ℕ) : K _ (Aura.pollOwn env cb i) :=
  h.andThen (h.flushOwn i) (h.bind (h.ringPoll hcb i) fun _ => h.andThen h.finalizeOwn (h.pure _))

theorem pollPass (is : List ℕ) : K _ (Aura.pollPass env cb is) := by
  induction is with
  | nil => exact h.pure _
  | cons i is ih =>
      refine h.bind (h.ringTrylock i) fun st => ?_
      cases st with
      | some st =>
          exact h.bind (h.flushRingChecked i) fun _ => h.andThen (h.ringUnlock i st)
            (h.bind (h.ringPoll hcb i) fun _ => h.bind ih fun _ => h.pure _)
      | none => exact h.bind ih fun _ => h.pure _

theorem pollPassBlocking (is : List ℕ) : K _ (Aura.pollPassBlocking env cb is) := by
  induction is with
  | nil => exact h.pure _
  | cons i is ih =>
      exact h.bind (h.ringLock i) fun st => h.bind (h.flushRingChecked i) fun _ =>
        h.andThen (h.ringUnlock i st) (h.bind (h.ringPoll hcb i) fun _ =>
          h.bind ih fun _ => h.pure _)

theorem auraPoll : K _ (Aura.auraPoll env cb) := by
  refine h.bind (h.read _) fun own => ?_
  cases own with
  | some i => exact h.bind (h.pollOwn hcb i) fun _ => h.pure _
  | none =>
      refine h.bind (h.read _) fun latched => h.bind h.finalize
        fun fin => h.ite (h.pure _) (h.andThen h.drainEventfdIfRegistered ?_)
      refine h.bind h.allRings fun rings => h.bind (h.pollPass hcb rings) fun p => ?_
      exact h.ite (h.bind (h.pollPassBlocking hcb rings) fun _ => h.pollResult _ _)
        (h.pollResult _ _)

theorem waitPass (is : List ℕ) : K _ (Aura.waitPass env cb is) := by
  induction is with
  | nil => exact h.pure _
  | cons i is ih =>
      exact h.bind (h.ringLock i) fun st => h.bind (h.flushRingChecked i) fun _ =>
        h.bind (h.readRing i _) fun _ => h.andThen (h.ringUnlock i st)
          (h.bind (h.ringPoll hcb i) fun _ => h.bind ih fun _ => h.pure _)

theorem waitLastPoll : K _ (Aura.waitLastPoll env cb) :=
  h.bind h.allRings fun rings => h.bind (h.overRings (fun i => h.ringPoll hcb i) rings) fun _ =>
    h.ite (h.waitReturn _) h.waitTimedOut

theorem flushAndPoll (i : ℕ) : K _ (Aura.flushAndPoll env cb i) :=
  h.bind (h.ringLock i) fun st => h.andThen (h.flushRingChecked i)
    (h.andThen (h.ringUnlock i st) (h.ringPoll hcb i))

theorem waitOnEventfd (timeoutMs : ℤ) : K _ (Aura.waitOnEventfd env cb timeoutMs) := by
  refine h.bind (h.pollEventfd timeoutMs) fun r => ?_
  cases r with
  | ready =>
      refine h.andThen h.drainEventfd (h.bind h.allRings fun rings => ?_)
      refine h.bind (h.overRings (h.flushAndPoll hcb) rings) fun completed => ?_
      exact h.bind h.finalize fun _ => h.ite (h.pure _)
        (h.ite (h.pure _) (h.waitLastPoll hcb))
  | timeout => exact h.waitLastPoll hcb
  | error e => exact h.ite (h.pure _) (h.waitLastPoll hcb)

theorem waitOnRing (first : ℕ) (timeoutMs : ℤ) :
    K _ (Aura.waitOnRing env cb first timeoutMs) := by
  refine h.bind (h.ringWait hcb first timeoutMs) fun completed => h.ite ?_ ?_
  · exact h.bind h.allRings fun rings => h.bind (h.overRings (h.ringPoll hcb) _) fun _ =>
      h.waitReturn _
  · exact h.ite (h.pure _) h.waitTimedOut

theorem waitPending (timeoutMs : ℤ) (first : Option ℕ) :
    K _ (Aura.waitPending env cb timeoutMs first) := by
  cases first with
  | none => exact h.pure _
  | some first =>
      exact h.bind (h.read _) fun _ => h.ite (h.waitOnEventfd hcb timeoutMs)
        (h.waitOnRing hcb first timeoutMs)

theorem waitGeneral (timeoutMs : ℤ) : K _ (Aura.waitGeneral env cb timeoutMs) := by
  refine h.bind (h.read _) fun latched => h.bind h.finalize
    fun fin => h.ite (h.pure _) (h.andThen h.drainEventfdIfRegistered ?_)
  refine h.bind h.allRings fun rings => h.bind (h.waitPass hcb rings) fun p => ?_
  refine h.ite (h.waitReturn _) (h.ite ?_ (h.waitPending hcb timeoutMs _))
  exact h.bind (h.read _) fun _ => h.andThen (h.setErrno _) (h.pure _)

theorem waitOwn (i : ℕ) (timeoutMs : ℤ) : K _ (Aura.waitOwn env cb i timeoutMs) :=
  h.bind (h.pollOwn hcb i) fun _ => h.ite (h.pure _) (h.ringWait hcb i timeoutMs)

theorem auraWait (timeoutMs : ℤ) : K _ (Aura.auraWait env cb timeoutMs) := by
  refine h.bind (h.read _) fun own => ?_
  cases own with
  | some i => exact h.waitOwn hcb i timeoutMs
  | none => exact h.waitGeneral hcb timeoutMs

theorem drainWait (waitMs : ℤ) (total : ℕ) : K _ (Aura.drainWait env cb waitMs total) :=
  h.bind (h.auraWait hcb waitMs) fun _ => h.bind h.getErrno fun _ =>
    h.ite (h.pure _) (h.pure _)

theorem drainOnce (timeoutMs deadlineNs : ℤ) (total : ℕ) :
    K _ (Aura.drainOnce env cb timeoutMs deadlineNs total) := by
  refine h.bind h.finalize fun fin => h.bind (h.read _) fun w => ?_
  refine h.ite (h.pure _) (h.ite ?_ (h.ite ?_ (h.ite ?_ (h.ite ?_ ?_))))
  · exact h.bind h.finalize fun _ => h.ite (h.pure _) (h.pure _)
  · exact h.bind (h.auraPoll hcb) fun _ => h.pure _
  · exact h.drainWait hcb _ _
  · exact h.andThen (h.setErrno _) (h.pure _)
  · exact h.drainWait hcb _ _

theorem drainIterations (timeoutMs deadlineNs : ℤ) (fuel total : ℕ) :
    K _ (Aura.drainIterations env cb timeoutMs deadlineNs fuel total) := by
  induction fuel generalizing total with
  | zero => exact h.block
  | succ fuel ih =>
      exact h.bind (h.drainOnce hcb timeoutMs deadlineNs total) fun
        | .finished _ => h.pure _
        | .again total => ih total

theorem auraDrain (timeoutMs : ℤ) : K _ (Aura.auraDrain env cb timeoutMs) :=
  h.bind (h.read _) fun _ => h.drainIterations hcb _ _ _ _

end

end

end Stable

namespace Calling

variable {env : Env} {cb : Callback} {K : ProgProp}

section

variable (h : Calling env K)

include h

/-! ## The submission calls -/

section

variable (hcb : ∀ q res, K Unit (cb q res))

include hcb

theorem submitFileResolvedOp {f : RingSubmitFn} (hf : f.Submits) {setup : Request → Request}
    (hs : ∀ q : Request, q.SameSlot (setup q)) (fd : ℤ) (args : SubmitArgs) :
    K _ (Aura.submitFileResolvedOp env cb fd args f setup) := by
  refine h.bind (h.resolveFile fd _) fun g => ?_
  cases g with
  | none => exact h.pure _
  | some g =>
      refine h.bind (h.submitBegin hcb _) fun ctx => ?_
      cases ctx with
      | none => exact h.andThen (h.resolveFileEnd g) (h.pure _)
      | some ctx =>
          refine h.andThen (h.fillRequest ctx fun r q => ?_) ?_
          · obtain ⟨h₁, h₂, h₃⟩ := hs (q.common g.submitFd fd args r.ringIdx g.usesRegisteredFile)
            exact ⟨h₁, h₂, h₃⟩
          · exact h.bind (h.submitOrAbort hf ctx) fun _ =>
              h.andThen (h.resolveFileEnd g) (h.pure _)

theorem submitDirectOp {f : RingSubmitFn} (hf : f.Submits) {setup : Request → Request}
    (hs : ∀ q : Request, q.SameSlot (setup q)) (fd : ℤ) (args : SubmitArgs) :
    K _ (Aura.submitDirectOp env cb fd args f setup) := by
  refine h.bind (h.submitBegin hcb _) fun ctx => ?_
  cases ctx with
  | none => exact h.pure _
  | some ctx =>
      refine h.andThen (h.fillRequest ctx fun r q => ?_) (h.submitOrAbort hf ctx)
      obtain ⟨h₁, h₂, h₃⟩ := hs (q.common fd fd args r.ringIdx false)
      exact ⟨h₁, h₂, h₃⟩

theorem submitRegisteredBufferIo {f : RingSubmitFn} (hf : f.Submits) (fd : ℤ) (iov : Iovec)
    (index : ℤ) (bufOffset len : ℕ) (offset : ℤ) (args : SubmitArgs) :
    K _ (Aura.submitRegisteredBufferIo env cb fd iov index bufOffset len offset args f) := by
  refine h.bind (h.read _) fun st => h.bind (h.submitBegin hcb _) fun ctx => ?_
  cases ctx with
  | none => exact h.andThen (h.regRdunlockUnless st) (h.pure _)
  | some ctx =>
      have hon : ∀ submitFd uses, K _ (Aura.submitRegisteredBufferOn env ctx
          (fillBuffer fd iov index bufOffset len offset args submitFd uses) f) := fun _ _ =>
        h.submitRegisteredBufferOn hf ctx fun _ _ => ⟨rfl, rfl, rfl⟩
      refine h.bind (h.read _) fun e => h.ite ?_ ?_
      · refine h.bind (h.validateFixedFile fd) fun ok => h.ite ?_ ?_
        · exact h.bind (hon _ _) fun _ => h.andThen (h.regRdunlockUnless st) (h.pure _)
        · exact h.andThen (h.regRdunlockUnless st) (h.pure _)
      · exact h.bind (hon _ _) fun _ => h.andThen (h.regRdunlockUnless st) (h.pure _)

theorem submitIoGeneric {unreg reg : RingSubmitFn} (hu : unreg.Submits) (hr : reg.Submits)
    (fd : ℤ) (buf : Buf) (len : ℕ) (offset : ℤ) (args : SubmitArgs) :
    K _ (Aura.submitIoGeneric env cb fd buf len offset args unreg reg) := by
  refine h.ite (h.failWith _) (h.ite (h.failWith _) ?_)
  rcases buf with (_ | ptr) | ⟨index, bufOffset⟩ | _
  · exact h.failWith _
  · exact h.submitFileResolvedOp hcb hu (fun _ => by exact ⟨rfl, rfl, rfl⟩) fd args
  · refine h.bind (h.validateRegisteredBuffer index bufOffset len) fun iov => ?_
    cases iov with
    | none => exact h.pure _
    | some iov => exact h.submitRegisteredBufferIo hcb hr fd iov index bufOffset len offset args
  · exact h.failWith _

theorem submitVectored {f : RingSubmitFn} (hf : f.Submits) (fd : ℤ) (iov : Option ℕ)
    (iovcnt offset : ℤ) (args : SubmitArgs) :
    K _ (Aura.submitVectored env cb fd iov iovcnt offset args f) :=
  h.ite (h.failWith _) (h.ite (h.failWith _)
    (h.submitFileResolvedOp hcb hf (fun _ => by exact ⟨rfl, rfl, rfl⟩) fd args))

theorem submitCall (args : SubmitArgs) (call : SubmitCall) :
    K _ (Aura.submitCall env cb args call) := by
  cases call with
  | read fd buf len offset =>
      exact h.submitIoGeneric hcb (submits_buffer _) (submits_buffer _) fd buf len offset args
  | write fd buf len offset =>
      exact h.submitIoGeneric hcb (submits_buffer _) (submits_buffer _) fd buf len offset args
  | readv fd iov iovcnt offset => exact h.submitVectored hcb (submits_vectored _) _ _ _ _ _
  | writev fd iov iovcnt offset => exact h.submitVectored hcb (submits_vectored _) _ _ _ _ _
  | fsync fd fsyncFlags =>
      refine h.ite (h.failWith _) (h.ite (h.failWith _) (h.ite (h.failWith _) ?_))
      refine h.submitFileResolvedOp hcb ?_ (fun _ => by exact ⟨rfl, rfl, rfl⟩) fd args
      split
      · exact submits_meta _ _
      · exact submits_meta _ _
  | openat dirfd pathname openFlags mode =>
      cases pathname with
      | none => exact h.failWith _
      | some path =>
          exact h.ite (h.failWith _) (h.ite (h.failWith _)
            (h.submitDirectOp hcb (submits_meta _ _) (fun _ => by exact ⟨rfl, rfl, rfl⟩) _ _))
  | close fd =>
      exact h.ite (h.failWith _) (h.ite (h.failWith _)
        (h.submitDirectOp hcb (submits_meta _ _) (fun _ => by exact ⟨rfl, rfl, rfl⟩) _ _))
  | statx dirfd pathname statxFlags mask statxbuf =>
      cases pathname with
      | none => exact h.failWith _
      | some path =>
          cases statxbuf with
          | none => exact h.failWith _
          | some sbuf =>
              exact h.ite (h.failWith _) (h.ite (h.failWith _)
                (h.submitDirectOp hcb (submits_meta _ _) (fun _ => by exact ⟨rfl, rfl, rfl⟩) _ _))
  | fallocate fd mode offset len =>
      exact h.ite (h.failWith _) (h.ite (h.failWith _)
        (h.submitFileResolvedOp hcb submits_fallocate (fun _ => by exact ⟨rfl, rfl, rfl⟩) _ _))
  | ftruncate fd length =>
      exact h.ite (h.failWith _) (h.ite (h.failWith _)
        (h.submitFileResolvedOp hcb (submits_ftruncate _) (fun _ => by exact ⟨rfl, rfl, rfl⟩) _ _))
  | syncFileRange fd offset nbytes rangeFlags =>
      exact h.ite (h.failWith _) (h.ite (h.failWith _)
        (h.submitFileResolvedOp hcb submits_syncFileRange (fun _ => by exact ⟨rfl, rfl, rfl⟩) _ _))

theorem auraSubmit (call : SubmitCall) (args : SubmitArgs) :
    K _ (Aura.auraSubmit env cb call args) := h.andThen h.setMark (h.submitCall hcb args call)

end

theorem toApiStable : ApiStable env K where
  toStable := h.toStable
  submission := h.auraSubmit
  registerBuffers := h.auraRegisterBuffers
  registerFiles := h.auraRegisterFiles
  requestUnregister := h.auraRequestUnregister
  updateFile := h.auraUpdateFile

end

end Calling

/-! ## All calls, and callbacks -/

namespace ApiStable

variable {env : Env} {cb : Callback} {K : ProgProp}

section

variable (h : ApiStable env K)

include h

section

variable (hcb : ∀ q res, K Unit (cb q res))

include hcb

/-- **Every library call has the property.** -/
theorem apiCall (c : ApiCall) : K _ (Aura.apiCall env cb c) := by
  cases c with
  | submit call args => exact h.bind (h.submission hcb call args) fun _ => h.pure _
  | setLinked req => exact h.bind (h.link req) fun _ => h.pure _
  | cancel req => exact h.bind (h.auraCancel req) fun _ => h.pure _
  | flush => exact h.bind h.auraFlush fun _ => h.pure _
  | poll => exact h.bind (h.auraPoll hcb) fun _ => h.pure _
  | wait timeoutMs => exact h.bind (h.auraWait hcb timeoutMs) fun _ => h.pure _
  | drain timeoutMs => exact h.bind (h.auraDrain hcb timeoutMs) fun _ => h.pure _
  | registerBuffers iovs => exact h.bind (h.registerBuffers iovs) fun _ => h.pure _
  | registerFiles fds => exact h.bind (h.registerFiles fds) fun _ => h.pure _
  | requestUnregister type => exact h.bind (h.requestUnregister type) fun _ => h.pure _
  | updateFile index fd => exact h.bind (h.updateFile index fd) fun _ => h.pure _

theorem runUser (p : UserProg) : K _ (Aura.runUser env cb p) := by
  induction p with
  | done => exact h.pure _
  | call c next ih => exact h.bind (h.apiCall hcb c) ih

end

/-- **Callbacks have the property**, by induction on how deep they nest. -/
theorem callback (depth : ℕ) (q : Request) (res : ℤ) : K _ (Aura.callback env depth q res) := by
  induction depth generalizing q res with
  | zero => exact h.block
  | succ depth ih =>
      unfold Aura.callback
      split
      · exact h.pure _
      · exact h.runUser ih _

end

end ApiStable

namespace Calling

variable {env : Env} {cb : Callback} {K : ProgProp}

theorem apiCall (h : Calling env K) (hcb : ∀ q res, K Unit (cb q res)) (c : ApiCall) :
    K _ (Aura.apiCall env cb c) := h.toApiStable.apiCall hcb c

theorem runUser (h : Calling env K) (hcb : ∀ q res, K Unit (cb q res)) (p : UserProg) :
    K _ (Aura.runUser env cb p) := h.toApiStable.runUser hcb p

theorem callback (h : Calling env K) (depth : ℕ) (q : Request) (res : ℤ) :
    K _ (Aura.callback env depth q res) := h.toApiStable.callback depth q res

end Calling

/-! ## From a preorder on worlds -/

/-- The callback depth of an event; submits that failed have none. -/
def LogEvent.depth? : LogEvent → Option ℕ
  | .submitFailed _ _ => none
  | .prepared d _ _ _ | .completion d _ _ | .callback d _ _ => some d

/-- A preorder on worlds that contains every change of a call, apart from those of the registration
lock, failed submits, and the callback depth. -/
structure Steady (R : World → World → Prop) : Prop where
  refl : ∀ w, R w w
  trans : ∀ {w w' w''}, R w w' → R w' w'' → R w w''
  move : ∀ {w w'}, Move w w' → R w w'
  submitted : ∀ (w : World) (i : ℕ) {op : ℕ} {r : RingCtx}, Submitted (w.ring i) op r →
    R w (w.setRing i r)
  link : ∀ (w : World) (i slot : ℕ), R w (w.setRing i ((w.ring i).linkSlot slot))
  lastSqe : ∀ (w : World) s, R w { w with tls := { w.tls with lastSqe := s } }
  log : ∀ (w : World) {e : LogEvent}, e.depth? = some w.tls.callbackContextDepth →
    R w { w with log := w.log ++ [e] }

namespace Steady

variable {env : Env} {R : World → World → Prop} (h : Steady R)

include h

theorem moving : Moving fun (α : Type) (p : AuraM α) => Keeps R p :=
  .of_keeps h.refl h.trans h.move

theorem submitRequest {f : RingSubmitFn} (hf : f.Submits) (ctx : SubmitCtx) :
    Keeps R (Aura.submitRequest env f ctx) := by
  intro w
  cases hr : f (env.now w.clock) (w.ring ctx.ring) ctx.opIdx with
  | error e =>
      have := h.moving.setErrno e w
      simpa [Aura.submitRequest, hr, Aura.setErrno, Aura.onTls] using this
  | ok r =>
      simp only [Aura.submitRequest, Prog.bind_apply, Prog.read_apply, Outcome.bind_ret, id, hr,
        Aura.logEvent, Aura.onRing, Aura.onTls, Prog.modify_apply, Prog.pure_apply,
        Outcome.state_ret]
      refine h.trans (h.log w (e := .prepared w.tls.callbackContextDepth ctx.ring
        (w.ring ctx.ring).nextPosition (w.ring ctx.ring).handed.length) rfl) ?_
      refine h.trans (h.submitted _ ctx.ring (r := r) (hf.submitted hr)) ?_
      exact h.lastSqe _ _

theorem submitCancel (i target op : ℕ) : Keeps R (Aura.submitCancel i target op) := by
  intro w
  simp only [Aura.submitCancel, Prog.bind_apply, Aura.readRing, Prog.read_apply, Outcome.bind_ret,
    id]
  cases hr : ringSubmitCancel (w.ring i) op target with
  | error e => exact h.moving.andThen (h.moving.setErrno e) (h.moving.pure _) w
  | ok r =>
      refine h.trans (h.submitted w i (ringSubmitCancel_spec hr).2) ?_
      exact h.lastSqe _ none

theorem linkLastSqe (p : Option (ℕ × ℕ)) : Keeps R (Aura.linkLastSqe p) := by
  cases p with
  | none => exact h.moving.pure _
  | some p => exact fun w => h.link w p.1 p.2

theorem auraRequestSetLinked (req : Option ReqPtr) : Keeps R (Aura.auraRequestSetLinked req) := by
  refine h.moving.bind (h.moving.read _) fun tls => ?_
  split
  · refine h.moving.andThen (h.moving.onRing fun _ => .fill _ _ ⟨rfl, rfl, rfl⟩) ?_
    exact h.moving.andThen (h.linkLastSqe _) (h.moving.andThen
      (h.moving.when (h.moving.onTls (fun _ => rfl) fun _ => .inl rfl)) (h.moving.pure _))
  · exact h.moving.andThen (h.moving.setErrno _) (h.moving.pure _)

theorem registering (hreg : ∀ (w : World) {e : Engine}, w.engine.RegFrame e →
    R w { w with engine := e }) :
    Registering fun (α : Type) (p : AuraM α) => Keeps R p where
  toMoving := h.moving
  rdlock := by
    refine (Keeps.steps h.refl id).await fun w u w' hw => ?_
    split at hw
    · cases hw
    · cases hw
      exact hreg w (.of_eq ⟨rfl, rfl, rfl, rfl, rfl, rfl, rfl, rfl⟩)
  wrlock := by
    refine (Keeps.steps h.refl id).await fun w u w' hw => ?_
    split at hw
    · cases hw
    · cases hw
      exact hreg w (.of_eq ⟨rfl, rfl, rfl, rfl, rfl, rfl, rfl, rfl⟩)
  regs hf w := hreg w (hf _)

/-- **Every call keeps a preorder that contains the changes of calls**, provided flushes and
callbacks do. -/
theorem calling (hreg : ∀ (w : World) {e : Engine}, w.engine.RegFrame e →
    R w { w with engine := e })
    (hinvoke : ∀ {cb : Callback}, (∀ q res, Keeps R (cb q res)) →
      ∀ q res, Keeps R (invokeCallback cb q res))
    (hlatching : ∀ i, Keeps R (ringFlushLatching env i))
    (hfast : ∀ i, Keeps R (ringFlushFast env i)) (habort : ∀ i, Keeps R (ringFlush env .abort i)) :
    Calling env fun (α : Type) (p : AuraM α) => Keeps R p where
  toMoving := h.moving
  submit := h.submitRequest
  cancel := h.submitCancel
  link := h.auraRequestSetLinked
  completion _ _ w := h.log w rfl
  invoke := hinvoke
  latching := hlatching
  fast := hfast
  abort := habort
  finalize := (h.registering hreg).maybeFinalizeDeferredUnregistration
  rdlock := (h.registering hreg).rdlock
  wrlock := (h.registering hreg).wrlock
  regs := (h.registering hreg).regs

/-- The same for what a call does until it returns: here a callback may change the relation as long
as it restores it, and so may finalization. -/
theorem stable_ensures
    (hinvoke : ∀ {cb : Callback}, (∀ q res, Ensures R (cb q res)) →
      ∀ q res, Ensures R (invokeCallback cb q res))
    (hlatching : ∀ i, Keeps R (ringFlushLatching env i))
    (hfast : ∀ i, Keeps R (ringFlushFast env i)) (habort : ∀ i, Keeps R (ringFlush env .abort i))
    (hfinalize : Ensures R maybeFinalizeDeferredUnregistration) :
    Stable env fun (α : Type) (p : AuraM α) => Ensures R p where
  toMoving := .of_ensures h.refl h.trans h.move
  submit hf ctx := (h.submitRequest hf ctx).ensures
  cancel i target op := (h.submitCancel i target op).ensures
  link req := (h.auraRequestSetLinked req).ensures
  completion _ _ := Keeps.ensures fun w => h.log w rfl
  invoke := hinvoke
  latching i := (hlatching i).ensures
  fast i := (hfast i).ensures
  abort i := (habort i).ensures
  finalize := hfinalize

/-- Every call that returns ensures a preorder that contains the changes of calls. -/
theorem calling_ensures (hreg : ∀ (w : World) {e : Engine}, w.engine.RegFrame e →
    R w { w with engine := e })
    (hinvoke : ∀ {cb : Callback}, (∀ q res, Ensures R (cb q res)) →
      ∀ q res, Ensures R (invokeCallback cb q res))
    (hlatching : ∀ i, Keeps R (ringFlushLatching env i))
    (hfast : ∀ i, Keeps R (ringFlushFast env i)) (habort : ∀ i, Keeps R (ringFlush env .abort i)) :
    Calling env fun (α : Type) (p : AuraM α) => Ensures R p where
  toStable := h.stable_ensures hinvoke hlatching hfast habort
    (h.registering hreg).maybeFinalizeDeferredUnregistration.ensures
  rdlock := (h.registering hreg).rdlock.ensures
  wrlock := (h.registering hreg).wrlock.ensures
  regs hf := ((h.registering hreg).regs hf).ensures

end Steady

end Aura
