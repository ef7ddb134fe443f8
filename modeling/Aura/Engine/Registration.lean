import Aura.Engine.Flush

/-!
# Registered buffers and files

Registration, deferred unregistration and its finalization, and `aura_update_file`. Each body runs
under the write side of the registration lock. Every ring has a table of its own in the kernel; the
kernel answers registration calls as `Env.register` says, and one that it refuses leaves the ring's
table as it was.
-/

namespace Aura

open Lib

/-! ## The in-flight totals -/

/-- `fixed_buf_inflight_total`: a `uint32_t` sum over the rings. -/
def Engine.fixedBufInflightTotal (e : Engine) : UInt32 :=
  (List.range e.ringCount).foldl (fun total i => total + (e.rings i).fixedBufInflight) 0

/-- `fixed_file_inflight_total`. -/
def Engine.fixedFileInflightTotal (e : Engine) : UInt32 :=
  (List.range e.ringCount).foldl (fun total i => total + (e.rings i).fixedFileInflight) 0

/-! ## Deferred unregistration -/

/-- The buffer half of `finalize_deferred_unregistration`. -/
def Engine.finalizeBuffers (e : Engine) : Engine :=
  if e.buffersRegistered && e.buffersUnregPending && e.fixedBufInflightTotal == 0 then
    { e with
      registeredBuffers := [], buffersRegistered := false, buffersUnregPending := false
      kernelBuffers := fun i => if i < e.ringCount then none else e.kernelBuffers i }
  else e

/-- The file half of `finalize_deferred_unregistration`. -/
def Engine.finalizeFiles (e : Engine) : Engine :=
  if e.filesRegistered && e.filesUnregPending && e.fixedFileInflightTotal == 0 then
    { e with
      registeredFiles := [], filesRegistered := false, filesUnregPending := false
      kernelFiles := fun i => if i < e.ringCount then none else e.kernelFiles i }
  else e

/-- The body of `finalize_deferred_unregistration`. -/
def Engine.finalize (e : Engine) : Engine := e.finalizeBuffers.finalizeFiles

/-- `finalize_deferred_unregistration`. It never fails on an engine. -/
def finalizeDeferredUnregistration : AuraM ℤ := do
  regWrlock
  onEngine Engine.finalize
  regWrunlock
  pure 0

/-- `maybe_finalize_deferred_unregistration`. -/
def maybeFinalizeDeferredUnregistration : AuraM ℤ := do
  let e ← Prog.read fun w => w.engine
  if !e.buffersRegistered && !e.filesRegistered then pure 0
  else do
    regRdlock
    let e ← Prog.read fun w => w.engine
    regRdunlock
    if !(e.buffersUnregPending || e.filesUnregPending) then pure 0
    else finalizeDeferredUnregistration

/-- Finalization never reports an error. -/
theorem maybeFinalizeDeferredUnregistration_eq {w w' : World} {n : ℤ}
    (h : maybeFinalizeDeferredUnregistration w = .ret n w') : n = 0 := by
  simp only [maybeFinalizeDeferredUnregistration, finalizeDeferredUnregistration,
    Prog.bind_apply, Prog.read_apply, Outcome.bind_ret, Prog.ite_apply] at h
  split at h
  · cases h
    rfl
  · obtain ⟨_, w₁, -, h⟩ := Outcome.bind_eq_ret.mp h
    obtain ⟨_, w₂, -, h⟩ := Outcome.bind_eq_ret.mp h
    split at h
    · cases h
      rfl
    · obtain ⟨_, w₃, -, h⟩ := Outcome.bind_eq_ret.mp h
      obtain ⟨_, w₄, -, h⟩ := Outcome.bind_eq_ret.mp h
      obtain ⟨_, w₅, -, h⟩ := Outcome.bind_eq_ret.mp h
      cases h
      rfl

/-- Set a table's pending flag (the body of `request_unregister_generic`). -/
def Engine.requestUnregister (e : Engine) : RegType → Engine
  | .buffers => { e with buffersUnregPending := true }
  | .files => { e with filesUnregPending := true }

/-- Is the table neither registered nor being unregistered? -/
def Engine.idle (e : Engine) : RegType → Bool
  | .buffers => !e.buffersRegistered && !e.buffersUnregPending
  | .files => !e.filesRegistered && !e.filesUnregPending

/-- `aura_request_unregister`, by way of `request_unregister_generic`. -/
def auraRequestUnregister (type : RegType) : AuraM ℤ := do
  regWrlock
  let e ← Prog.read fun w => w.engine
  if e.idle type then do
    regWrunlock
    pure 0
  else do
    onEngine (·.requestUnregister type)
    regWrunlock
    finalizeDeferredUnregistration

/-! ## Registration -/

section

variable (env : Env)

/-- One registration system call for a ring: `none` if the kernel accepts it. -/
def kernelRegister : AuraM (Option Errno) := do
  kernelTurn env
  let clock ← Prog.read fun w => w.clock
  pure (env.register clock)

/-- A registration call that changes the engine when it is accepted. -/
def kernelRegisterWith (f : Engine → Engine) : AuraM (Option Errno) := do
  let err ← kernelRegister env
  Prog.when err.isNone (onEngine f)
  pure err

/-- The kernel's table of buffers of ring `i`. -/
def Engine.setKernelBuffers (e : Engine) (i : ℕ) (t : Option (List Iovec)) : Engine :=
  { e with kernelBuffers := Function.update e.kernelBuffers i t }

/-- The kernel's table of files of ring `i`. -/
def Engine.setKernelFiles (e : Engine) (i : ℕ) (t : Option (List ℤ)) : Engine :=
  { e with kernelFiles := Function.update e.kernelFiles i t }

/-- The loop of `aura_register_buffers` and `aura_register_files` over the rings `i`, …, `i + n -
1`: when the kernel refuses one, the rings before it are unregistered again. -/
def registerRings (set : ℕ → Engine → Engine) (clear : ℕ → Engine → Engine) :
    ℕ → ℕ → AuraM (Option Errno)
  | _, 0 => pure none
  | i, n + 1 => do
      match ← kernelRegisterWith env (set i) with
      | some err => do
          onEngine fun e => (List.range i).foldl (fun e j => clear j e) e
          pure (some err)
      | none => registerRings set clear (i + 1) n

/-- What `aura_register_buffers` and `aura_register_files` do differently: which table they write.
-/
structure TableOps (α : Type) where
  type : RegType
  /-- Write the engine's copy of the table. -/
  setRecorded : List α → Engine → Engine
  /-- Write the kernel's table of a ring. -/
  setKernel : Option (List α) → ℕ → Engine → Engine
  /-- Raise the table's registered flag and lower its pending flag. -/
  setRegistered : Engine → Engine

/-- The common body of `aura_register_buffers` and `aura_register_files`. -/
def registerTable {α : Type} (ops : TableOps α) (table : List α) : AuraM ℤ := do
  if table.length = 0 ∨ (table.length : ℤ) > INT_MAX then do
    setErrno EINVAL
    pure (-1)
  else do
    regWrlock
    let e ← Prog.read fun w => w.engine
    if !e.idle ops.type then do
      regWrunlock
      setErrno EBUSY
      pure (-1)
    else do
      onEngine (ops.setRecorded table)
      match ← registerRings env (ops.setKernel (some table)) (ops.setKernel none) 0 e.ringCount with
      | some err => do
          onEngine (ops.setRecorded [])
          regWrunlock
          setErrno err
          pure (-1)
      | none => do
          onEngine ops.setRegistered
          regWrunlock
          pure 0

/-- The table of buffers. -/
def bufferOps : TableOps Iovec where
  type := .buffers
  setRecorded iovs e := { e with registeredBuffers := iovs }
  setKernel t i e := e.setKernelBuffers i t
  setRegistered e := { e with buffersRegistered := true, buffersUnregPending := false }

/-- The table of files. -/
def fileOps : TableOps ℤ where
  type := .files
  setRecorded fds e := { e with registeredFiles := fds }
  setKernel t i e := e.setKernelFiles i t
  setRegistered e := { e with filesRegistered := true, filesUnregPending := false }

/-- `aura_register_buffers`. -/
def auraRegisterBuffers (iovs : List Iovec) : AuraM ℤ := registerTable env bufferOps iovs

/-- `aura_register_files`. -/
def auraRegisterFiles (fds : List ℤ) : AuraM ℤ := registerTable env fileOps fds

/-- The kernel's entry at `index` of ring `i` becomes `fd`. -/
def Engine.setKernelFile (e : Engine) (index : ℕ) (fd : ℤ) (i : ℕ) : Engine :=
  e.setKernelFiles i ((e.kernelFiles i).map (·.set index fd))

/-- The loop of `aura_update_file` over the rings `i`, …, `i + n - 1`: the error of the first ring
that refuses, with its number. -/
def updateRings (index : ℕ) (fd : ℤ) : ℕ → ℕ → AuraM (Option (Errno × ℕ))
  | _, 0 => pure none
  | i, n + 1 => do
      match ← kernelRegisterWith env (·.setKernelFile index fd i) with
      | some err => pure (some (err, i))
      | none => updateRings index fd (i + 1) n

/-- Roll back the rings of the list to `oldFd`; `true` if one of them could not be. -/
def rollbackRings (index : ℕ) (oldFd : ℤ) : List ℕ → AuraM Bool
  | [] => pure false
  | j :: js => do
      let rb ← kernelRegisterWith env (·.setKernelFile index oldFd j)
      let failed ← rollbackRings index oldFd js
      pure (rb.isSome || failed)

/-- What `aura_update_file` does when its roll-back failed: it latches `EIO`. -/
def Engine.failRollback (e : Engine) : Engine := { e.latch EIO with rollbackFailed := true }

/-- `aura_update_file`. -/
def auraUpdateFile (index fd : ℤ) : AuraM ℤ := do
  if index < 0 then do
    setErrno EINVAL
    pure (-1)
  else do
    regWrlock
    let e ← Prog.read fun w => w.engine
    if !e.filesRegistered || e.filesUnregPending then do
      regWrunlock
      setErrno (if e.filesUnregPending then EBUSY else ENOENT)
      pure (-1)
    else if e.registeredFiles.length ≤ index then do
      regWrunlock
      setErrno EINVAL
      pure (-1)
    else do
      match ← updateRings env index.toNat fd 0 e.ringCount with
      | some (err, i) => do
          let oldFd := e.registeredFiles.getD index.toNat 0
          let failed ← rollbackRings env index.toNat oldFd (List.range i)
          Prog.when failed (onEngine Engine.failRollback)
          regWrunlock
          setErrno err
          pure (-1)
      | none => do
          onEngine fun e => { e with registeredFiles := e.registeredFiles.set index.toNat fd }
          regWrunlock
          pure 0

end

end Aura
