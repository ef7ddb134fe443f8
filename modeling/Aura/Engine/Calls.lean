import Aura.Engine.Submit

/-!
# The submission calls

The public calls of `aura.c` that submit an operation. They come in three shapes:

* `submitFileResolvedOp` — the descriptor is resolved against the registered files first
  (`aura_fsync`, the `SUBMIT_FILE_RESOLVED_OP` family and the unregistered half of `aura_read` and
  `aura_write`);
* `submitDirectOp` — no descriptor to resolve (`aura_openat`, `aura_close`, `aura_statx`);
* `submitRegisteredBufferIo` — the registered half of `aura_read` and `aura_write`, which holds the
  registration lock throughout.

`auraSubmit` is the dispatch over all of them. Engine pointers are never `NULL` here.
-/

namespace Aura

open Lib

/-- `AT_FDCWD`. -/
abbrev AT_FDCWD : ℤ := -100
/-- `AURA_FSYNC_DATASYNC`. -/
abbrev AURA_FSYNC_DATASYNC : ℕ := 1

/-- The flags contain `AURA_FIXED_FILE`. -/
def SubmitArgs.fixedFile (a : SubmitArgs) : Bool := a.flags.testBit 0

/-- `VALIDATE_SUBMIT_FLAGS` rejects the flags: a bit other than `AURA_FIXED_FILE` is set. -/
def SubmitArgs.invalid (a : SubmitArgs) : Bool := a.flags >>> 1 ≠ 0

/-- Return `NULL` with an error. -/
def failWith {α : Type} (e : ℤ) : AuraM (Option α) := do
  setErrno e
  pure none

/-! ## Registered files -/

/-- `file_resolve_guard_t`. -/
structure FileGuard where
  submitFd : ℤ
  usesRegisteredFile : Bool := false
  locked : Bool := false
deriving DecidableEq, Repr

/-- `resolve_registered_file_locked`: the index of the first entry equal to `fd`. -/
def Engine.resolveRegisteredFile (e : Engine) (fd : ℤ) : Option ℕ :=
  if !e.filesRegistered || e.filesUnregPending then none
  else if e.registeredFiles.idxOf fd < e.registeredFiles.length then
    some (e.registeredFiles.idxOf fd)
  else none

/-- `resolve_file_begin`. -/
def resolveFileBegin (fd : ℤ) : AuraM FileGuard := do
  let e ← Prog.read fun w => w.engine
  if e.filesRegistered then do
    Prog.when (!e.singleThread) regRdlock
    let e ← Prog.read fun w => w.engine
    match e.resolveRegisteredFile fd with
    | some i =>
        pure { submitFd := i, usesRegisteredFile := true, locked := !e.singleThread }
    | none => do
        Prog.when (!e.singleThread) regRdunlock
        pure { submitFd := fd }
  else pure { submitFd := fd }

/-- `resolve_file_end`. -/
def resolveFileEnd (g : FileGuard) : AuraM Unit := Prog.when g.locked regRdunlock

/-- `validate_fixed_file` accepts the index. -/
def Engine.fixedFileValid (e : Engine) (index : ℤ) : Bool :=
  e.filesRegistered && 0 ≤ index && index < e.registeredFiles.length

/-- `validate_fixed_file`. -/
def validateFixedFile (index : ℤ) : AuraM Bool := do
  let e ← Prog.read fun w => w.engine
  if e.fixedFileValid index then pure true
  else do
    setErrno EINVAL
    pure false

/-- The file guard of a submission: the descriptor is an index with `AURA_FIXED_FILE`, else it is
resolved. `none` when the index is not valid. -/
def resolveFile (fd : ℤ) (fixed : Bool) : AuraM (Option FileGuard) := do
  if fixed then do
    if ← validateFixedFile fd then pure (some { submitFd := fd, usesRegisteredFile := true })
    else pure none
  else do
    let g ← resolveFileBegin fd
    pure (some g)

/-- The request fields that every submission sets. -/
def Request.common (q : Request) (fd originalFd : ℤ) (args : SubmitArgs) (ringIdx : ℤ)
    (usesRegisteredFile : Bool) : Request :=
  { q with
    fd, originalFd, callback := args.callback, userData := args.userData, ringIdx,
    usesRegisteredFile }

section

variable (env : Env) (cb : Callback)

/-! ## The three shapes -/

/-- From a slot to the end of the call: submit, then `submit_end` or `submit_abort`. -/
def submitOrAbort (f : RingSubmitFn) (ctx : SubmitCtx) : AuraM (Option ReqPtr) := do
  if ← submitRequest env f ctx then do
    submitEnd env ctx
    pure (some (ctx.ring, ctx.opIdx))
  else do
    submitAbort env ctx
    pure none

/-- `SUBMIT_FILE_RESOLVED_OP`, after the flags were validated. -/
def submitFileResolvedOp (fd : ℤ) (args : SubmitArgs) (f : RingSubmitFn)
    (setup : Request → Request) : AuraM (Option ReqPtr) := do
  match ← resolveFile fd args.fixedFile with
  | none => pure none
  | some g => do
      match ← submitBegin env cb (!g.usesRegisteredFile) with
      | none => do
          resolveFileEnd g
          pure none
      | some ctx => do
          fillRequest ctx fun r q =>
            setup (q.common g.submitFd fd args r.ringIdx g.usesRegisteredFile)
          let req ← submitOrAbort env f ctx
          resolveFileEnd g
          pure req

/-- The common body of `aura_openat`, `aura_close` and `aura_statx`. -/
def submitDirectOp (fd : ℤ) (args : SubmitArgs) (f : RingSubmitFn) (setup : Request → Request) :
    AuraM (Option ReqPtr) := do
  match ← submitBegin env cb true with
  | none => pure none
  | some ctx => do
      fillRequest ctx fun r q => setup (q.common fd fd args r.ringIdx false)
      submitOrAbort env f ctx

/-- Why `validate_registered_buffer` rejects a range, if it does. -/
def Engine.bufferError (e : Engine) (index : ℤ) (offset len : ℕ) : Except ℤ Iovec :=
  if !e.buffersRegistered then .error ENOENT
  else if e.buffersUnregPending then .error EBUSY
  else if index < 0 ∨ e.registeredBuffers.length ≤ index then .error EINVAL
  else
    let iov := e.registeredBuffers.getD index.toNat ⟨0, 0⟩
    if iov.len ≤ offset ∨ iov.len - offset < len then .error EOVERFLOW else .ok iov

/-- `validate_registered_buffer`: on success the registration lock stays held, unless the engine is
single-threaded. -/
def validateRegisteredBuffer (index : ℤ) (offset len : ℕ) : AuraM (Option Iovec) := do
  let st ← Prog.read fun w => w.engine.singleThread
  Prog.when (!st) regRdlock
  let e ← Prog.read fun w => w.engine
  match e.bufferError index offset len with
  | .ok iov => pure (some iov)
  | .error err => do
      Prog.when (!st) regRdunlock
      failWith err

/-- Raise `fixed_buf_inflight`. -/
def addFixedBuf (i : ℕ) : AuraM Unit :=
  onRing i fun r => { r with fixedBufInflight := r.fixedBufInflight + 1 }

/-- Lower `fixed_buf_inflight`. -/
def subFixedBuf (i : ℕ) : AuraM Unit :=
  onRing i fun r => { r with fixedBufInflight := r.fixedBufInflight - 1 }

/-- The request fields that `submit_registered_buffer_io` sets. -/
def fillBuffer (fd : ℤ) (iov : Iovec) (index : ℤ) (bufOffset len : ℕ) (offset : ℤ)
    (args : SubmitArgs) (submitFd : ℤ) (useRegisteredFile : Bool) (r : RingCtx) (q : Request) :
    Request :=
  { q.common submitFd fd args r.ringIdx useRegisteredFile with
    len, offset, usesRegisteredBuffer := true, buffer := some (iov.base + bufOffset),
    bufIndex := index, bufOffset }

/-- `submit_registered_buffer_io` from the point where the request fields are known. -/
def submitRegisteredBufferOn (ctx : SubmitCtx) (fill : RingCtx → Request → Request)
    (f : RingSubmitFn) : AuraM (Option ReqPtr) := do
  fillRequest ctx fill
  addFixedBuf ctx.ring
  if ← submitRequest env f ctx then do
    submitEnd env ctx
    pure (some (ctx.ring, ctx.opIdx))
  else do
    subFixedBuf ctx.ring
    submitAbort env ctx
    pure none

/-- The end of `submit_registered_buffer_io` on every path. -/
def regRdunlockUnless (st : Bool) : AuraM Unit := Prog.when (!st) regRdunlock

/-- `submit_registered_buffer_io`. With `AURA_FIXED_FILE` and an index that is not valid it returns
at once, with the slot still taken. -/
def submitRegisteredBufferIo (fd : ℤ) (iov : Iovec) (index : ℤ) (bufOffset len : ℕ) (offset : ℤ)
    (args : SubmitArgs) (f : RingSubmitFn) : AuraM (Option ReqPtr) := do
  let st ← Prog.read fun w => w.engine.singleThread
  let fill := fillBuffer fd iov index bufOffset len offset args
  match ← submitBegin env cb false with
  | none => do
      regRdunlockUnless st
      pure none
  | some ctx => do
      let e ← Prog.read fun w => w.engine
      if args.fixedFile then do
        if ← validateFixedFile fd then do
          let req ← submitRegisteredBufferOn env ctx (fill fd true) f
          regRdunlockUnless st
          pure req
        else do
          regRdunlockUnless st
          pure none
      else do
        let file := e.resolveRegisteredFile fd
        let req ← submitRegisteredBufferOn env ctx (fill (file.elim fd (↑)) file.isSome) f
        regRdunlockUnless st
        pure req

/-! ## The public calls -/

/-- `submit_io_generic`. -/
def submitIoGeneric (fd : ℤ) (buf : Buf) (len : ℕ) (offset : ℤ) (args : SubmitArgs)
    (unreg reg : RingSubmitFn) : AuraM (Option ReqPtr) := do
  if fd < 0 ∨ len = 0 then failWith EINVAL
  else if args.invalid then failWith EINVAL
  else
    match buf with
    | .unregistered none | .invalid => failWith EINVAL
    | .unregistered (some ptr) =>
        submitFileResolvedOp env cb fd args unreg fun q =>
          { q with len, offset, buffer := some ptr }
    | .registered index bufOffset => do
        match ← validateRegisteredBuffer index bufOffset len with
        | none => pure none
        | some iov =>
            submitRegisteredBufferIo env cb fd iov index bufOffset len offset args reg

/-- `aura_read`. -/
def auraRead (fd : ℤ) (buf : Buf) (len : ℕ) (offset : ℤ) (args : SubmitArgs) :
    AuraM (Option ReqPtr) :=
  submitIoGeneric env cb fd buf len offset args ringSubmitRead ringSubmitReadFixed

/-- `aura_write`. -/
def auraWrite (fd : ℤ) (buf : Buf) (len : ℕ) (offset : ℤ) (args : SubmitArgs) :
    AuraM (Option ReqPtr) :=
  submitIoGeneric env cb fd buf len offset args ringSubmitWrite ringSubmitWriteFixed

/-- The common body of `aura_readv` and `aura_writev`. -/
def submitVectored (fd : ℤ) (iov : Option ℕ) (iovcnt offset : ℤ) (args : SubmitArgs)
    (f : RingSubmitFn) : AuraM (Option ReqPtr) :=
  if fd < 0 ∨ iov = none ∨ iovcnt ≤ 0 ∨ iovcnt > IOV_MAX then failWith EINVAL
  else if args.invalid then failWith EINVAL
  else submitFileResolvedOp env cb fd args f fun q => { q with iov, iovcnt, offset }

/-- `aura_readv`. -/
def auraReadv (fd : ℤ) (iov : Option ℕ) (iovcnt offset : ℤ) (args : SubmitArgs) :
    AuraM (Option ReqPtr) :=
  submitVectored env cb fd iov iovcnt offset args ringSubmitReadv

/-- `aura_writev`. -/
def auraWritev (fd : ℤ) (iov : Option ℕ) (iovcnt offset : ℤ) (args : SubmitArgs) :
    AuraM (Option ReqPtr) :=
  submitVectored env cb fd iov iovcnt offset args ringSubmitWritev

/-- `aura_fsync`. -/
def auraFsync (fd : ℤ) (fsyncFlags : ℕ) (args : SubmitArgs) : AuraM (Option ReqPtr) :=
  if fd < 0 then failWith EINVAL
  else if fsyncFlags >>> 1 ≠ 0 then failWith EINVAL
  else if args.invalid then failWith EINVAL
  else submitFileResolvedOp env cb fd args
    (if fsyncFlags &&& AURA_FSYNC_DATASYNC ≠ 0 then ringSubmitFdatasync else ringSubmitFsync) id

/-- `aura_openat`. -/
def auraOpenat (dirfd : ℤ) (pathname : Option ℕ) (openFlags : ℤ) (mode : ℕ) (args : SubmitArgs) :
    AuraM (Option ReqPtr) :=
  match pathname with
  | none => failWith EINVAL
  | some path =>
      if dirfd < 0 ∧ dirfd ≠ AT_FDCWD then failWith EINVAL
      else if args.flags ≠ 0 then failWith EINVAL
      else submitDirectOp env cb dirfd args ringSubmitOpenat fun q =>
        { q with opMeta := .openAt path openFlags mode }

/-- `aura_close`. -/
def auraClose (fd : ℤ) (args : SubmitArgs) : AuraM (Option ReqPtr) :=
  if fd < 0 then failWith EINVAL
  else if args.flags ≠ 0 then failWith EINVAL
  else submitDirectOp env cb fd args ringSubmitClose id

/-- `aura_statx`. -/
def auraStatx (dirfd : ℤ) (pathname : Option ℕ) (statxFlags : ℤ) (mask : ℕ)
    (statxbuf : Option ℕ) (args : SubmitArgs) : AuraM (Option ReqPtr) :=
  match pathname, statxbuf with
  | some path, some sbuf =>
      if dirfd < 0 ∧ dirfd ≠ AT_FDCWD then failWith EINVAL
      else if args.flags ≠ 0 then failWith EINVAL
      else submitDirectOp env cb dirfd args ringSubmitStatx fun q =>
        { q with opMeta := .statx path sbuf statxFlags mask }
  | _, _ => failWith EINVAL

/-- `aura_fallocate`. -/
def auraFallocate (fd mode offset len : ℤ) (args : SubmitArgs) : AuraM (Option ReqPtr) :=
  if fd < 0 ∨ offset < 0 ∨ len ≤ 0 then failWith EINVAL
  else if args.invalid then failWith EINVAL
  else submitFileResolvedOp env cb fd args ringSubmitFallocate fun q =>
    { q with offset, len := len.toNat, opMeta := .fallocate mode }

/-- `aura_ftruncate`. -/
def auraFtruncate (fd length : ℤ) (args : SubmitArgs) : AuraM (Option ReqPtr) :=
  if fd < 0 ∨ length < 0 then failWith EINVAL
  else if args.invalid then failWith EINVAL
  else submitFileResolvedOp env cb fd args (ringSubmitFtruncate env.ftruncateSupported) fun q =>
    { q with len := length.toNat }

/-- `aura_sync_file_range`. -/
def auraSyncFileRange (fd offset nbytes : ℤ) (rangeFlags : ℕ) (args : SubmitArgs) :
    AuraM (Option ReqPtr) :=
  if fd < 0 ∨ offset < 0 ∨ nbytes < 0 then failWith EINVAL
  else if args.invalid then failWith EINVAL
  else submitFileResolvedOp env cb fd args ringSubmitSyncFileRange fun q =>
    { q with offset, len := nbytes.toNat, opMeta := .syncRange rangeFlags }

/-- The submission calls by name. -/
def submitCall (args : SubmitArgs) : SubmitCall → AuraM (Option ReqPtr)
  | .read fd buf len offset => auraRead env cb fd buf len offset args
  | .write fd buf len offset => auraWrite env cb fd buf len offset args
  | .readv fd iov iovcnt offset => auraReadv env cb fd iov iovcnt offset args
  | .writev fd iov iovcnt offset => auraWritev env cb fd iov iovcnt offset args
  | .fsync fd fsyncFlags => auraFsync env cb fd fsyncFlags args
  | .openat dirfd pathname openFlags mode => auraOpenat env cb dirfd pathname openFlags mode args
  | .close fd => auraClose env cb fd args
  | .statx dirfd pathname statxFlags mask statxbuf =>
      auraStatx env cb dirfd pathname statxFlags mask statxbuf args
  | .fallocate fd mode offset len => auraFallocate env cb fd mode offset len args
  | .ftruncate fd length => auraFtruncate env cb fd length args
  | .syncFileRange fd offset nbytes rangeFlags =>
      auraSyncFileRange env cb fd offset nbytes rangeFlags args

/-- A submission call, with the state it starts from marked. -/
def auraSubmit (call : SubmitCall) (args : SubmitArgs) : AuraM (Option ReqPtr) := do
  setMark
  submitCall env cb args call

end

end Aura
