import Aura.Engine.Calls

/-!
# The normal form of a submission call

All submission calls have one shape: what they do before `submit_begin` ends with an error or with
an `Entry`, and the entry determines the rest of the call (`Entry.run`). `submitCall_eq` says so for
every call; results about submission calls are proved once, of `Entry.run`. -/

namespace Aura

open Lib Lib.Prog

/-- What a submission call has settled when it reaches `submit_begin`. -/
structure Entry where
  allowPoll : Bool
  /-- The call holds the read side of the registration lock. -/
  locked : Bool := false
  /-- An index for `validate_fixed_file`, which is checked only after `submit_begin`. -/
  lateIndex : Option ℤ := none
  /-- The request uses a registered buffer. -/
  usesBuffer : Bool := false
  submit : RingSubmitFn
  /-- What the call writes into the request. -/
  fill : Engine → RingCtx → Request → Request

namespace Entry

variable (env : Env) (cb : Callback) (e : Entry) (ctx : SubmitCtx)

/-- Let go of the registration lock. -/
def leave : AuraM Unit := Prog.when e.locked regRdunlock

/-- Take back the count of a registered buffer. -/
def uncount : AuraM Unit := Prog.when e.usesBuffer (subFixedBuf ctx.ring)

/-- The request is written and counted. -/
def prepare : AuraM Unit := do
  let eng ← Prog.read fun w => w.engine
  fillRequest ctx (e.fill eng)
  Prog.when e.usesBuffer (addFixedBuf ctx.ring)

/-- From the slot to the end: submit, then `submit_end` or `submit_abort`. -/
def submitOn : AuraM (Option ReqPtr) := do
  e.prepare ctx
  if ← submitRequest env e.submit ctx then do
    submitEnd env ctx
    pure (some (ctx.ring, ctx.opIdx))
  else do
    e.uncount ctx
    submitAbort env ctx
    pure none

/-- What follows a `submit_begin` that found a slot. -/
def finish : AuraM (Option ReqPtr) :=
  match e.lateIndex with
  | none => e.submitOn env ctx
  | some index => do
      if ← validateFixedFile index then e.submitOn env ctx else pure none

/-- The call from `submit_begin` on. -/
def run : AuraM (Option ReqPtr) := do
  match ← submitBegin env cb e.allowPoll with
  | none => do
      e.leave
      pure none
  | some ctx => do
      let req ← e.finish env ctx
      e.leave
      pure req

end Entry

/-- Run the entry, if the call got that far. -/
def runEntry (env : Env) (cb : Callback) : Option Entry → AuraM (Option ReqPtr)
  | none => pure none
  | some e => e.run env cb

/-! ## Up to `submit_begin` -/

/-- A call whose descriptor is resolved first. -/
def enterFile (fd : ℤ) (args : SubmitArgs) (f : RingSubmitFn) (setup : Request → Request) :
    AuraM (Option Entry) := do
  match ← resolveFile fd args.fixedFile with
  | none => pure none
  | some g => pure (some {
      allowPoll := !g.usesRegisteredFile
      locked := g.locked
      submit := f
      fill := fun _ r q => setup (q.common g.submitFd fd args r.ringIdx g.usesRegisteredFile) })

/-- A call without a descriptor to resolve. -/
def enterDirect (fd : ℤ) (args : SubmitArgs) (f : RingSubmitFn) (setup : Request → Request) :
    AuraM (Option Entry) :=
  pure (some {
    allowPoll := true
    submit := f
    fill := fun _ r q => setup (q.common fd fd args r.ringIdx false) })

/-- A call on a registered buffer that was validated, with the registration lock held unless the
engine is single-threaded. -/
def bufferEntry (fd : ℤ) (iov : Iovec) (index : ℤ) (bufOffset len : ℕ) (offset : ℤ)
    (args : SubmitArgs) (f : RingSubmitFn) (st : Bool) : Entry where
  allowPoll := false
  locked := !st
  lateIndex := if args.fixedFile then some fd else none
  usesBuffer := true
  submit := f
  fill eng :=
    if args.fixedFile then fillBuffer fd iov index bufOffset len offset args fd true
    else fillBuffer fd iov index bufOffset len offset args
      ((eng.resolveRegisteredFile fd).elim fd (↑)) (eng.resolveRegisteredFile fd).isSome

/-- A call on a registered buffer. -/
def enterBuffer (fd index : ℤ) (bufOffset len : ℕ) (offset : ℤ) (args : SubmitArgs)
    (f : RingSubmitFn) : AuraM (Option Entry) := do
  match ← validateRegisteredBuffer index bufOffset len with
  | none => pure none
  | some iov => do
      let st ← Prog.read fun w => w.engine.singleThread
      pure (some (bufferEntry fd iov index bufOffset len offset args f st))

/-- `submit_io_generic`, up to `submit_begin`. -/
def enterIo (fd : ℤ) (buf : Buf) (len : ℕ) (offset : ℤ) (args : SubmitArgs)
    (unreg reg : RingSubmitFn) : AuraM (Option Entry) :=
  if fd < 0 ∨ len = 0 then failWith EINVAL
  else if args.invalid then failWith EINVAL
  else
    match buf with
    | .unregistered none | .invalid => failWith EINVAL
    | .unregistered (some ptr) =>
        enterFile fd args unreg fun q => { q with len, offset, buffer := some ptr }
    | .registered index bufOffset => enterBuffer fd index bufOffset len offset args reg

/-- `aura_readv` and `aura_writev`, up to `submit_begin`. -/
def enterVectored (fd : ℤ) (iov : Option ℕ) (iovcnt offset : ℤ) (args : SubmitArgs)
    (f : RingSubmitFn) : AuraM (Option Entry) :=
  if fd < 0 ∨ iov = none ∨ iovcnt ≤ 0 ∨ iovcnt > IOV_MAX then failWith EINVAL
  else if args.invalid then failWith EINVAL
  else enterFile fd args f fun q => { q with iov, iovcnt, offset }

/-- A submission call up to `submit_begin`. -/
def SubmitCall.enter (env : Env) (args : SubmitArgs) : SubmitCall → AuraM (Option Entry)
  | .read fd buf len offset =>
      enterIo fd buf len offset args ringSubmitRead ringSubmitReadFixed
  | .write fd buf len offset =>
      enterIo fd buf len offset args ringSubmitWrite ringSubmitWriteFixed
  | .readv fd iov iovcnt offset => enterVectored fd iov iovcnt offset args ringSubmitReadv
  | .writev fd iov iovcnt offset => enterVectored fd iov iovcnt offset args ringSubmitWritev
  | .fsync fd fsyncFlags =>
      if fd < 0 then failWith EINVAL
      else if fsyncFlags >>> 1 ≠ 0 then failWith EINVAL
      else if args.invalid then failWith EINVAL
      else enterFile fd args
        (if fsyncFlags &&& AURA_FSYNC_DATASYNC ≠ 0 then ringSubmitFdatasync else ringSubmitFsync) id
  | .openat dirfd pathname openFlags mode =>
      match pathname with
      | none => failWith EINVAL
      | some path =>
          if dirfd < 0 ∧ dirfd ≠ AT_FDCWD then failWith EINVAL
          else if args.flags ≠ 0 then failWith EINVAL
          else enterDirect dirfd args ringSubmitOpenat fun q =>
            { q with opMeta := .openAt path openFlags mode }
  | .close fd =>
      if fd < 0 then failWith EINVAL
      else if args.flags ≠ 0 then failWith EINVAL
      else enterDirect fd args ringSubmitClose id
  | .statx dirfd pathname statxFlags mask statxbuf =>
      match pathname, statxbuf with
      | some path, some sbuf =>
          if dirfd < 0 ∧ dirfd ≠ AT_FDCWD then failWith EINVAL
          else if args.flags ≠ 0 then failWith EINVAL
          else enterDirect dirfd args ringSubmitStatx fun q =>
            { q with opMeta := .statx path sbuf statxFlags mask }
      | _, _ => failWith EINVAL
  | .fallocate fd mode offset len =>
      if fd < 0 ∨ offset < 0 ∨ len ≤ 0 then failWith EINVAL
      else if args.invalid then failWith EINVAL
      else enterFile fd args ringSubmitFallocate fun q =>
        { q with offset, len := len.toNat, opMeta := .fallocate mode }
  | .ftruncate fd length =>
      if fd < 0 ∨ length < 0 then failWith EINVAL
      else if args.invalid then failWith EINVAL
      else enterFile fd args (ringSubmitFtruncate env.ftruncateSupported) fun q =>
        { q with len := length.toNat }
  | .syncFileRange fd offset nbytes rangeFlags =>
      if fd < 0 ∨ offset < 0 ∨ nbytes < 0 then failWith EINVAL
      else if args.invalid then failWith EINVAL
      else enterFile fd args ringSubmitSyncFileRange fun q =>
        { q with offset, len := nbytes.toNat, opMeta := .syncRange rangeFlags }

/-! ## Every call has the normal form -/

section

variable (env : Env) (cb : Callback) (args : SubmitArgs)

/-- Both branches of a choice have a normal form. -/
theorem ite_runEntry {c : Prop} [Decidable c] {p q : AuraM (Option ReqPtr)}
    {p' q' : AuraM (Option Entry)} (hp : p = p' >>= runEntry env cb)
    (hq : q = q' >>= runEntry env cb) :
    (if c then p else q) = (if c then p' else q') >>= runEntry env cb := by
  split
  · exact hp
  · exact hq

theorem failWith_runEntry (e : ℤ) : failWith e = failWith e >>= runEntry env cb := rfl

theorem submitFileResolvedOp_eq (fd : ℤ) (f : RingSubmitFn) (setup : Request → Request) :
    submitFileResolvedOp env cb fd args f setup =
      enterFile fd args f setup >>= runEntry env cb := by
  rw [submitFileResolvedOp, enterFile, bind_assoc]
  refine congrArg _ (funext fun g => ?_)
  cases g with
  | none => rfl
  | some g => rfl

theorem submitDirectOp_eq (fd : ℤ) (f : RingSubmitFn) (setup : Request → Request) :
    submitDirectOp env cb fd args f setup = enterDirect fd args f setup >>= runEntry env cb := by
  rw [submitDirectOp, enterDirect, pure_bind, runEntry, Entry.run]
  refine congrArg _ (funext fun ctx => ?_)
  cases ctx with
  | none => rfl
  | some ctx => exact (bind_pure _).symm

/-- The submission of a registered buffer, once its file is known. -/
theorem submitOn_bufferEntry (ctx : SubmitCtx) (fd : ℤ) (iov : Iovec) (index : ℤ)
    (bufOffset len : ℕ) (offset : ℤ) (f : RingSubmitFn) (st : Bool) (w : World) :
    (bufferEntry fd iov index bufOffset len offset args f st).submitOn env ctx w =
      submitRegisteredBufferOn env ctx
        ((bufferEntry fd iov index bufOffset len offset args f st).fill w.engine) f w := rfl

theorem submitRegisteredBufferIo_eq (fd index : ℤ) (bufOffset len : ℕ) (offset : ℤ)
    (f : RingSubmitFn) :
    (do
      match ← validateRegisteredBuffer index bufOffset len with
      | none => pure none
      | some iov => submitRegisteredBufferIo env cb fd iov index bufOffset len offset args f) =
      enterBuffer fd index bufOffset len offset args f >>= runEntry env cb := by
  rw [enterBuffer, bind_assoc]
  refine congrArg _ (funext fun iov => ?_)
  cases iov with
  | none => rfl
  | some iov =>
      change submitRegisteredBufferIo env cb fd iov index bufOffset len offset args f = _
      rw [submitRegisteredBufferIo, bind_assoc]
      refine congrArg _ (funext fun st => ?_)
      rw [pure_bind, runEntry, Entry.run]
      refine congrArg (submitBegin env cb false >>= ·) (funext fun ctx => ?_)
      cases ctx with
      | none => rfl
      | some ctx =>
          have hon := fun w =>
            submitOn_bufferEntry env args ctx fd iov index bufOffset len offset f st w
          funext w
          cases hfixed : args.fixedFile with
          | false =>
              have hfinish :
                  (bufferEntry fd iov index bufOffset len offset args f st).finish env ctx =
                  (bufferEntry fd iov index bufOffset len offset args f st).submitOn env ctx := by
                simp [Entry.finish, bufferEntry, hfixed]
              simp only [hfinish, Prog.bind_apply, Prog.read_apply, Outcome.bind_ret, hon,
                Bool.false_eq_true, if_false]
              simp only [bufferEntry, hfixed, Bool.false_eq_true, if_false]
              rfl
          | true =>
              have hfinish :
                  (bufferEntry fd iov index bufOffset len offset args f st).finish env ctx =
                  (do
                    if ← validateFixedFile fd then
                      (bufferEntry fd iov index bufOffset len offset args f st).submitOn env ctx
                    else pure none) := by
                simp [Entry.finish, bufferEntry, hfixed]
              simp only [hfinish, Prog.bind_apply, Prog.read_apply, Outcome.bind_ret, if_true]
              cases hok : validateFixedFile fd w with
              | hang w' => rfl
              | ret ok w' =>
                  simp only [Outcome.bind_ret]
                  cases ok with
                  | false => rfl
                  | true =>
                      simp only [if_true, Prog.bind_apply, hon]
                      simp only [bufferEntry, hfixed, if_true]
                      rfl

theorem submitIoGeneric_eq (fd : ℤ) (buf : Buf) (len : ℕ) (offset : ℤ) (unreg reg : RingSubmitFn) :
    submitIoGeneric env cb fd buf len offset args unreg reg =
      enterIo fd buf len offset args unreg reg >>= runEntry env cb := by
  refine ite_runEntry env cb (failWith_runEntry env cb _)
    (ite_runEntry env cb (failWith_runEntry env cb _) ?_)
  rcases buf with (_ | ptr) | ⟨index, bufOffset⟩ | _
  · rfl
  · exact submitFileResolvedOp_eq env cb args fd unreg _
  · exact submitRegisteredBufferIo_eq env cb args fd index bufOffset len offset reg
  · rfl

theorem submitVectored_eq (fd : ℤ) (iov : Option ℕ) (iovcnt offset : ℤ) (f : RingSubmitFn) :
    submitVectored env cb fd iov iovcnt offset args f =
      enterVectored fd iov iovcnt offset args f >>= runEntry env cb :=
  ite_runEntry env cb (failWith_runEntry env cb _)
    (ite_runEntry env cb (failWith_runEntry env cb _)
      (submitFileResolvedOp_eq env cb args fd f _))

/-- **Every submission call enters `submit_begin` with an entry, or fails before it.** -/
theorem submitCall_eq (call : SubmitCall) :
    submitCall env cb args call = call.enter env args >>= runEntry env cb := by
  cases call with
  | read fd buf len offset => exact submitIoGeneric_eq env cb args fd buf len offset _ _
  | write fd buf len offset => exact submitIoGeneric_eq env cb args fd buf len offset _ _
  | readv fd iov iovcnt offset => exact submitVectored_eq env cb args fd iov iovcnt offset _
  | writev fd iov iovcnt offset => exact submitVectored_eq env cb args fd iov iovcnt offset _
  | fsync fd fsyncFlags =>
      exact ite_runEntry env cb rfl (ite_runEntry env cb rfl
        (ite_runEntry env cb rfl (submitFileResolvedOp_eq env cb args fd _ _)))
  | openat dirfd pathname openFlags mode =>
      cases pathname with
      | none => rfl
      | some path =>
          exact ite_runEntry env cb rfl
            (ite_runEntry env cb rfl (submitDirectOp_eq env cb args dirfd _ _))
  | close fd =>
      exact ite_runEntry env cb rfl
        (ite_runEntry env cb rfl (submitDirectOp_eq env cb args fd _ _))
  | statx dirfd pathname statxFlags mask statxbuf =>
      cases pathname with
      | none => rfl
      | some path =>
          cases statxbuf with
          | none => rfl
          | some sbuf =>
              exact ite_runEntry env cb rfl
                (ite_runEntry env cb rfl (submitDirectOp_eq env cb args dirfd _ _))
  | fallocate fd mode offset len =>
      exact ite_runEntry env cb rfl
        (ite_runEntry env cb rfl (submitFileResolvedOp_eq env cb args fd _ _))
  | ftruncate fd length =>
      exact ite_runEntry env cb rfl
        (ite_runEntry env cb rfl (submitFileResolvedOp_eq env cb args fd _ _))
  | syncFileRange fd offset nbytes rangeFlags =>
      exact ite_runEntry env cb rfl
        (ite_runEntry env cb rfl (submitFileResolvedOp_eq env cb args fd _ _))

end

/-! ## What happens before `submit_begin` -/

/-- The world with another `errno`. -/
def World.withErrno (w : World) (e : ℤ) : World := { w with tls := { w.tls with errno := e } }

/-- The world with the reader's count of the registration lock raised, if `locked`. -/
def World.withReader (w : World) (locked : Bool) : World :=
  { w with engine := { w.engine with regReaders := w.engine.regReaders + locked.toNat } }

@[simp] theorem World.withReader_false (w : World) : w.withReader false = w := rfl

/-- The entry's submission function prepares entries, and it leaves the bookkeeping of the slot
alone. -/
structure Entry.Valid (e : Entry) : Prop where
  submits : e.submit.Submits
  fill : ∀ (eng : Engine) (r : RingCtx) (q : Request), q.SameSlot (e.fill eng r q)

/-- A program that ends before `submit_begin` only sets `errno`; one that reaches it may have taken
the registration lock, and no more. -/
def Enters (p : AuraM (Option Entry)) : Prop :=
  ∀ w o w', p w = .ret o w' →
    match o with
    | none => ∃ err, w' = w.withErrno err
    | some e => e.Valid ∧ w' = w.withReader e.locked

section

variable {w w' : World}

theorem regRdlock_eq_ret {u : Unit} (h : regRdlock w = .ret u w') : w' = w.withReader true := by
  unfold regRdlock at h
  rw [Prog.await_apply] at h
  split at h
  · cases h
  · next hsome =>
      split at hsome
      · cases hsome
      · obtain ⟨-, rfl⟩ := Outcome.ret.inj h
        cases hsome
        rfl

/-- Taking and releasing the registration lock changes nothing. -/
theorem regRdunlock_withReader (locked : Bool) :
    Prog.when locked regRdunlock (w.withReader locked) = .ret () w := by
  cases locked with
  | false => rfl
  | true => simp [regRdunlock, onEngine, World.withReader]

theorem when_regRdlock_eq_ret {c : Bool} {u : Unit} (h : Prog.when c regRdlock w = .ret u w') :
    w' = w.withReader c := by
  cases c with
  | false =>
      cases h
      rfl
  | true => exact regRdlock_eq_ret h

theorem resolveFileBegin_eq_ret {fd : ℤ} {g : FileGuard}
    (h : resolveFileBegin fd w = .ret g w') : w' = w.withReader g.locked := by
  unfold resolveFileBegin at h
  simp only [Prog.bind_apply, Prog.read_apply, Outcome.bind_ret, Prog.ite_apply] at h
  split at h
  · obtain ⟨u, w₁, hlock, h⟩ := Outcome.bind_eq_ret.mp h
    rw [when_regRdlock_eq_ret hlock] at h
    cases hfile : (w.withReader !w.engine.singleThread).engine.resolveRegisteredFile fd with
    | some i =>
        rw [hfile] at h
        obtain ⟨rfl, rfl⟩ := Outcome.ret.inj h
        rfl
    | none =>
        rw [hfile] at h
        change (Prog.when (!w.engine.singleThread) regRdunlock (w.withReader _)).bind _ = _ at h
        rw [regRdunlock_withReader] at h
        obtain ⟨rfl, rfl⟩ := Outcome.ret.inj h
        rfl
  · obtain ⟨rfl, rfl⟩ := Outcome.ret.inj h
    rfl

theorem failWith_enters (e : ℤ) : Enters (failWith e) := by
  intro w o w' h
  obtain ⟨rfl, rfl⟩ := Outcome.ret.inj h
  exact ⟨e, rfl⟩

theorem Enters.ite {c : Prop} [Decidable c] {p q : AuraM (Option Entry)} (hp : Enters p)
    (hq : Enters q) : Enters (if c then p else q) := by
  split
  · exact hp
  · exact hq

theorem validateFixedFile_eq_ret {index : ℤ} {ok : Bool}
    (h : validateFixedFile index w = .ret ok w') :
    ok = w.engine.fixedFileValid index ∧ w' = if ok then w else w.withErrno EINVAL := by
  unfold validateFixedFile at h
  simp only [Prog.bind_apply, Prog.read_apply, Outcome.bind_ret, Prog.ite_apply] at h
  split at h
  · next hvalid =>
      obtain ⟨rfl, rfl⟩ := Outcome.ret.inj h
      exact ⟨hvalid.symm, rfl⟩
  · next hvalid =>
      obtain ⟨rfl, rfl⟩ := Outcome.ret.inj h
      exact ⟨by simpa using hvalid, rfl⟩

theorem enterFile_enters (fd : ℤ) (args : SubmitArgs) {f : RingSubmitFn} (hf : f.Submits)
    {setup : Request → Request} (hsetup : ∀ q : Request, q.SameSlot (setup q)) :
    Enters (enterFile fd args f setup) := by
  have hfill : ∀ (g : FileGuard) (r : RingCtx) (q : Request), q.SameSlot
      (setup (q.common g.submitFd fd args r.ringIdx g.usesRegisteredFile)) := fun g r q =>
    hsetup (q.common g.submitFd fd args r.ringIdx g.usesRegisteredFile)
  intro w o w' h
  obtain ⟨g, w₁, hg, h⟩ := bind_eq_ret.mp h
  unfold resolveFile at hg
  rw [Prog.ite_apply] at hg
  split at hg
  · obtain ⟨ok, w₂, hok, hg⟩ := bind_eq_ret.mp hg
    obtain ⟨-, rfl⟩ := validateFixedFile_eq_ret hok
    cases ok with
    | false =>
        obtain ⟨rfl, rfl⟩ := Outcome.ret.inj hg
        obtain ⟨rfl, rfl⟩ := Outcome.ret.inj h
        exact ⟨EINVAL, rfl⟩
    | true =>
        obtain ⟨rfl, rfl⟩ := Outcome.ret.inj hg
        obtain ⟨rfl, rfl⟩ := Outcome.ret.inj h
        exact ⟨⟨hf, fun _ => hfill _⟩, rfl⟩
  · obtain ⟨g', w₂, hg', hg⟩ := bind_eq_ret.mp hg
    have hlock := resolveFileBegin_eq_ret hg'
    obtain ⟨rfl, rfl⟩ := Outcome.ret.inj hg
    obtain ⟨rfl, rfl⟩ := Outcome.ret.inj h
    exact ⟨⟨hf, fun _ => hfill _⟩, hlock⟩

theorem enterDirect_enters (fd : ℤ) (args : SubmitArgs) {f : RingSubmitFn} (hf : f.Submits)
    {setup : Request → Request} (hsetup : ∀ q : Request, q.SameSlot (setup q)) :
    Enters (enterDirect fd args f setup) := by
  intro w o w' h
  obtain ⟨rfl, rfl⟩ := Outcome.ret.inj h
  exact ⟨⟨hf, fun _ r q => hsetup (q.common fd fd args r.ringIdx false)⟩, rfl⟩

theorem enterBuffer_enters (fd index : ℤ) (bufOffset len : ℕ) (offset : ℤ) (args : SubmitArgs)
    {f : RingSubmitFn} (hf : f.Submits) :
    Enters (enterBuffer fd index bufOffset len offset args f) := by
  intro w o w' h
  obtain ⟨iov, w₁, hiov, h⟩ := bind_eq_ret.mp h
  unfold validateRegisteredBuffer at hiov
  simp only [Prog.bind_apply, Prog.read_apply, Outcome.bind_ret] at hiov
  obtain ⟨u, w₂, hlock, hiov⟩ := Outcome.bind_eq_ret.mp hiov
  rw [when_regRdlock_eq_ret hlock] at hiov
  cases herr : (w.withReader !w.engine.singleThread).engine.bufferError index bufOffset len with
  | error e =>
      rw [herr] at hiov
      change (Prog.when (!w.engine.singleThread) regRdunlock (w.withReader _)).bind _ = _ at hiov
      rw [regRdunlock_withReader] at hiov
      obtain ⟨rfl, rfl⟩ := Outcome.ret.inj hiov
      obtain ⟨rfl, rfl⟩ := Outcome.ret.inj h
      exact ⟨e, rfl⟩
  | ok iov =>
      rw [herr] at hiov
      obtain ⟨rfl, rfl⟩ := Outcome.ret.inj hiov
      obtain ⟨rfl, rfl⟩ := Outcome.ret.inj h
      refine ⟨⟨hf, fun eng r q => ?_⟩, rfl⟩
      unfold bufferEntry
      dsimp only
      split <;> exact ⟨rfl, rfl, rfl⟩

theorem enterIo_enters (fd : ℤ) (buf : Buf) (len : ℕ) (offset : ℤ) (args : SubmitArgs)
    {unreg reg : RingSubmitFn} (hu : unreg.Submits) (hr : reg.Submits) :
    Enters (enterIo fd buf len offset args unreg reg) := by
  refine .ite (failWith_enters _) (.ite (failWith_enters _) ?_)
  rcases buf with (_ | ptr) | ⟨index, bufOffset⟩ | _
  · exact failWith_enters _
  · exact enterFile_enters fd args hu fun _ => by exact ⟨rfl, rfl, rfl⟩
  · exact enterBuffer_enters fd index bufOffset len offset args hr
  · exact failWith_enters _

theorem enterVectored_enters (fd : ℤ) (iov : Option ℕ) (iovcnt offset : ℤ) (args : SubmitArgs)
    {f : RingSubmitFn} (hf : f.Submits) :
    Enters (enterVectored fd iov iovcnt offset args f) :=
  .ite (failWith_enters _) (.ite (failWith_enters _)
    (enterFile_enters fd args hf fun _ => by exact ⟨rfl, rfl, rfl⟩))

/-- **Before `submit_begin` a call at most takes the registration lock.** -/
theorem SubmitCall.enter_enters (env : Env) (args : SubmitArgs) (call : SubmitCall) :
    Enters (call.enter env args) := by
  cases call with
  | read => exact enterIo_enters _ _ _ _ _ (submits_buffer _) (submits_buffer _)
  | write => exact enterIo_enters _ _ _ _ _ (submits_buffer _) (submits_buffer _)
  | readv => exact enterVectored_enters _ _ _ _ _ (submits_vectored _)
  | writev => exact enterVectored_enters _ _ _ _ _ (submits_vectored _)
  | fsync fd fsyncFlags =>
      refine .ite (failWith_enters _) (.ite (failWith_enters _) (.ite (failWith_enters _) ?_))
      refine enterFile_enters fd args ?_ fun _ => by exact ⟨rfl, rfl, rfl⟩
      split
      · exact submits_meta _ _
      · exact submits_meta _ _
  | openat dirfd pathname openFlags mode =>
      cases pathname with
      | none => exact failWith_enters _
      | some path =>
          exact .ite (failWith_enters _) (.ite (failWith_enters _)
            (enterDirect_enters _ _ (submits_meta _ _) fun _ => by exact ⟨rfl, rfl, rfl⟩))
  | close fd =>
      exact .ite (failWith_enters _) (.ite (failWith_enters _)
        (enterDirect_enters _ _ (submits_meta _ _) fun _ => by exact ⟨rfl, rfl, rfl⟩))
  | statx dirfd pathname statxFlags mask statxbuf =>
      cases pathname with
      | none => exact failWith_enters _
      | some path =>
          cases statxbuf with
          | none => exact failWith_enters _
          | some sbuf =>
              exact .ite (failWith_enters _) (.ite (failWith_enters _)
                (enterDirect_enters _ _ (submits_meta _ _) fun _ => by exact ⟨rfl, rfl, rfl⟩))
  | fallocate =>
      exact .ite (failWith_enters _) (.ite (failWith_enters _)
        (enterFile_enters _ _ submits_fallocate fun _ => by exact ⟨rfl, rfl, rfl⟩))
  | ftruncate =>
      exact .ite (failWith_enters _) (.ite (failWith_enters _)
        (enterFile_enters _ _ (submits_ftruncate _) fun _ => by exact ⟨rfl, rfl, rfl⟩))
  | syncFileRange =>
      exact .ite (failWith_enters _) (.ite (failWith_enters _)
        (enterFile_enters _ _ submits_syncFileRange fun _ => by exact ⟨rfl, rfl, rfl⟩))

end

/-- The world with its current state marked. -/
def World.marked (w : World) : World := { w with mark := (w.engine, w.tls) }

/-- **A submission call that returns** failed before `submit_begin`, or ran an entry. -/
theorem auraSubmit_eq_ret {env : Env} {cb : Callback} {call : SubmitCall} {args : SubmitArgs}
    {w w' : World} {o : Option ReqPtr} (h : auraSubmit env cb call args w = .ret o w') :
    (o = none ∧ ∃ err, w' = w.marked.withErrno err) ∨
      ∃ e : Entry, e.Valid ∧ e.run env cb (w.marked.withReader e.locked) = .ret o w' := by
  change submitCall env cb args call w.marked = _ at h
  rw [submitCall_eq] at h
  obtain ⟨e, w₁, henter, h⟩ := bind_eq_ret.mp h
  have hw₁ := call.enter_enters env args _ _ _ henter
  cases e with
  | none =>
      obtain ⟨rfl, rfl⟩ := Outcome.ret.inj h
      exact .inl ⟨rfl, hw₁⟩
  | some e =>
      obtain ⟨hvalid, rfl⟩ := hw₁
      exact .inr ⟨e, hvalid, h⟩

end Aura
