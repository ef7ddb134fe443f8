import Aura.Engine.Booking

/-!
# Submissions and the books

What a submission call does to the books of the rings, as long as no callback runs inside it.

* `Entry.Sound` — what a call without `AURA_FIXED_FILE` has settled about tables when it reaches
  `submit_begin` (`SubmitCall.enter_sound`).
* `World.Enlists` — the books are kept, and a request is added only to usable tables.
* **`auraSubmit_books`** — a submission call keeps the books, and adds at most its own request.
* `auraCancel_books`, `auraRequestSetLinked_books` — cancels and links keep them as well.
-/

namespace Aura

open Lib Lib.Prog

open World (SameBooks Settles)

variable {env : Env} {cb : Callback} {w w' w'' : World}

/-! ## What a call has settled about tables -/

/-- Is the table registered? -/
def Engine.isRegistered (e : Engine) : RegType → Bool
  | .buffers => e.buffersRegistered
  | .files => e.filesRegistered

/-- Is its unregistration pending? -/
def Engine.isUnregPending (e : Engine) : RegType → Bool
  | .buffers => e.buffersUnregPending
  | .files => e.filesUnregPending

/-- New operations may use the table. -/
def Engine.Usable (e : Engine) (type : RegType) : Prop :=
  e.isRegistered type = true ∧ e.isUnregPending type = false

theorem Engine.usable_congr {e e' : Engine} (h : e'.registration = e.registration)
    (type : RegType) : e'.Usable type ↔ e.Usable type := by
  simp only [Engine.registration, Prod.mk.injEq] at h
  obtain ⟨h₁, h₂, h₃, h₄, -⟩ := h
  cases type <;> simp [Engine.Usable, isRegistered, isUnregPending, h₁, h₂, h₃, h₄]

/-- The entry has no fixed-file index to check, and its request uses only usable tables. -/
structure Entry.Sound (e : Entry) (eng : Engine) : Prop where
  late : e.lateIndex = none
  buffer : ∀ eng' r q, eng'.registration = eng.registration →
    (e.fill eng' r q).usesRegisteredBuffer = (q.usesRegisteredBuffer || e.usesBuffer)
  usable : ∀ eng' r q, eng'.registration = eng.registration → (∀ type, q.uses type = false) →
    ∀ type, (e.fill eng' r q).uses type = true → eng.Usable type

theorem Entry.Sound.congr {e : Entry} {eng eng' : Engine} (h : e.Sound eng)
    (heng : eng'.registration = eng.registration) : e.Sound eng' where
  late := h.late
  buffer eng'' r q hreg := h.buffer eng'' r q (hreg.trans heng)
  usable eng'' r q hreg hnone type huse :=
    (Engine.usable_congr heng type).2 (h.usable eng'' r q (hreg.trans heng) hnone type huse)

/-- A call reaches `submit_begin` with a sound entry. -/
def EntersSound (p : AuraM (Option Entry)) : Prop :=
  ∀ w e w', p w = .ret (some e) w' → e.Sound w.engine

theorem EntersSound.ite {c : Prop} [Decidable c] {p q : AuraM (Option Entry)} (hp : EntersSound p)
    (hq : EntersSound q) : EntersSound (if c then p else q) := by
  split
  · exact hp
  · exact hq

theorem failWith_sound (e : ℤ) : EntersSound (failWith e) := by
  intro w o w' h
  obtain ⟨hfalse, -⟩ := Outcome.ret.inj h
  cases hfalse

/-- A change of the request that leaves the tables it uses alone. -/
def KeepsUses (setup : Request → Request) : Prop :=
  ∀ q, (setup q).usesRegisteredBuffer = q.usesRegisteredBuffer ∧
    (setup q).usesRegisteredFile = q.usesRegisteredFile

/-- A file that was found in the table was found in a usable one. -/
theorem Engine.resolveRegisteredFile_usable {e : Engine} {fd : ℤ} {i : ℕ}
    (h : e.resolveRegisteredFile fd = some i) : e.Usable .files := by
  unfold Engine.resolveRegisteredFile at h
  split_ifs at h with hclosed
  simp only [Bool.or_eq_true, Bool.not_eq_true', not_or, Bool.not_eq_false,
    Bool.not_eq_true] at hclosed
  exact hclosed

theorem resolveFileBegin_usable {fd : ℤ} {g : FileGuard} (h : resolveFileBegin fd w = .ret g w')
    (huses : g.usesRegisteredFile = true) : w.engine.Usable .files := by
  unfold resolveFileBegin at h
  simp only [Prog.bind_apply, Prog.read_apply, Outcome.bind_ret, Prog.ite_apply] at h
  split at h
  · obtain ⟨u, w₁, hlock, h⟩ := Outcome.bind_eq_ret.mp h
    rw [when_regRdlock_eq_ret hlock] at h
    cases hfile : (w.withReader !w.engine.singleThread).engine.resolveRegisteredFile fd with
    | some i => exact Engine.resolveRegisteredFile_usable hfile
    | none =>
        rw [hfile] at h
        obtain ⟨_, _, -, h⟩ := Outcome.bind_eq_ret.mp h
        obtain ⟨rfl, -⟩ := Outcome.ret.inj h
        cases huses
  · obtain ⟨rfl, -⟩ := Outcome.ret.inj h
    cases huses

theorem enterFile_sound (fd : ℤ) {args : SubmitArgs} (hfixed : args.fixedFile = false)
    (f : RingSubmitFn) {setup : Request → Request} (hsetup : KeepsUses setup) :
    EntersSound (enterFile fd args f setup) := by
  intro w e w' h
  obtain ⟨g, w₁, hg, h⟩ := bind_eq_ret.mp h
  rw [resolveFile, hfixed] at hg
  obtain ⟨g', w₂, hbegin, hg⟩ := bind_eq_ret.mp hg
  obtain ⟨rfl, rfl⟩ := Outcome.ret.inj hg
  obtain ⟨he, -⟩ := Outcome.ret.inj h
  cases he
  refine ⟨rfl, fun eng' r q _ => ?_, fun eng' r q _ hq type huse => ?_⟩
  · rw [(hsetup _).1, Bool.or_false]
    rfl
  · cases type with
    | buffers =>
        have hsame := (hsetup (q.common g'.submitFd fd args r.ringIdx g'.usesRegisteredFile)).1
        exact absurd ((hsame.symm.trans huse).symm.trans (hq .buffers)) (by simp)
    | files =>
        have hsame := (hsetup (q.common g'.submitFd fd args r.ringIdx g'.usesRegisteredFile)).2
        exact resolveFileBegin_usable hbegin (hsame.symm.trans huse)

theorem enterDirect_sound (fd : ℤ) (args : SubmitArgs) (f : RingSubmitFn)
    {setup : Request → Request} (hsetup : KeepsUses setup) :
    EntersSound (enterDirect fd args f setup) := by
  intro w e w' h
  obtain ⟨he, -⟩ := Outcome.ret.inj h
  cases he
  refine ⟨rfl, fun eng' r q _ => ?_, fun eng' r q _ hq type huse => ?_⟩
  · rw [(hsetup _).1, Bool.or_false]
    rfl
  · have hnone : ∀ type, (setup (q.common fd fd args r.ringIdx false)).uses type = false := by
      intro type
      cases type with
      | buffers => exact (hsetup _).1.trans (hq .buffers)
      | files => exact (hsetup _).2
    exact absurd ((hnone type).symm.trans huse) Bool.false_ne_true

/-- A range that `validate_registered_buffer` accepts lies in a usable table. -/
theorem Engine.bufferError_usable {e : Engine} {index : ℤ} {offset len : ℕ} {iov : Iovec}
    (h : e.bufferError index offset len = .ok iov) : e.Usable .buffers := by
  unfold Engine.bufferError at h
  split_ifs at h with hreg hpend
  simp only [Bool.not_eq_true', Bool.not_eq_false] at hreg
  exact ⟨hreg, Bool.eq_false_of_not_eq_true hpend⟩

theorem enterBuffer_sound (fd index : ℤ) (bufOffset len : ℕ) (offset : ℤ) {args : SubmitArgs}
    (hfixed : args.fixedFile = false) (f : RingSubmitFn) :
    EntersSound (enterBuffer fd index bufOffset len offset args f) := by
  intro w e w' h
  obtain ⟨iov, w₁, hiov, h⟩ := bind_eq_ret.mp h
  unfold validateRegisteredBuffer at hiov
  simp only [Prog.bind_apply, Prog.read_apply, Outcome.bind_ret] at hiov
  obtain ⟨u, w₂, hlock, hiov⟩ := Outcome.bind_eq_ret.mp hiov
  rw [when_regRdlock_eq_ret hlock] at hiov
  cases herr : (w.withReader !w.engine.singleThread).engine.bufferError index bufOffset len with
  | error err =>
      rw [herr] at hiov
      obtain ⟨_, _, -, hiov⟩ := Outcome.bind_eq_ret.mp hiov
      obtain ⟨rfl, rfl⟩ := Outcome.ret.inj hiov
      obtain ⟨hfalse, -⟩ := Outcome.ret.inj h
      cases hfalse
  | ok iov =>
      rw [herr] at hiov
      obtain ⟨rfl, rfl⟩ := Outcome.ret.inj hiov
      obtain ⟨he, -⟩ := Outcome.ret.inj h
      cases he
      have husable : w.engine.Usable .buffers := Engine.bufferError_usable herr
      refine ⟨by simp [bufferEntry, hfixed], fun eng' r q _ => ?_, fun eng' r q heng _ type => ?_⟩
      · simp [bufferEntry, hfixed, fillBuffer]
      · cases type with
        | buffers => exact fun _ => husable
        | files =>
            intro huse
            have hsome : (eng'.resolveRegisteredFile fd).isSome = true := by
              simpa [bufferEntry, hfixed, fillBuffer, Request.common, Request.uses] using huse
            obtain ⟨i, hi⟩ := Option.isSome_iff_exists.1 hsome
            exact (Engine.usable_congr heng .files).1 (Engine.resolveRegisteredFile_usable hi)

theorem enterIo_sound (fd : ℤ) (buf : Buf) (len : ℕ) (offset : ℤ) {args : SubmitArgs}
    (hfixed : args.fixedFile = false) (unreg reg : RingSubmitFn) :
    EntersSound (enterIo fd buf len offset args unreg reg) := by
  refine .ite (failWith_sound _) (.ite (failWith_sound _) ?_)
  rcases buf with (_ | ptr) | ⟨index, bufOffset⟩ | _
  · exact failWith_sound _
  · exact enterFile_sound fd hfixed unreg fun _ => ⟨rfl, rfl⟩
  · exact enterBuffer_sound fd index bufOffset len offset hfixed reg
  · exact failWith_sound _

theorem enterVectored_sound (fd : ℤ) (iov : Option ℕ) (iovcnt offset : ℤ) {args : SubmitArgs}
    (hfixed : args.fixedFile = false) (f : RingSubmitFn) :
    EntersSound (enterVectored fd iov iovcnt offset args f) :=
  .ite (failWith_sound _) (.ite (failWith_sound _)
    (enterFile_sound fd hfixed f fun _ => ⟨rfl, rfl⟩))

/-- **A call without `AURA_FIXED_FILE` uses only usable tables.** -/
theorem SubmitCall.enter_sound (env : Env) {args : SubmitArgs} (hfixed : args.fixedFile = false)
    (call : SubmitCall) : EntersSound (call.enter env args) := by
  cases call with
  | read => exact enterIo_sound _ _ _ _ hfixed _ _
  | write => exact enterIo_sound _ _ _ _ hfixed _ _
  | readv => exact enterVectored_sound _ _ _ _ hfixed _
  | writev => exact enterVectored_sound _ _ _ _ hfixed _
  | fsync =>
      exact .ite (failWith_sound _) (.ite (failWith_sound _) (.ite (failWith_sound _)
        (enterFile_sound _ hfixed _ fun _ => ⟨rfl, rfl⟩)))
  | openat dirfd pathname openFlags mode =>
      cases pathname with
      | none => exact failWith_sound _
      | some path =>
          exact .ite (failWith_sound _) (.ite (failWith_sound _)
            (enterDirect_sound _ _ _ fun _ => ⟨rfl, rfl⟩))
  | close =>
      exact .ite (failWith_sound _) (.ite (failWith_sound _)
        (enterDirect_sound _ _ _ fun _ => ⟨rfl, rfl⟩))
  | statx dirfd pathname statxFlags mask statxbuf =>
      cases pathname with
      | none => exact failWith_sound _
      | some path =>
          cases statxbuf with
          | none => exact failWith_sound _
          | some sbuf =>
              exact .ite (failWith_sound _) (.ite (failWith_sound _)
                (enterDirect_sound _ _ _ fun _ => ⟨rfl, rfl⟩))
  | fallocate =>
      exact .ite (failWith_sound _) (.ite (failWith_sound _)
        (enterFile_sound _ hfixed _ fun _ => ⟨rfl, rfl⟩))
  | ftruncate =>
      exact .ite (failWith_sound _) (.ite (failWith_sound _)
        (enterFile_sound _ hfixed _ fun _ => ⟨rfl, rfl⟩))
  | syncFileRange =>
      exact .ite (failWith_sound _) (.ite (failWith_sound _)
        (enterFile_sound _ hfixed _ fun _ => ⟨rfl, rfl⟩))

/-! ## From the slot to the end -/

theorem clearLink_sameBooks : Keeps SameBooks clearLink := onTls_sameBooks _

theorem rememberLastRing_sameBooks (i : ℕ) : Keeps SameBooks (rememberLastRing i) :=
  fun w => .of_tls w _

theorem submitEndChain_sameBooks (ctx : SubmitCtx) : Keeps SameBooks (submitEndChain env ctx) := by
  have h := quietly_sameBooks
  refine h.bind (h.ite (ringLock_sameBooks _) (h.pure _)) fun st => ?_
  refine h.bind (ringFlushLatching_sameBooks _) fun _ => ?_
  exact h.andThen clearLink_sameBooks (h.andThen (onTls_sameBooks _) (ringUnlock_sameBooks _ st))

/-- A submitted request that uses a registered file is counted. -/
def RingCtx.countFile (r : RingCtx) (q : Request) : RingCtx :=
  if q.usesRegisteredFile then { r with fixedFileInflight := r.fixedFileInflight + 1 } else r

/-- `submit_end` counts the request, and leaves the books alone otherwise. -/
theorem submitEnd_sameBooks {ctx : SubmitCtx} {u : Unit} (h : submitEnd env ctx w = .ret u w') :
    (w.setRing ctx.ring
      ((w.ring ctx.ring).countFile ((w.ring ctx.ring).requests ctx.opIdx))).SameBooks w' := by
  have hsame := quietly_sameBooks
  obtain ⟨q, w₁, hread, h⟩ := bind_eq_ret.mp h
  obtain ⟨rfl, rfl⟩ := Outcome.ret.inj hread
  obtain ⟨_, w₁, hcount, h⟩ := bind_eq_ret.mp h
  have hw₁ : w₁ = w.setRing ctx.ring
      ((w.ring ctx.ring).countFile ((w.ring ctx.ring).requests ctx.opIdx)) := by
    unfold RingCtx.countFile
    cases hfile : ((w.ring ctx.ring).requests ctx.opIdx).usesRegisteredFile with
    | false =>
        rw [hfile] at hcount
        obtain ⟨-, rfl⟩ := Outcome.ret.inj hcount
        simp
    | true =>
        rw [hfile] at hcount
        obtain ⟨-, rfl⟩ := Outcome.ret.inj hcount
        rfl
  rw [← hw₁]
  refine Keeps.ensures (hsame.bind (hsame.read _) fun w₂ => ?_) _ _ _ h
  refine hsame.andThen (rememberLastRing_sameBooks _) (hsame.ite ?_ (hsame.ite ?_ ?_))
  · exact hsame.bind (hsame.read _) fun _ => hsame.when
      (hsame.bind (ringFlushFast_sameBooks _) fun _ => hsame.pure _)
  · exact submitEndChain_sameBooks ctx
  · refine hsame.bind (hsame.read _) fun _ => hsame.andThen (hsame.when ?_)
      (ringUnlock_sameBooks _ _)
    exact hsame.bind (ringFlushLatching_sameBooks _) fun _ => hsame.pure _

/-- `submit_abort` puts the slot back. -/
theorem submitAbort_sameBooks {ctx : SubmitCtx} {u : Unit}
    (h : submitAbort env ctx w = .ret u w') :
    (w.setRing ctx.ring (ringPutRequest (w.ring ctx.ring) ctx.opIdx)).SameBooks w' := by
  have hsame := quietly_sameBooks
  obtain ⟨w₁, hflush, rfl⟩ := submitAbort_eq_ret h
  have habandon : Keeps SameBooks (do
      let _ ← ringFlush env .abort ctx.ring
      clearLink) :=
    hsame.andThen (hsame.ringFlush (ioUringSubmit_sameBooks .abort ctx.ring)) clearLink_sameBooks
  exact ((hsame.when habandon).ensures _ _ _ hflush).trans (.of_setRing (.unlock _ _))

/-- A `ring_submit_*` function that succeeds changes nothing in the books but its ring. -/
theorem submitRequest_sameBooks {f : RingSubmitFn} {ctx : SubmitCtx}
    (h : submitRequest env f ctx w = .ret true w') :
    ∃ now r, f now (w.ring ctx.ring) ctx.opIdx = .ok r ∧ w'.ring ctx.ring = r ∧
      (w.setRing ctx.ring r).SameBooks w' := by
  unfold submitRequest at h
  rw [Prog.bind_apply, Prog.read_apply, Outcome.bind_ret, id] at h
  cases hf : f (env.now w.clock) (w.ring ctx.ring) ctx.opIdx with
  | error err =>
      rw [hf] at h
      obtain ⟨hfalse, -⟩ := Outcome.ret.inj h
      cases hfalse
  | ok r =>
      rw [hf] at h
      obtain ⟨-, rfl⟩ := Outcome.ret.inj h
      refine ⟨_, r, hf, World.setRing_self _ _ _, rfl, rfl, ?_, fun i => .refl _⟩
      simp [World.callbacks, World.setRing, LogEvent.isCallback]

/-- The ring with the request written and its registered buffer counted. -/
def Entry.preparedRing (e : Entry) (ctx : SubmitCtx) (w : World) : RingCtx :=
  let r := (w.ring ctx.ring).setRequest ctx.opIdx
    (e.fill w.engine (w.ring ctx.ring) ((w.ring ctx.ring).requests ctx.opIdx))
  if e.usesBuffer then { r with fixedBufInflight := r.fixedBufInflight + 1 } else r

/-- A submission that succeeded prepared its entry and counted its file. -/
theorem Entry.submitOn_eq_some {e : Entry} {ctx : SubmitCtx} {p : ReqPtr}
    (h : e.submitOn env ctx w = .ret (some p) w') :
    p = (ctx.ring, ctx.opIdx) ∧ ∃ now r, e.submit now (e.preparedRing ctx w) ctx.opIdx = .ok r ∧
      (w.setRing ctx.ring (r.countFile (r.requests ctx.opIdx))).SameBooks w' := by
  obtain ⟨_, w₁, hprep, h⟩ := bind_eq_ret.mp h
  have hw₁ : w₁ = w.setRing ctx.ring (e.preparedRing ctx w) := by
    unfold Entry.prepare at hprep
    unfold Entry.preparedRing
    cases hbuf : e.usesBuffer with
    | false =>
        rw [hbuf] at hprep
        obtain ⟨-, rfl⟩ := Outcome.ret.inj hprep
        rfl
    | true =>
        rw [hbuf] at hprep
        obtain ⟨-, rfl⟩ := Outcome.ret.inj hprep
        simp
  subst hw₁
  obtain ⟨ok, w₂, hsubmit, h⟩ := bind_eq_ret.mp h
  cases ok with
  | false =>
      obtain ⟨_, w₃, -, h⟩ := bind_eq_ret.mp h
      obtain ⟨_, w₄, -, h⟩ := bind_eq_ret.mp h
      cases h
  | true =>
      obtain ⟨_, w₃, hend, h⟩ := bind_eq_ret.mp h
      obtain ⟨hp, rfl⟩ := Outcome.ret.inj h
      obtain ⟨now, r, hf, hring, hbooks⟩ := submitRequest_sameBooks hsubmit
      rw [World.setRing_self] at hf
      rw [World.setRing_setRing] at hbooks
      have hcount := submitEnd_sameBooks hend
      rw [hring] at hcount
      have hstep := hbooks.setRing (i := ctx.ring)
        (RingCtx.SameBooks.refl (r.countFile (r.requests ctx.opIdx)))
      rw [World.setRing_setRing] at hstep
      exact ⟨(Option.some.inj hp).symm, now, r, hf, hstep.trans hcount⟩

/-! ## Submission calls -/

/-- The ring of a submission that succeeds, when its request has been counted. -/
structure Enlisted (eng : Engine) (r r' : RingCtx) (j : ℕ) : Prop where
  max : r'.maxRequests = r.maxRequests
  booked : r'.Booked
  pending : (r'.requests j).pending = true
  usable : ∀ type, (r'.requests j).uses type = true → eng.Usable type
  pendingUses : ∀ type, r'.pendingUses type = r.pendingUses type + (r'.requests j).stake type

section

variable {e : Entry} {eng : Engine} {ctx : SubmitCtx}

theorem enlisted_of_submit (hvalid : e.Valid) (hsound : e.Sound eng)
    (hreg : w.engine.registration = eng.registration) (hfresh : Fresh w ctx)
    (hbooked : (w.ring ctx.ring).Booked) (hheld : (w.ring ctx.ring).Held ctx.opIdx) {now : ℤ}
    {r : RingCtx} (hf : e.submit now (e.preparedRing ctx w) ctx.opIdx = .ok r) :
    Enlisted eng (w.ring ctx.ring) (r.countFile (r.requests ctx.opIdx)) ctx.opIdx := by
  obtain ⟨sqe, op, t, sc, -, -, -, rfl⟩ := hvalid.submits _ _ _ _ hf
  set q := e.fill w.engine (w.ring ctx.ring) ((w.ring ctx.ring).requests ctx.opIdx) with hq
  set q' : Request := { q with opType := op, submitTimeNs := t, pending := true } with hq'
  set r := (e.preparedRing ctx w).prepared ctx.opIdx sqe op t sc with hr
  have hprep : (e.preparedRing ctx w).requests =
      Function.update (w.ring ctx.ring).requests ctx.opIdx q := by
    unfold Entry.preparedRing
    cases e.usesBuffer <;> rfl
  have hreqs : r.requests = Function.update (w.ring ctx.ring).requests ctx.opIdx q' := by
    rw [hr, RingCtx.prepared, RingCtx.setRequest]
    simp [hprep, hq']
  have hself : r.requests ctx.opIdx = q' := by
    rw [hreqs, Function.update_self]
  have hsame : (r.countFile q').requests = r.requests ∧
      (r.countFile q').freeRequestStack = (w.ring ctx.ring).freeRequestStack ∧
      (r.countFile q').maxRequests = (w.ring ctx.ring).maxRequests := by
    unfold RingCtx.countFile
    rw [hr]
    unfold Entry.preparedRing
    cases q'.usesRegisteredFile <;> cases e.usesBuffer <;> exact ⟨rfl, rfl, rfl⟩
  obtain ⟨hrequests, hstack, hmax⟩ := hsame
  have hbuf : q'.uses .buffers = e.usesBuffer := by
    have hfill := hsound.buffer w.engine (w.ring ctx.ring)
      ((w.ring ctx.ring).requests ctx.opIdx) hreg
    have hnone : ((w.ring ctx.ring).requests ctx.opIdx).usesRegisteredBuffer = false :=
      hfresh .buffers
    rw [hnone, Bool.false_or] at hfill
    exact hfill
  have hcount : ∀ type, (r.countFile q').inflight type =
      (w.ring ctx.ring).inflight type + UInt32.ofNat (q'.stake type) := by
    intro type
    have hstake : q'.stake type = (q'.uses type).toNat := by
      rw [Request.stake, hq', Bool.true_and]
    rw [hstake]
    cases type with
    | buffers =>
        have hcounted : (r.countFile q').inflight .buffers =
            (e.preparedRing ctx w).fixedBufInflight := by
          unfold RingCtx.countFile
          cases q'.usesRegisteredFile <;> rfl
        rw [hcounted, hbuf]
        unfold Entry.preparedRing
        cases e.usesBuffer <;> simp [RingCtx.inflight, RingCtx.setRequest]
    | files =>
        have hprepared : r.fixedFileInflight = (w.ring ctx.ring).fixedFileInflight := by
          rw [hr]
          unfold Entry.preparedRing
          cases e.usesBuffer <;> rfl
        unfold RingCtx.countFile
        cases hfile : q'.usesRegisteredFile <;>
          simp [RingCtx.inflight, hprepared, Request.uses, hfile]
  rw [hself]
  obtain ⟨hbooked', huses⟩ := hbooked.write (r.countFile q') hheld
    (hrequests.trans hreqs) hstack hmax hcount
  have hself' : (r.countFile q').requests ctx.opIdx = q' := by
    rw [hrequests, hself]
  refine ⟨hmax, hbooked', ?_, fun type huse => ?_, fun type => ?_⟩
  · rw [hself']
  · rw [hself'] at huse
    refine hsound.usable w.engine (w.ring ctx.ring) ((w.ring ctx.ring).requests ctx.opIdx) hreg
      hfresh type ?_
    cases type <;> exact huse
  · rw [hself', huses]

/-- A submission that failed leaves the books of its ring as they were. -/
theorem settles_of_abort (hbooked : (w.ring ctx.ring).Booked)
    (hheld : (w.ring ctx.ring).Held ctx.opIdx) {q : Request}
    (hq : ((w.ring ctx.ring).requests ctx.opIdx).SameSlot q) :
    ∃ r, ringPutRequest ((w.ring ctx.ring).setRequest ctx.opIdx q) ctx.opIdx = r ∧
      r.maxRequests = (w.ring ctx.ring).maxRequests ∧ r.Booked ∧
      ∀ type, r.pendingUses type ≤ (w.ring ctx.ring).pendingUses type := by
  have hstake : ∀ type, q.stake type = 0 :=
    fun type => Request.stake_of_idle (hq.2.1.trans hheld.pending) type
  obtain ⟨hwritten, huses⟩ := hbooked.write (q := q)
    ((w.ring ctx.ring).setRequest ctx.opIdx q) hheld rfl rfl rfl fun type => by
      rw [hstake]
      cases type <;> simp [RingCtx.inflight, RingCtx.setRequest]
  have hput := RingCtx.Settles.put ((w.ring ctx.ring).setRequest ctx.opIdx q) ctx.opIdx
  refine ⟨_, rfl, hput.max, hput.booked hwritten,
    fun type => (hput.fewer hwritten type).trans ?_⟩
  rw [huses, hstake, Nat.add_zero]

end

/-- What a submission call does to the books: they are kept, and it adds a request only to tables
that new operations may use. -/
structure World.Enlists (w w' : World) : Prop where
  registration : w'.engine.registration = w.engine.registration
  ringCount : w'.engine.ringCount = w.engine.ringCount
  max : ∀ i, (w'.ring i).maxRequests = (w.ring i).maxRequests
  booked : ∀ i, (w'.ring i).Booked
  closed : ∀ i type, ¬w.engine.Usable type →
    (w'.ring i).pendingUses type ≤ (w.ring i).pendingUses type

/-- The request `p` is pending, and uses only tables that new operations may use. -/
structure World.Admits (w w' : World) (p : ReqPtr) : Prop where
  pending : ((w'.ring p.1).requests p.2).pending = true
  usable : ∀ type, ((w'.ring p.1).requests p.2).uses type = true → w.engine.Usable type

namespace World.Enlists

theorem of_settled (h : w.Settled w') (hw : ∀ i, (w.ring i).Booked) : w.Enlists w' where
  registration := h.registration
  ringCount := h.ringCount
  max i := (h.rings i).max
  booked i := (h.rings i).booked (hw i)
  closed i type _ := (h.rings i).fewer (hw i) type

theorem trans (h : w.Enlists w') (h' : w'.Enlists w'') : w.Enlists w'' where
  registration := h'.registration.trans h.registration
  ringCount := h'.ringCount.trans h.ringCount
  max i := (h'.max i).trans (h.max i)
  booked := h'.booked
  closed i type hclosed := (h'.closed i type fun h₁ =>
    hclosed ((Engine.usable_congr h.registration type).1 h₁)).trans (h.closed i type hclosed)

theorem of_same (h : w.SameBooks w') (hw : ∀ i, (w.ring i).Booked) : w.Enlists w' :=
  of_settled (.of_same h) hw

/-- One ring changes. -/
theorem of_setRing {i : ℕ} {r : RingCtx} (hmax : r.maxRequests = (w.ring i).maxRequests)
    (hr : r.Booked) (hw : ∀ i, (w.ring i).Booked)
    (hclosed : ∀ type, ¬w.engine.Usable type → r.pendingUses type ≤ (w.ring i).pendingUses type) :
    w.Enlists (w.setRing i r) := by
  refine ⟨rfl, rfl, fun j => ?_, fun j => ?_, fun j type husable => ?_⟩
  · rw [World.setRing_ring]
    split
    · next hj =>
        subst hj
        exact hmax
    · rfl
  · rw [World.setRing_ring]
    split
    · exact hr
    · exact hw j
  · rw [World.setRing_ring]
    split
    · next hj =>
        subst hj
        exact hclosed type husable
    · exact le_rfl

end World.Enlists

/-- From the slot to the end of the call. -/
theorem Entry.submitOn_enlists {e : Entry} {ctx : SubmitCtx} {o : Option ReqPtr}
    (hvalid : e.Valid) (hsound : e.Sound w.engine) (hfresh : Fresh w ctx)
    (hw : ∀ i, (w.ring i).Booked) (hheld : (w.ring ctx.ring).Held ctx.opIdx)
    (h : e.submitOn env ctx w = .ret o w') : w.Enlists w' ∧ ∀ p ∈ o, w.Admits w' p := by
  cases o with
  | none =>
      obtain ⟨err, habort⟩ := Entry.submitOn_eq_none h
      have hsame := submitAbort_sameBooks habort
      have hring : ((e.written ctx w).withErrno err).ring ctx.ring =
          (w.ring ctx.ring).setRequest ctx.opIdx (e.fill w.engine (w.ring ctx.ring)
            ((w.ring ctx.ring).requests ctx.opIdx)) := w.setRing_self _ _
      have hback : ∀ r, ((e.written ctx w).withErrno err).setRing ctx.ring r =
          (w.setRing ctx.ring r).withErrno err := by
        intro r
        simp [Entry.written, World.withErrno, World.setRing]
      rw [hring, hback] at hsame
      obtain ⟨r, hput, hmax, hbooked, hfewer⟩ := settles_of_abort (hw ctx.ring) hheld
        (hvalid.fill w.engine (w.ring ctx.ring) ((w.ring ctx.ring).requests ctx.opIdx))
      rw [hput] at hsame
      have hset := World.Enlists.of_setRing hmax hbooked hw fun type _ => hfewer type
      have hrest : World.SameBooks _ w' := (World.SameBooks.of_tls _ _).trans hsame
      exact ⟨hset.trans (.of_same hrest hset.booked), fun p hp => by cases hp⟩
  | some p =>
      obtain ⟨rfl, now, r, hf, hsame⟩ := Entry.submitOn_eq_some h
      have henlisted := enlisted_of_submit hvalid hsound rfl hfresh (hw ctx.ring) hheld hf
      have hclosed : ∀ type, ¬w.engine.Usable type →
          (r.countFile (r.requests ctx.opIdx)).pendingUses type ≤
            (w.ring ctx.ring).pendingUses type := by
        intro type hnot
        have hunused := Bool.eq_false_of_not_eq_true
          fun huse => hnot (henlisted.usable type huse)
        rw [henlisted.pendingUses, Request.stake, hunused, Bool.and_false]
        exact le_rfl
      have hset := World.Enlists.of_setRing henlisted.max henlisted.booked hw hclosed
      have hring := hsame.rings ctx.ring
      rw [World.setRing_self] at hring
      refine ⟨hset.trans (.of_same hsame hset.booked), fun p hp => ?_⟩
      obtain rfl := Option.some.inj hp
      refine ⟨?_, fun type huse => ?_⟩
      · rw [hring.requests]
        exact henlisted.pending
      · rw [hring.requests] at huse
        exact henlisted.usable type huse

/-- **A submission call keeps the books** as long as no callback runs inside it: it adds at most
its own request, and this uses only tables that new operations may use. -/
theorem auraSubmit_books {depth : ℕ} {call : SubmitCall} {args : SubmitArgs} {o : Option ReqPtr}
    (hfixed : args.fixedFile = false) (hw : ∀ i, (w.ring i).Booked)
    (hquiet : w'.callbacks = w.callbacks)
    (h : auraSubmit env (callback env depth) call args w = .ret o w') :
    w.Enlists w' ∧ ∀ p ∈ o, w.Admits w' p := by
  change submitCall env _ args call w.marked = _ at h
  rw [submitCall_eq] at h
  obtain ⟨e, w₁, henter, hrun⟩ := bind_eq_ret.mp h
  have hw₁ := call.enter_enters env args _ _ _ henter
  cases e with
  | none =>
      obtain ⟨rfl, rfl⟩ := Outcome.ret.inj hrun
      obtain ⟨err, rfl⟩ := hw₁
      exact ⟨.of_same ⟨rfl, rfl, rfl, fun _ => .refl _⟩ hw, nofun⟩
  | some e =>
      obtain ⟨hvalid, hw₁⟩ := hw₁
      have hsound := call.enter_sound env hfixed _ _ _ henter
      obtain ⟨ctx, w₂, w₃, hbegin, rfl, hrest⟩ := Entry.run_eq_ret hrun
      have hlog := @calling_logPrefix env
      have hcb := hlog.callback depth
      have hsettles : w₁.Settles w₂ :=
        (submitBegin_settles hcb e.allowPoll).ensures _ _ _ hbegin
      have hleft : (w₃.left e.locked).callbacks = w₃.callbacks := rfl
      have hfrom : w₁.callbacks = w.callbacks := by
        rw [hw₁]
        rfl
      have hrings₁ : ∀ i, (w₁.ring i).Booked := by
        rw [hw₁]
        exact hw
      have henlists : w.Enlists w₁ := by
        rw [hw₁]
        exact .of_same ⟨rfl, rfl, rfl, fun _ => .refl _⟩ hw
      cases ctx with
      | none =>
          obtain ⟨rfl, rfl⟩ := hrest
          have hsettled := hsettles.settled (by omega)
          have hback := henlists.trans (.of_settled hsettled hrings₁)
          refine ⟨hback.trans (.of_same ⟨rfl, rfl, rfl, fun _ => .refl _⟩ hback.booked), nofun⟩
      | some ctx =>
          have hafter : w₂.callbacks ≤ w₃.callbacks :=
            ((hlog.toStable.finish hvalid ctx).ensures _ _ _ hrest).sublist.countP_le
          have hbefore := hsettles.callbacks
          have hsettled := hsettles.settled (by omega)
          have hbegun := henlists.trans (.of_settled hsettled hrings₁)
          have hon : e.submitOn env ctx w₂ = .ret o w₃ := by
            unfold Entry.finish at hrest
            rwa [hsound.late] at hrest
          have heven : w₁.Even := by
            rw [hw₁]
            exact fun _ => rfl
          have hrange : w₁.FreeInRange := fun i j hj => ((hrings₁ i).free j hj).1
          obtain ⟨locked, htaken, -⟩ :=
            submitBegin_began ((@calling_rangeKept env).callback depth) heven hrange hbegin
          obtain ⟨hadds, hadmits⟩ := Entry.submitOn_enlists hvalid
            (hsound.congr hbegun.registration) (submitBegin_fresh hbegin) hbegun.booked
            ⟨htaken.lt, htaken.inPool, htaken.pending⟩ hon
          have hfull := hbegun.trans hadds
          refine ⟨hfull.trans (.of_same ⟨rfl, rfl, rfl, fun _ => .refl _⟩ hfull.booked), ?_⟩
          intro p hp
          have hentry := hadmits p hp
          exact ⟨hentry.pending, fun type huse =>
            (Engine.usable_congr hbegun.registration type).1 (hentry.usable type huse)⟩

/-! ## Cancels and links -/

/-- A request that is rewritten keeps the books if its slot's state and its tables are the same. -/
theorem RingCtx.Settles.rewrite {r : RingCtx} {j : ℕ} {q : Request}
    (hslot : (r.requests j).SameSlot q) (huses : ∀ type, q.uses type = (r.requests j).uses type) :
    r.Settles (r.setRequest j q) := by
  obtain ⟨-, hpending, hpool⟩ := hslot
  have hstake : ∀ type, q.stake type = (r.requests j).stake type := fun type => by
    rw [Request.stake, Request.stake, hpending, huses]
  have hsame : ∀ type, (r.setRequest j q).pendingUses type = r.pendingUses type := by
    intro type
    by_cases hj : j < r.maxRequests
    · have hupdate := RingCtx.pendingUses_update r (r.setRequest j q) type rfl rfl hj
      rw [hstake] at hupdate
      omega
    · exact RingCtx.pendingUses_update_of_ge r (r.setRequest j q) type rfl rfl (not_lt.1 hj)
  have hstate : ∀ k, ((r.setRequest j q).requests k).inPool = (r.requests k).inPool ∧
      ((r.setRequest j q).requests k).pending = (r.requests k).pending := by
    intro k
    by_cases hk : k = j
    · subst hk
      rw [RingCtx.setRequest_self]
      exact ⟨hpool, hpending⟩
    · rw [RingCtx.setRequest_of_ne _ _ _ hk]
      exact ⟨rfl, rfl⟩
  refine ⟨rfl, fun h => ⟨h.nodup, fun k hk => ?_, fun k hk => ?_, fun type => ?_⟩,
    fun _ type => (hsame type).le⟩
  · rw [(hstate k).1, (hstate k).2]
    exact h.free k hk
  · rw [(hstate k).2]
    exact h.range k hk
  · rw [hsame, ← h.inflight]
    cases type <;> rfl

/-- **A link keeps the books.** -/
theorem auraRequestSetLinked_books (req : Option ReqPtr) :
    Keeps World.Settled (auraRequestSetLinked req) := by
  have h := Keeps.composes World.Settled.refl World.Settled.trans
  have hsame : ∀ {α : Type} {p : AuraM α}, Keeps SameBooks p → Keeps World.Settled p :=
    fun hp w => .of_same (hp w)
  have hlink : ∀ p, Keeps World.Settled (linkLastSqe p) := by
    intro p
    cases p with
    | none => exact h.pure _
    | some p =>
        have hslot : ∀ r : RingCtx, r.SameBooks (r.linkSlot p.2) := fun _ => ⟨rfl, rfl, rfl, rfl⟩
        exact fun w => .of_setRing (.of_same (hslot _))
  refine h.bind (h.read _) fun tls => ?_
  split
  · refine h.andThen (fun w => .of_setRing (.rewrite ⟨rfl, rfl, rfl⟩ fun type => ?_)) ?_
    · cases type <;> rfl
    · exact h.andThen (hlink _) (h.andThen
        (hsame (quietly_sameBooks.when (onTls_sameBooks _))) (h.pure _))
  · exact hsame (quietly_sameBooks.andThen (quietly_sameBooks.setErrno _)
      (quietly_sameBooks.pure _))

/-- `ring_submit_cancel` submits the request, or changes only `errno`. -/
theorem submitCancel_eq_ret {i target op : ℕ} {ok : Bool}
    (h : submitCancel i target op w = .ret ok w') :
    (ok = false ∧ ∃ e, w' = w.withErrno e) ∨
      ok = true ∧ ∃ r t, Submitted (w.ring i) op r ∧ w' = { w.setRing i r with tls := t } := by
  unfold submitCancel readRing at h
  rw [Prog.bind_apply, Prog.read_apply, Outcome.bind_ret, id] at h
  cases hr : ringSubmitCancel (w.ring i) op target with
  | error e =>
      rw [hr] at h
      obtain ⟨rfl, rfl⟩ := Outcome.ret.inj h
      exact .inl ⟨rfl, e, rfl⟩
  | ok r =>
      rw [hr] at h
      obtain ⟨rfl, rfl⟩ := Outcome.ret.inj h
      exact .inr ⟨rfl, r, _, (ringSubmitCancel_spec hr).2, rfl⟩

/-- A submitted request that uses no table keeps the books. -/
theorem RingCtx.Settles.submit {r r' : RingCtx} {op : ℕ} (h : Submitted r op r')
    (hheld : r.Held op) (hnone : ∀ type, (r.requests op).uses type = false) : r.Settles r' := by
  obtain ⟨sqe, ot, t, sc, -, -, rfl⟩ := h
  set q : Request := { r.requests op with opType := ot, submitTimeNs := t, pending := true } with hq
  have hstake : ∀ type, q.stake type = 0 := fun type => by
    have huses : q.uses type = (r.requests op).uses type := by cases type <;> rfl
    rw [Request.stake, huses, hnone, Bool.and_false, Bool.toNat_false]
  have hwrite := fun hb : r.Booked => hb.write (r.prepared op sqe ot t sc) (q := q) hheld rfl rfl
    rfl fun type => by
      rw [hstake]
      cases type <;> simp [RingCtx.inflight, RingCtx.prepared, RingCtx.setRequest]
  refine ⟨rfl, fun hb => (hwrite hb).1, fun hb type => ?_⟩
  rw [(hwrite hb).2, hstake, Nat.add_zero]

/-- `aura_cancel` with the slot it took: its request uses no table. -/
theorem cancelWith_enlists {i target op : ℕ} {st : Bool} {n : ℤ} (hw : ∀ i, (w.ring i).Booked)
    (hheld : (w.ring i).Held op) (hnone : ∀ type, ((w.ring i).requests op).uses type = false)
    (h : cancelWith env i target op st w = .ret n w') : w.Enlists w' := by
  have hsame := quietly_sameBooks
  obtain ⟨_, w₁, hfill, h⟩ := bind_eq_ret.mp h
  obtain ⟨-, hw₁⟩ := Outcome.ret.inj hfill
  set q := ((w.ring i).requests op).cancelling (w.ring i).ringIdx with hq
  have hsettles : (w.ring i).Settles ((w.ring i).setRequest op q) :=
    .rewrite ⟨rfl, rfl, rfl⟩ fun type => by cases type <;> rfl
  have hfilled : w.Enlists w₁ := by
    rw [← hw₁]
    exact .of_setRing hsettles.max (hsettles.booked (hw i)) hw fun type _ =>
      hsettles.fewer (hw i) type
  have hring : w₁.ring i = (w.ring i).setRequest op q := by
    rw [← hw₁]
    exact World.setRing_self _ _ _
  have hheld₁ : (w₁.ring i).Held op := by
    rw [hring]
    refine ⟨hheld.lt, ?_, ?_⟩
    · rw [RingCtx.setRequest_self]
      exact hheld.inPool
    · rw [RingCtx.setRequest_self]
      exact hheld.pending
  have hnone₁ : ∀ type, ((w₁.ring i).requests op).uses type = false := by
    intro type
    rw [hring, RingCtx.setRequest_self, ← hnone type]
    cases type <;> rfl
  obtain ⟨ok, w₂, hsubmit, h⟩ := bind_eq_ret.mp h
  rcases submitCancel_eq_ret hsubmit with ⟨rfl, e, rfl⟩ | ⟨rfl, r, t, hr, rfl⟩
  · obtain ⟨_, w₃, hput, h⟩ := bind_eq_ret.mp h
    obtain ⟨-, hw₃⟩ := Outcome.ret.inj hput
    have hback := RingCtx.Settles.put (w₁.ring i) op
    have hreturned : w₁.Enlists w₃ := by
      rw [← hw₃]
      have herrno := World.Enlists.of_same (World.SameBooks.of_tls w₁
        { w₁.tls with errno := e }) hfilled.booked
      exact herrno.trans (.of_setRing hback.max (hback.booked (hfilled.booked i)) herrno.booked
        fun type _ => hback.fewer (hfilled.booked i) type)
    have hlast : w₃.SameBooks w' := (hsame.andThen (ringUnlock_sameBooks i st)
      (hsame.pure (-1 : ℤ))).ensures _ _ _ h
    exact (hfilled.trans hreturned).trans (.of_same hlast hreturned.booked)
  · have hadds := RingCtx.Settles.submit hr hheld₁ hnone₁
    have hset := World.Enlists.of_setRing hadds.max (hadds.booked (hfilled.booked i))
      hfilled.booked fun type _ => hadds.fewer (hfilled.booked i) type
    have hflush : Keeps SameBooks (cancelFlush env i st) := by
      refine hsame.bind (ringFlushLatching_sameBooks i) fun status => ?_
      have hunlock := ringUnlock_sameBooks i st
      cases status with
      | ok => exact hsame.andThen hunlock (hsame.pure _)
      | retry => exact hsame.andThen (hsame.setErrno _) (hsame.andThen hunlock (hsame.pure _))
      | fatal =>
          exact hsame.andThen hunlock (hsame.bind (hsame.read _) fun _ =>
            hsame.andThen (hsame.setErrno _) (hsame.pure _))
    have hlast := (World.SameBooks.of_tls _ t).trans (hflush.ensures _ _ _ h)
    exact (hfilled.trans hset).trans (.of_same hlast hset.booked)

/-- **A cancel keeps the books.** -/
theorem auraCancel_books {req : Option ReqPtr} {n : ℤ} (hw : ∀ i, (w.ring i).Booked)
    (h : auraCancel env req w = .ret n w') : w.Enlists w' := by
  have hsame := quietly_sameBooks
  have hquiet : ∀ {p : AuraM ℤ}, Keeps SameBooks p → p w = .ret n w' → w.Enlists w' :=
    fun hp hret => .of_same (hp.ensures _ _ _ hret) hw
  unfold auraCancel at h
  rw [Prog.bind_apply, Prog.read_apply, Outcome.bind_ret] at h
  have hfail : ∀ e, Keeps SameBooks (do setErrno e; pure (-1 : ℤ)) := fun e =>
    hsame.andThen (hsame.setErrno _) (hsame.pure _)
  rcases req with _ | ⟨i, target⟩
  · exact hquiet (hfail _) h
  dsimp only at h
  split_ifs at h
  · exact hquiet (hfail _) h
  · exact hquiet (hfail _) h
  · exact hquiet (hfail _) h
  obtain ⟨st, w₁, hlock, h⟩ := bind_eq_ret.mp h
  have hlocked : w.SameBooks w₁ := (ringLock_sameBooks i).ensures _ _ _ hlock
  have hw₁ := hlocked.booked hw
  refine (World.Enlists.of_same hlocked hw).trans ?_
  have hleave : ∀ e, Keeps SameBooks (do ringUnlock i st; setErrno e; pure (-1 : ℤ)) := fun e =>
    hsame.andThen (ringUnlock_sameBooks i st) (hfail e)
  unfold cancelLocked readRing at h
  rw [Prog.bind_apply, Prog.read_apply, Outcome.bind_ret, Prog.ite_apply] at h
  split at h
  · exact .of_same ((hleave _).ensures _ _ _ h) hw₁
  obtain ⟨op, w₂, hslot, hrest⟩ := bind_eq_ret.mp h
  rcases getRequest_eq_ret hslot with ⟨rfl, rfl⟩ | ⟨op, r, rfl, hget, rfl⟩
  · exact .of_same ((hleave _).ensures _ _ _ hrest) hw₁
  obtain ⟨hbooked, hheld, hmax, huses, hnone⟩ := (hw₁ i).get hget
  have hset := World.Enlists.of_setRing hmax hbooked hw₁ fun type _ => (huses type).le
  have hself := World.setRing_self w₁ i r
  refine hset.trans (cancelWith_enlists hset.booked ?_ ?_ hrest)
  · rw [hself]
    exact hheld
  · rw [hself]
    exact hnone

end Aura
