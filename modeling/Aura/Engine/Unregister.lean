import Aura.Engine.Enlisting
import Aura.Engine.Tables
import Mathlib.Algebra.BigOperators.Intervals
import Mathlib.Algebra.Order.Ring.Int

/-!
# Deferred unregistration

What the library promises about a registered table while operations use it.

* `RegStep` — the atomic steps: submissions without `AURA_FIXED_FILE` and with no callback inside,
  cancels and links, what completions, flushes and the kernel do to a ring, and the sections under
  the write side of the registration lock.
* `Engine.Lifetimes` — the invariant: the books of all rings are kept, and a table that is gone is
  used by nobody.
* **`deferred_unregistration`** — in every state that any interleaving of these steps reaches, the
  counters are right, a table goes away only when nobody uses it, nothing new uses one that is
  about to go away, and a new one comes only after the old one is cleared.
-/

namespace Aura

open Lib Lib.Prog

open World (SameBooks)

variable {env : Env} {w w' w'' : World} {type : RegType}

/-! ## Registration calls -/

/-- The flags of the registered tables. -/
def Engine.flags (e : Engine) :=
  (e.buffersRegistered, e.filesRegistered, e.buffersUnregPending, e.filesUnregPending)

theorem Engine.isRegistered_congr {e e' : Engine} (h : e'.flags = e.flags) (type : RegType) :
    e'.isRegistered type = e.isRegistered type := by
  simp only [Engine.flags, Prod.mk.injEq] at h
  obtain ⟨h₁, h₂, -, -⟩ := h
  cases type <;> simp [isRegistered, h₁, h₂]

theorem Engine.isUnregPending_congr {e e' : Engine} (h : e'.flags = e.flags) (type : RegType) :
    e'.isUnregPending type = e.isUnregPending type := by
  simp only [Engine.flags, Prod.mk.injEq] at h
  obtain ⟨-, -, h₃, h₄⟩ := h
  cases type <;> simp [isUnregPending, h₃, h₄]

/-- Nothing in the books of the rings changed, nor did the flags of the tables. -/
structure Engine.FlagsKept (e e' : Engine) : Prop where
  flags : e'.flags = e.flags
  ringCount : e'.ringCount = e.ringCount
  rings : ∀ i, (e.rings i).SameBooks (e'.rings i)

namespace Engine.FlagsKept

variable {e e' e'' : Engine}

theorem refl (e : Engine) : e.FlagsKept e := ⟨rfl, rfl, fun _ => .refl _⟩

theorem trans (h : e.FlagsKept e') (h' : e'.FlagsKept e'') : e.FlagsKept e'' :=
  ⟨h'.flags.trans h.flags, h'.ringCount.trans h.ringCount,
    fun i => (h.rings i).trans (h'.rings i)⟩

theorem of_eq (hflags : e'.flags = e.flags) (hcount : e'.ringCount = e.ringCount)
    (hrings : e'.rings = e.rings) : e.FlagsKept e' := by
  refine ⟨hflags, hcount, fun i => ?_⟩
  rw [hrings]
  exact .refl _

theorem of_same (h : w.SameBooks w') : w.engine.FlagsKept w'.engine := by
  have hreg := h.registration
  simp only [Engine.registration, Prod.mk.injEq] at hreg
  obtain ⟨h₁, h₂, h₃, h₄, -⟩ := hreg
  exact ⟨by simp only [Engine.flags, h₁, h₂, h₃, h₄], h.ringCount, h.rings⟩

end Engine.FlagsKept

/-- A registration call up to the point where it raises a flag. -/
abbrev KeepsFlags {α : Type} (p : AuraM α) : Prop :=
  Ensures (fun w w' : World => w.engine.FlagsKept w'.engine) p

theorem quietly_flags : Quietly fun (α : Type) (p : AuraM α) => KeepsFlags p :=
  .of_ensures (fun w => .refl w.engine) (fun h h' => h.trans h')
    fun h => .of_same (.of_move h)

theorem onEngine_flags {f : Engine → Engine} (hf : ∀ e : Engine, e.FlagsKept (f e)) :
    KeepsFlags (onEngine f) :=
  Keeps.ensures fun w => hf w.engine

theorem regWrlock_flags : KeepsFlags regWrlock := by
  intro w _ w' h
  obtain ⟨-, -, rfl⟩ := regWrlock_eq_ret h
  exact .of_eq rfl rfl rfl

theorem regWrunlock_flags : KeepsFlags regWrunlock := onEngine_flags fun _ => .of_eq rfl rfl rfl

theorem kernelRegisterWith_flags {f : Engine → Engine} (hf : ∀ e : Engine, e.FlagsKept (f e)) :
    KeepsFlags (kernelRegisterWith env f) := by
  have h := quietly_flags
  have hkernel : KeepsFlags (kernelRegister env) :=
    h.andThen h.kernelTurn (h.bind (h.read _) fun _ => h.pure _)
  exact h.bind hkernel fun _ => h.andThen (h.when (onEngine_flags hf)) (h.pure _)

theorem registerRings_flags {set clear : ℕ → Engine → Engine}
    (hset : ∀ i (e : Engine), e.FlagsKept (set i e))
    (hclear : ∀ i (e : Engine), e.FlagsKept (clear i e)) (i n : ℕ) :
    KeepsFlags (registerRings env set clear i n) := by
  have h := quietly_flags
  have hundo : ∀ (js : List ℕ) (e : Engine),
      e.FlagsKept (js.foldl (fun e j => clear j e) e) := by
    intro js
    induction js with
    | nil => exact fun e => .refl e
    | cons j js ih => exact fun e => (hclear j e).trans (ih _)
  induction n generalizing i with
  | zero => exact h.pure _
  | succ n ih =>
      refine h.bind (kernelRegisterWith_flags (hset i)) fun err => ?_
      cases err with
      | none => exact ih _
      | some err => exact h.andThen (onEngine_flags fun e => hundo _ e) (h.pure _)

theorem updateRings_flags (index : ℕ) (fd : ℤ) (i n : ℕ) :
    KeepsFlags (updateRings env index fd i n) := by
  have h := quietly_flags
  induction n generalizing i with
  | zero => exact h.pure _
  | succ n ih =>
      refine h.bind (kernelRegisterWith_flags fun e => .of_eq rfl rfl rfl) fun err => ?_
      cases err with
      | none => exact ih _
      | some err => exact h.pure _

theorem rollbackRings_flags (index : ℕ) (oldFd : ℤ) (js : List ℕ) :
    KeepsFlags (rollbackRings env index oldFd js) := by
  have h := quietly_flags
  induction js with
  | nil => exact h.pure _
  | cons j js ih =>
      exact h.bind (kernelRegisterWith_flags fun e => .of_eq rfl rfl rfl) fun _ =>
        h.bind ih fun _ => h.pure _

theorem auraUpdateFile_flags (index fd : ℤ) : KeepsFlags (auraUpdateFile env index fd) := by
  have h := quietly_flags
  refine h.ite (h.andThen (h.setErrno _) (h.pure _)) (h.andThen regWrlock_flags ?_)
  have hfail : ∀ e : ℤ, KeepsFlags (do regWrunlock; setErrno e; pure (-1 : ℤ)) := fun e =>
    h.andThen regWrunlock_flags (h.andThen (h.setErrno e) (h.pure _))
  refine h.bind (h.read _) fun e => h.ite (hfail _) (h.ite (hfail _) ?_)
  refine h.bind (updateRings_flags _ _ _ _) fun r => ?_
  cases r with
  | some p =>
      have hlatch : ∀ e : Engine, e.FlagsKept e.failRollback := by
        intro e
        have hframe := e.latch_frame EIO
        refine .of_eq ?_ hframe.ringCount hframe.rings
        have hreg := hframe.registration
        simp only [Engine.registration, Prod.mk.injEq] at hreg
        obtain ⟨h₁, h₂, h₃, h₄, -⟩ := hreg
        simp only [Engine.flags, Engine.failRollback, h₁, h₂, h₃, h₄]
      exact h.bind (rollbackRings_flags _ _ _) fun _ =>
        h.andThen (h.when (onEngine_flags hlatch)) (hfail _)
  | none =>
      have hset : ∀ e : Engine, e.FlagsKept
          { e with registeredFiles := e.registeredFiles.set index.toNat fd } :=
        fun _ => .of_eq rfl rfl rfl
      exact h.andThen (onEngine_flags hset) (h.andThen regWrunlock_flags (h.pure _))

/-- **How a registration call ends**: it fails and changes no flag, or the table was idle and its
flag is raised. -/
theorem registerTable_flags {α : Type} {ops : TableOps α} {table : List α} {n : ℤ}
    (hrec : ∀ t (e : Engine), e.FlagsKept (ops.setRecorded t e))
    (hker : ∀ t i (e : Engine), e.FlagsKept (ops.setKernel t i e))
    (hidle : ∀ {e e' : Engine}, e.FlagsKept e' → e'.idle ops.type = e.idle ops.type)
    (h : registerTable env ops table w = .ret n w') :
    (n = -1 ∧ w.engine.FlagsKept w'.engine) ∨
      n = 0 ∧ w.engine.idle ops.type = true ∧ ∃ e, w.engine.FlagsKept e ∧
        (ops.setRegistered e).FlagsKept w'.engine := by
  have hq := quietly_flags
  have hfail : ∀ {p : AuraM ℤ} {w₁ : World}, KeepsFlags p → w.engine.FlagsKept w₁.engine →
      (∀ {a w₂}, p w₁ = .ret a w₂ → a = -1) → p w₁ = .ret n w' →
        (n = -1 ∧ w.engine.FlagsKept w'.engine) ∨ n = 0 ∧ w.engine.idle ops.type = true ∧
          ∃ e, w.engine.FlagsKept e ∧ (ops.setRegistered e).FlagsKept w'.engine :=
    fun hp hw hneg hret => .inl ⟨hneg hret, hw.trans (hp _ _ _ hret)⟩
  unfold registerTable at h
  rw [Prog.ite_apply] at h
  split at h
  · refine hfail (hq.andThen (hq.setErrno _) (hq.pure _)) (.refl _) (fun hret => ?_) h
    exact (Outcome.ret.inj hret).1.symm
  obtain ⟨_, w₁, hlock, h⟩ := bind_eq_ret.mp h
  have hlocked := regWrlock_flags _ _ _ hlock
  rw [Prog.bind_apply, Prog.read_apply, Outcome.bind_ret, Prog.ite_apply] at h
  split at h
  · refine hfail (hq.andThen regWrunlock_flags (hq.andThen (hq.setErrno _) (hq.pure _))) hlocked
      (fun hret => ?_) h
    exact (Outcome.ret.inj hret).1.symm
  next hfree =>
  have hwas : w.engine.idle ops.type = true := by
    rw [← hidle hlocked]
    simpa using hfree
  obtain ⟨_, w₂, hrecord, h⟩ := bind_eq_ret.mp h
  obtain ⟨r, w₃, hloop, h⟩ := bind_eq_ret.mp h
  have hlooped : w.engine.FlagsKept w₃.engine :=
    (hlocked.trans (onEngine_flags (hrec _) _ _ _ hrecord)).trans
      (registerRings_flags (hker _) (hker _) _ _ _ _ _ hloop)
  cases r with
  | some err =>
      refine hfail (hq.andThen (onEngine_flags (hrec _)) (hq.andThen regWrunlock_flags
        (hq.andThen (hq.setErrno _) (hq.pure _)))) hlooped (fun hret => ?_) h
      exact (Outcome.ret.inj hret).1.symm
  | none =>
      obtain ⟨rfl, rfl⟩ := Outcome.ret.inj h
      exact .inr ⟨rfl, hwas, w₃.engine, hlooped, .of_eq rfl rfl rfl⟩

/-! ## The totals -/

namespace Engine

/-- The total that finalization looks at: `fixed_buf_inflight_total` or
`fixed_file_inflight_total`. -/
def inflightTotal (e : Engine) : RegType → UInt32
  | .buffers => e.fixedBufInflightTotal
  | .files => e.fixedFileInflightTotal

/-- The number of pending requests that use the table, over all rings. -/
def pendingUses (e : Engine) (type : RegType) : ℕ :=
  ∑ i ∈ Finset.range e.ringCount, (e.rings i).pendingUses type

variable {e e' : Engine}

/-- With the books kept, the total is the number of uses. -/
theorem inflightTotal_eq (h : ∀ i, (e.rings i).Booked) (type : RegType) :
    e.inflightTotal type = UInt32.ofNat (e.pendingUses type) := by
  have hfold : e.inflightTotal type =
      (List.range e.ringCount).foldl (fun total i => total + (e.rings i).inflight type) 0 := by
    cases type <;> rfl
  have hsum : ∀ n, (List.range n).foldl (fun total i => total + (e.rings i).inflight type) 0 =
      UInt32.ofNat (∑ i ∈ Finset.range n, (e.rings i).pendingUses type) := by
    intro n
    induction n with
    | zero => rfl
    | succ n ih =>
        rw [List.range_succ, List.foldl_append, ih, Finset.sum_range_succ, UInt32.ofNat_add]
        simp [(h n).inflight type]
  rw [hfold, hsum]
  rfl

/-- A ring has at most `2 ^ 15` slots and an engine at most `2 ^ 10` rings, so the total does not
wrap around. -/
theorem pendingUses_lt (hdepth : ∀ i, (e.rings i).maxRequests ≤ 32768)
    (hcount : e.ringCount ≤ 1024) (type : RegType) : e.pendingUses type < UInt32.size := by
  have hring : ∀ i ∈ Finset.range e.ringCount, (e.rings i).pendingUses type ≤ 32768 :=
    fun i _ => ((e.rings i).pendingUses_le type).trans (hdepth i)
  have hall : e.pendingUses type ≤ e.ringCount * 32768 := by
    simpa [pendingUses] using Finset.sum_le_card_nsmul _ _ _ hring
  have hsize : UInt32.size = 4294967296 := rfl
  omega

end Engine

/-! ## The steps -/

/-- What happens to a ring between its submissions: flushes, completions, locks and the kernel. -/
inductive RingSettling (r : RingCtx) : RingCtx → Prop
  | quiet {r' : RingCtx} (h : RingQuiet r r') : RingSettling r r'
  | lock {st : Bool} {r' : RingCtx} (h : r.lock = some (st, r')) : RingSettling r r'
  | unlock (st : Bool) : RingSettling r (r.unlock st)
  | cqLock {st : Bool} {r' : RingCtx} (h : r.cqLock = some (st, r')) : RingSettling r r'
  | cqUnlock (st : Bool) : RingSettling r (r.cqUnlock st)
  | accept (k : ℕ) : RingSettling r (r.kernelAccept k)
  | reap : RingSettling r r.cqeSeen
  | process (now : ℤ) (req : Option ℕ) (res : ℤ) :
      RingSettling r (processCompletion now r req res).2.2
  | retireBatch (es : List RetireEntry) : RingSettling r (ringRetireBatch r es)
  | retireInline (e : RetireEntry) : RingSettling r (ringRetireInline r e)

theorem RingSettling.settles {r r' : RingCtx} (h : RingSettling r r') : r.Settles r' := by
  cases h with
  | quiet h => exact .of_same (.of_quiet h)
  | lock h => exact .of_same (.lock h)
  | unlock st => exact .of_same (.unlock r st)
  | cqLock h => exact .of_same (.cqLock h)
  | cqUnlock st => exact .of_same (.cqUnlock r st)
  | accept k => exact .of_same (.accept r k)
  | reap => exact .of_same (.reap r)
  | process now req res => exact .process r now req res
  | retireBatch es => exact .retireBatch r es
  | retireInline e => exact .retireInline r e

/-- What a step was: the calls with what they returned. -/
inductive RegEvent
  | submit (o : Option ReqPtr)
  | cancel (n : ℤ)
  | link (n : ℤ)
  | ring (i : ℕ)
  | engine
  | register (type : RegType) (n : ℤ)
  | updateFile (n : ℤ)
  | mark (type : RegType)
  | finalize

/-- The section of `aura_request_unregister` under the write lock. -/
def Engine.markUnregister (e : Engine) (type : RegType) : Engine :=
  if e.idle type then e else e.requestUnregister type

/-- The atomic steps. A call may run on any thread, in any surroundings and with any callbacks; no
callback runs inside a submission. -/
inductive RegStep : Engine → RegEvent → Engine → Prop
  | submit {env : Env} {depth : ℕ} {call : SubmitCall} {args : SubmitArgs} {o : Option ReqPtr}
      {w w' : World} (hfixed : args.fixedFile = false) (hquiet : w'.callbacks = w.callbacks)
      (h : auraSubmit env (callback env depth) call args w = .ret o w') :
      RegStep w.engine (.submit o) w'.engine
  | cancel {env : Env} {req : Option ReqPtr} {n : ℤ} {w w' : World}
      (h : auraCancel env req w = .ret n w') : RegStep w.engine (.cancel n) w'.engine
  | link {req : Option ReqPtr} {n : ℤ} {w w' : World}
      (h : auraRequestSetLinked req w = .ret n w') : RegStep w.engine (.link n) w'.engine
  | ring {e : Engine} (i : ℕ) {r : RingCtx} (h : RingSettling (e.rings i) r) :
      RegStep e (.ring i) { e with rings := Function.update e.rings i r }
  | engine {e e' : Engine} (h : e.Frame e') : RegStep e .engine e'
  | registerBuffers {env : Env} {iovs : List Iovec} {n : ℤ} {w w' : World}
      (h : auraRegisterBuffers env iovs w = .ret n w') :
      RegStep w.engine (.register .buffers n) w'.engine
  | registerFiles {env : Env} {fds : List ℤ} {n : ℤ} {w w' : World}
      (h : auraRegisterFiles env fds w = .ret n w') :
      RegStep w.engine (.register .files n) w'.engine
  | updateFile {env : Env} {index fd n : ℤ} {w w' : World}
      (h : auraUpdateFile env index fd w = .ret n w') :
      RegStep w.engine (.updateFile n) w'.engine
  | mark (e : Engine) (type : RegType) : RegStep e (.mark type) (e.markUnregister type)
  | finalize (e : Engine) : RegStep e .finalize e.finalize

/-- The bounds that `aura_create_with_options` checks. -/
structure Options.Accepted (o : Options) : Prop where
  depth : 4 ≤ o.queueDepth ∧ o.queueDepth ≤ 32768
  rings : 1 ≤ o.ringCount ∧ o.ringCount ≤ 1024

/-- New engines and their steps. -/
def registrationSystem : System Engine RegEvent where
  init e := ∃ o addr sqEntries, o.Accepted ∧ e = auraCreate o addr sqEntries
  step := RegStep

/-! ## The invariant -/

namespace Engine

/-- **The invariant**: the books are kept, and a table that is gone is used by nobody. -/
structure Lifetimes (e : Engine) : Prop where
  booked : ∀ i, (e.rings i).Booked
  depth : ∀ i, (e.rings i).maxRequests ≤ 32768
  count : e.ringCount ≤ 1024
  agree : e.TablesAgree
  gone : ∀ type, e.isRegistered type = false →
    e.isUnregPending type = false ∧ e.pendingUses type = 0

/-- The table is cleared: the engine has no copy of it, and no ring has one in the kernel. -/
def Cleared (e : Engine) : RegType → Prop
  | .buffers => e.registeredBuffers = [] ∧ ∀ i < e.ringCount, e.kernelBuffers i = none
  | .files => e.registeredFiles = [] ∧ ∀ i < e.ringCount, e.kernelFiles i = none

variable {e e' : Engine}

theorem TablesAgree.cleared (h : e.TablesAgree) {type : RegType}
    (hgone : e.isRegistered type = false) : e.Cleared type := by
  cases type with
  | buffers =>
      obtain ⟨hcopy, hheld⟩ := h.buffers.cleared hgone
      refine ⟨hcopy, fun i hi => (hheld i hi).trans ?_⟩
      exact if_neg (ne_true_of_eq_false hgone)
  | files =>
      obtain ⟨hcopy, hheld⟩ := h.files.cleared hgone
      refine ⟨hcopy, fun i hi => (hheld i hi).trans ?_⟩
      exact if_neg (ne_true_of_eq_false hgone)

theorem Lifetimes.inflightTotal_toNat (h : e.Lifetimes) (type : RegType) :
    (e.inflightTotal type).toNat = e.pendingUses type := by
  rw [inflightTotal_eq h.booked, UInt32.toNat_ofNat_of_lt' (pendingUses_lt h.depth h.count type)]

theorem lifetimes_create {o : Options} (ho : o.Accepted) (addr sqEntries : ℕ) :
    (auraCreate o addr sqEntries).Lifetimes := by
  have hidle : ∀ i type, ((auraCreate o addr sqEntries).rings i).pendingUses type = 0 := by
    intro i type
    exact Finset.sum_eq_zero fun j _ => Request.stake_of_idle rfl type
  refine ⟨fun i => ⟨?_, fun j hj => ⟨?_, ?_, rfl⟩, fun j _ => rfl, fun type => ?_⟩, fun i => ?_, ?_,
    auraCreate_agree o addr sqEntries, fun type _ => ⟨?_, ?_⟩⟩
  · exact List.nodup_reverse.2 List.nodup_range
  · exact List.mem_range.1 (List.mem_reverse.1 hj)
  · exact decide_eq_true (List.mem_range.1 (List.mem_reverse.1 hj))
  · rw [hidle]
    cases type <;> rfl
  · exact ho.depth.2
  · exact ho.rings.2
  · cases type <;> rfl
  · exact Finset.sum_eq_zero fun i _ => hidle i type

/-! ## One step -/

/-- The flags are the same and the books are kept, and only usable tables get new requests. -/
structure Enlists (e e' : Engine) : Prop where
  flags : e'.flags = e.flags
  ringCount : e'.ringCount = e.ringCount
  max : ∀ i, (e'.rings i).maxRequests = (e.rings i).maxRequests
  booked : ∀ i, (e'.rings i).Booked
  closed : ∀ i type, ¬e.Usable type → (e'.rings i).pendingUses type ≤ (e.rings i).pendingUses type

theorem Enlists.of_world (h : w.Enlists w') : w.engine.Enlists w'.engine := by
  refine ⟨?_, h.ringCount, h.max, h.booked, h.closed⟩
  have hreg := h.registration
  simp only [Engine.registration, Prod.mk.injEq] at hreg
  obtain ⟨h₁, h₂, h₃, h₄, -⟩ := hreg
  simp only [Engine.flags, h₁, h₂, h₃, h₄]

theorem FlagsKept.enlists (h : e.FlagsKept e') (hbooked : ∀ i, (e.rings i).Booked) :
    e.Enlists e' where
  flags := h.flags
  ringCount := h.ringCount
  max i := (h.rings i).max
  booked i := (h.rings i).booked (hbooked i)
  closed i type _ := ((h.rings i).pendingUses type).le

theorem Enlists.pendingUses_le (h : e.Enlists e') (hclosed : ¬e.Usable type) :
    e'.pendingUses type ≤ e.pendingUses type := by
  rw [Engine.pendingUses, Engine.pendingUses, h.ringCount]
  exact Finset.sum_le_sum fun i _ => h.closed i type hclosed

/-- What one step owes to a table. -/
structure Protects (e : Engine) (type : RegType) (e' : Engine) : Prop where
  /-- It goes away only while its unregistration is pending and nobody uses it. -/
  freed : e.isRegistered type = true → e'.isRegistered type = false →
    e.isUnregPending type = true ∧ e.pendingUses type = 0
  /-- Its unregistration stays pending until it goes away. -/
  stays : e.isUnregPending type = true → e'.isRegistered type = true →
    e'.isUnregPending type = true
  /-- Meanwhile no ring gets a new request that uses it. -/
  fewer : e.isUnregPending type = true → ∀ i,
    (e'.rings i).pendingUses type ≤ (e.rings i).pendingUses type

theorem Lifetimes.of_enlists (h : e.Lifetimes) (h' : e.Enlists e') (hagree : e'.TablesAgree) :
    e'.Lifetimes where
  booked := h'.booked
  depth i := (h'.max i).le.trans (h.depth i)
  count := h'.ringCount.le.trans h.count
  agree := hagree
  gone type hgone := by
    rw [isRegistered_congr h'.flags] at hgone
    obtain ⟨hpend, hnone⟩ := h.gone type hgone
    have hclosed : ¬e.Usable type := fun husable =>
      absurd (hgone.symm.trans husable.1) Bool.false_ne_true
    refine ⟨(isUnregPending_congr h'.flags type).trans hpend, ?_⟩
    have hle := h'.pendingUses_le hclosed
    omega

theorem Enlists.protects (h : e.Enlists e') (type : RegType) : e.Protects type e' where
  freed hreg hgone := by
    rw [isRegistered_congr h.flags, hreg] at hgone
    cases hgone
  stays hpend _ := (isUnregPending_congr h.flags type).trans hpend
  fewer hpend i := h.closed i type fun husable =>
    absurd (hpend.symm.trans husable.2) (by simp)

theorem idle_iff {e : Engine} {type : RegType} :
    e.idle type = true ↔ e.isRegistered type = false ∧ e.isUnregPending type = false := by
  cases type <;> simp [idle, isRegistered, isUnregPending]

/-- What `finalize_deferred_unregistration` looks for. -/
def expires (e : Engine) (type : RegType) : Bool :=
  e.isRegistered type && e.isUnregPending type && e.inflightTotal type == 0

theorem finalizeBuffers_same (e : Engine) : e.finalizeBuffers.rings = e.rings ∧
    e.finalizeBuffers.ringCount = e.ringCount ∧
    e.finalizeBuffers.filesRegistered = e.filesRegistered ∧
    e.finalizeBuffers.filesUnregPending = e.filesUnregPending := by
  unfold finalizeBuffers
  split <;> exact ⟨rfl, rfl, rfl, rfl⟩

theorem finalizeFiles_same (e : Engine) : e.finalizeFiles.rings = e.rings ∧
    e.finalizeFiles.ringCount = e.ringCount ∧
    e.finalizeFiles.buffersRegistered = e.buffersRegistered ∧
    e.finalizeFiles.buffersUnregPending = e.buffersUnregPending := by
  unfold finalizeFiles
  split <;> exact ⟨rfl, rfl, rfl, rfl⟩

theorem finalize_rings (e : Engine) : e.finalize.rings = e.rings :=
  (finalizeFiles_same _).1.trans (finalizeBuffers_same e).1

theorem finalize_ringCount (e : Engine) : e.finalize.ringCount = e.ringCount :=
  (finalizeFiles_same _).2.1.trans (finalizeBuffers_same e).2.1

/-- **Finalization takes away exactly the tables that are registered, about to go away and used by
nobody.** -/
theorem finalize_flags (e : Engine) (type : RegType) :
    e.finalize.isRegistered type = (e.isRegistered type && !e.expires type) ∧
      e.finalize.isUnregPending type = (e.isUnregPending type && !e.expires type) := by
  obtain ⟨hrings, hcount, hreg, hpend⟩ := finalizeBuffers_same e
  cases type with
  | buffers =>
      obtain ⟨-, -, hreg', hpend'⟩ := finalizeFiles_same e.finalizeBuffers
      have hkeep : e.finalize.isRegistered .buffers = e.finalizeBuffers.buffersRegistered ∧
          e.finalize.isUnregPending .buffers = e.finalizeBuffers.buffersUnregPending :=
        ⟨hreg', hpend'⟩
      rw [hkeep.1, hkeep.2]
      have hbody : e.finalizeBuffers = if e.expires .buffers then _ else e := rfl
      rw [hbody]
      cases hexp : e.expires .buffers with
      | true => simp
      | false => simp [isRegistered, isUnregPending]
  | files =>
      have hexp : e.finalizeBuffers.expires .files = e.expires .files := by
        simp only [expires, isRegistered, isUnregPending, inflightTotal, fixedFileInflightTotal,
          hrings, hcount, hreg, hpend]
      have hbody : e.finalize = if e.finalizeBuffers.expires .files then _
        else e.finalizeBuffers := rfl
      rw [hbody, hexp]
      cases hexp : e.expires .files with
      | true => simp [isRegistered, isUnregPending]
      | false => simp [isRegistered, isUnregPending, hreg, hpend]

theorem Lifetimes.finalize (h : e.Lifetimes) : e.finalize.Lifetimes := by
  have hsum : ∀ type, e.finalize.pendingUses type = e.pendingUses type := by
    intro type
    rw [Engine.pendingUses, Engine.pendingUses, finalize_rings, finalize_ringCount]
  refine ⟨?_, ?_, ?_, h.agree.finalize, fun type hgone => ?_⟩
  · rw [finalize_rings]
    exact h.booked
  · rw [finalize_rings]
    exact h.depth
  · rw [finalize_ringCount]
    exact h.count
  · obtain ⟨hreg, hpend⟩ := finalize_flags e type
    rw [hgone] at hreg
    rw [hpend, hsum]
    cases hexp : e.expires type with
    | true =>
        have htotal : e.inflightTotal type = 0 := by
          simp only [expires, Bool.and_eq_true, beq_iff_eq] at hexp
          exact hexp.2
        refine ⟨by simp, ?_⟩
        rw [← h.inflightTotal_toNat, htotal]
        rfl
    | false =>
        simp only [hexp, Bool.not_false, Bool.and_true] at hreg
        simpa using h.gone type hreg.symm

theorem Lifetimes.finalize_protects (h : e.Lifetimes) (type : RegType) :
    e.Protects type e.finalize := by
  obtain ⟨hreg, hpend⟩ := finalize_flags e type
  refine ⟨fun hwas hgone => ?_, fun hwas hkept => ?_, fun _ i => ?_⟩
  · rw [hwas, hgone, Bool.true_and] at hreg
    have hexp : e.expires type = true := by simpa using hreg.symm
    simp only [expires, Bool.and_eq_true, beq_iff_eq] at hexp
    refine ⟨hexp.1.2, ?_⟩
    rw [← h.inflightTotal_toNat, hexp.2]
    rfl
  · rw [hkept] at hreg
    have hexp : e.expires type = false := by
      cases hexp : e.expires type with
      | true => simp [hexp] at hreg
      | false => rfl
    rw [hpend, hwas, hexp]
    rfl
  · rw [finalize_rings]

/-- The section of `aura_request_unregister`. -/
theorem markUnregister_same (e : Engine) (type : RegType) :
    (e.markUnregister type).rings = e.rings ∧ (e.markUnregister type).ringCount = e.ringCount ∧
      e.SameTables (e.markUnregister type) ∧
      (∀ t, (e.markUnregister type).isRegistered t = e.isRegistered t) ∧
      ∀ t, e.isUnregPending t = true → (e.markUnregister type).isUnregPending t = true := by
  unfold markUnregister
  split
  · exact ⟨rfl, rfl, .refl e, fun _ => rfl, fun _ => id⟩
  · cases type with
    | buffers => exact ⟨rfl, rfl, ⟨rfl, rfl, rfl, rfl, id⟩, fun t => by cases t <;> rfl,
        fun t h => by cases t <;> first | exact h | rfl⟩
    | files => exact ⟨rfl, rfl, ⟨rfl, rfl, rfl, rfl, id⟩, fun t => by cases t <;> rfl,
        fun t h => by cases t <;> first | exact h | rfl⟩

theorem Lifetimes.mark (h : e.Lifetimes) (marked : RegType) :
    (e.markUnregister marked).Lifetimes := by
  obtain ⟨hrings, hcount, hsame, hreg, -⟩ := markUnregister_same e marked
  refine ⟨?_, ?_, ?_, h.agree.of_same hsame, fun type hgone => ?_⟩
  · rw [hrings]
    exact h.booked
  · rw [hrings]
    exact h.depth
  · rw [hcount]
    exact h.count
  · rw [hreg] at hgone
    obtain ⟨hpend, hnone⟩ := h.gone type hgone
    refine ⟨?_, ?_⟩
    · -- an idle table is not marked
      unfold markUnregister
      split
      · exact hpend
      · next hbusy =>
          cases marked <;> cases type <;> first
            | exact hpend
            | exact absurd (idle_iff.2 ⟨hgone, hpend⟩) hbusy
    · rw [Engine.pendingUses, hrings, hcount]
      exact hnone

theorem mark_protects (e : Engine) (marked type : RegType) :
    e.Protects type (e.markUnregister marked) := by
  obtain ⟨hrings, -, -, hreg, hpend⟩ := markUnregister_same e marked
  refine ⟨fun hwas hgone => ?_, fun hwas _ => hpend type hwas, fun _ i => ?_⟩
  · rw [hreg, hwas] at hgone
    cases hgone
  · rw [hrings]

/-- A registration call that succeeds found its table idle, and raises its flag. -/
structure Registers (e : Engine) (type : RegType) (e' : Engine) : Prop where
  idle : e.idle type = true
  ringCount : e'.ringCount = e.ringCount
  rings : ∀ i, (e.rings i).SameBooks (e'.rings i)
  raised : e'.isRegistered type = true
  others : ∀ t, t ≠ type → e'.isRegistered t = e.isRegistered t ∧
    e'.isUnregPending t = e.isUnregPending t

theorem Lifetimes.register (h : e.Lifetimes) {registered : RegType} (h' : e.Registers registered e')
    (hagree : e'.TablesAgree) : e'.Lifetimes where
  booked i := (h'.rings i).booked (h.booked i)
  depth i := (h'.rings i).max.le.trans (h.depth i)
  count := h'.ringCount.le.trans h.count
  agree := hagree
  gone type hgone := by
    have hne : type ≠ registered := by
      rintro rfl
      exact absurd (hgone.symm.trans h'.raised) Bool.false_ne_true
    obtain ⟨hreg, hpend⟩ := h'.others type hne
    rw [hreg] at hgone
    have hwas := h.gone type hgone
    refine ⟨hpend.trans hwas.1, ?_⟩
    rw [← hwas.2, Engine.pendingUses, Engine.pendingUses, h'.ringCount]
    exact Finset.sum_congr rfl fun i _ => (h'.rings i).pendingUses type

theorem Registers.protects {registered : RegType} (h : e.Registers registered e') (type : RegType) :
    e.Protects type e' := by
  obtain ⟨hreg, hpend⟩ := idle_iff.1 h.idle
  by_cases hne : type = registered
  · subst hne
    refine ⟨fun hwas => ?_, fun hwas => ?_, fun hwas => ?_⟩
    · exact absurd (hreg.symm.trans hwas) Bool.false_ne_true
    · exact absurd (hpend.symm.trans hwas) Bool.false_ne_true
    · exact absurd (hpend.symm.trans hwas) Bool.false_ne_true
  · obtain ⟨hreg', hpend'⟩ := h.others type hne
    refine ⟨fun hwas hgone => ?_, fun hwas _ => hpend'.trans hwas, fun _ i => ?_⟩
    · exact absurd (hgone.symm.trans (hreg'.trans hwas)) Bool.false_ne_true
    · exact ((h.rings i).pendingUses type).le

theorem FlagsKept.idle (h : e.FlagsKept e') (type : RegType) : e'.idle type = e.idle type := by
  rw [Bool.eq_iff_iff, idle_iff, idle_iff, isRegistered_congr h.flags, isUnregPending_congr h.flags]

/-- How a registration call looks from outside. -/
theorem registers_of_flags {mid after : Engine} (hidle : e.idle type = true)
    (h : e.FlagsKept mid) (h' : after.FlagsKept e') (hrings : after.rings = mid.rings)
    (hcount : after.ringCount = mid.ringCount) (hraised : after.isRegistered type = true)
    (hothers : ∀ t, t ≠ type → after.isRegistered t = mid.isRegistered t ∧
      after.isUnregPending t = mid.isUnregPending t) : e.Registers type e' where
  idle := hidle
  ringCount := h'.ringCount.trans (hcount.trans h.ringCount)
  rings i := (h.rings i).trans (hrings ▸ h'.rings i)
  raised := (isRegistered_congr h'.flags type).trans hraised
  others t ht := ⟨(isRegistered_congr h'.flags t).trans ((hothers t ht).1.trans
      (isRegistered_congr h.flags t)), (isUnregPending_congr h'.flags t).trans
      ((hothers t ht).2.trans (isUnregPending_congr h.flags t))⟩

end Engine

theorem auraRegisterBuffers_flags {iovs : List Iovec} {n : ℤ}
    (h : auraRegisterBuffers env iovs w = .ret n w') :
    (n = -1 ∧ w.engine.FlagsKept w'.engine) ∨ n = 0 ∧ w.engine.Registers .buffers w'.engine := by
  refine (registerTable_flags (fun _ _ => .of_eq rfl rfl rfl) (fun _ _ _ => .of_eq rfl rfl rfl)
    (fun hkept => hkept.idle _) h).imp_right ?_
  rintro ⟨hn, hidle, e, hkept, hset⟩
  refine ⟨hn, Engine.registers_of_flags hidle hkept hset rfl rfl rfl fun t ht => ?_⟩
  cases t with
  | buffers => exact absurd rfl ht
  | files => exact ⟨rfl, rfl⟩

theorem auraRegisterFiles_flags {fds : List ℤ} {n : ℤ}
    (h : auraRegisterFiles env fds w = .ret n w') :
    (n = -1 ∧ w.engine.FlagsKept w'.engine) ∨ n = 0 ∧ w.engine.Registers .files w'.engine := by
  refine (registerTable_flags (fun _ _ => .of_eq rfl rfl rfl) (fun _ _ _ => .of_eq rfl rfl rfl)
    (fun hkept => hkept.idle _) h).imp_right ?_
  rintro ⟨hn, hidle, e, hkept, hset⟩
  refine ⟨hn, Engine.registers_of_flags hidle hkept hset rfl rfl rfl fun t ht => ?_⟩
  cases t with
  | buffers => exact ⟨rfl, rfl⟩
  | files => exact absurd rfl ht

/-! ## The calls that unregister -/

theorem Engine.finalize_regWriter (e : Engine) (b : Bool) :
    Engine.finalize { e with regWriter := b } = { e.finalize with regWriter := b } := by
  have hbuf : Engine.finalizeBuffers { e with regWriter := b } =
      { e.finalizeBuffers with regWriter := b } := by
    unfold Engine.finalizeBuffers
    split <;> split <;> first | rfl | contradiction
  have hfile : ∀ e : Engine, Engine.finalizeFiles { e with regWriter := b } =
      { e.finalizeFiles with regWriter := b } := by
    intro e
    unfold Engine.finalizeFiles
    split <;> split <;> first | rfl | contradiction
  rw [Engine.finalize, hbuf, hfile]
  rfl

theorem Engine.finalize_unlocked {e : Engine} (h : e.regWriter = false) :
    e.finalize.regWriter = false := by
  have heq := e.finalize_regWriter false
  rw [← h] at heq
  exact (congrArg Engine.regWriter heq).trans h

/-- `finalize_deferred_unregistration` is the one section. -/
theorem finalizeDeferredUnregistration_eq_ret {n : ℤ}
    (h : finalizeDeferredUnregistration w = .ret n w') : w'.engine = w.engine.finalize := by
  obtain ⟨_, w₁, hlock, h⟩ := bind_eq_ret.mp h
  obtain ⟨hfree, -, rfl⟩ := regWrlock_eq_ret hlock
  obtain ⟨-, rfl⟩ := Outcome.ret.inj h
  change ({ Engine.finalize { w.engine with regWriter := true } with regWriter := false } :
    Engine) = _
  rw [Engine.finalize_regWriter]
  have hkept := Engine.finalize_unlocked hfree
  cases hfin : w.engine.finalize
  rw [hfin] at hkept
  cases hkept
  rfl

/-- **`aura_request_unregister` is its two sections**, one after the other. -/
theorem auraRequestUnregister_run {n : ℤ} (h : auraRequestUnregister type w = .ret n w') :
    Run registrationSystem w.engine [.mark type, .finalize] w'.engine ∨ w'.engine = w.engine := by
  obtain ⟨_, w₁, hlock, h⟩ := bind_eq_ret.mp h
  obtain ⟨hfree, -, rfl⟩ := regWrlock_eq_ret hlock
  have hback : ({ w.engine with regWriter := false } : Engine) = w.engine := by
    rw [← hfree]
  rw [Prog.bind_apply, Prog.read_apply, Outcome.bind_ret, Prog.ite_apply] at h
  split at h
  · obtain ⟨-, rfl⟩ := Outcome.ret.inj h
    exact .inr hback
  · next hbusy =>
      obtain ⟨_, w₂, hmark, h⟩ := bind_eq_ret.mp h
      obtain ⟨-, rfl⟩ := Outcome.ret.inj hmark
      obtain ⟨_, w₃, hunlock, h⟩ := bind_eq_ret.mp h
      obtain ⟨-, rfl⟩ := Outcome.ret.inj hunlock
      rw [finalizeDeferredUnregistration_eq_ret h]
      have hmarked : w.engine.markUnregister type = w.engine.requestUnregister type := by
        have hsame : w.engine.idle type = false := by
          have hwas : Engine.idle { w.engine with regWriter := true } type =
              w.engine.idle type := by
            cases type <;> rfl
          rw [← hwas]
          exact Bool.eq_false_of_not_eq_true hbusy
        rw [Engine.markUnregister, hsame]
        rfl
      have hengine : ({ Engine.requestUnregister { w.engine with regWriter := true } type with
          regWriter := false } : Engine) = w.engine.markUnregister type := by
        rw [hmarked]
        cases type with
        | buffers => exact congrArg (Engine.requestUnregister · .buffers) hback
        | files => exact congrArg (Engine.requestUnregister · .files) hback
      have hfirst : Run registrationSystem w.engine [.mark type] (w.engine.markUnregister type) :=
        .single (.mark _ _)
      have hboth := hfirst.snoc (.finalize _)
      rw [← hengine] at hboth
      exact .inl hboth

/-- `maybe_finalize_deferred_unregistration` is that section, or nothing. -/
theorem maybeFinalizeDeferredUnregistration_run {n : ℤ}
    (h : maybeFinalizeDeferredUnregistration w = .ret n w') :
    Run registrationSystem w.engine [.finalize] w'.engine ∨ w'.engine = w.engine := by
  unfold maybeFinalizeDeferredUnregistration at h
  rw [Prog.bind_apply, Prog.read_apply, Outcome.bind_ret, Prog.ite_apply] at h
  split at h
  · obtain ⟨-, rfl⟩ := Outcome.ret.inj h
    exact .inr rfl
  · obtain ⟨_, w₁, hlock, h⟩ := bind_eq_ret.mp h
    have hback : Prog.when true regRdunlock w₁ = .ret () w := by
      rw [regRdlock_eq_ret hlock]
      exact regRdunlock_withReader true
    rw [Prog.bind_apply, Prog.read_apply, Outcome.bind_ret] at h
    obtain ⟨_, w₂, hunlock, h⟩ := bind_eq_ret.mp h
    obtain ⟨-, rfl⟩ := Outcome.ret.inj (hback.symm.trans hunlock)
    rw [Prog.ite_apply] at h
    split at h
    · obtain ⟨-, rfl⟩ := Outcome.ret.inj h
      exact .inr rfl
    · rw [finalizeDeferredUnregistration_eq_ret h]
      exact .inl (.single (.finalize _))

/-! ## The result -/

namespace RegStep

variable {e e' : Engine} {l : RegEvent}

/-- **Every step keeps the invariant and protects both tables.** -/
theorem lifetimes (hstep : RegStep e l e') (h : e.Lifetimes) :
    e'.Lifetimes ∧ ∀ type, e.Protects type e' := by
  have hkeep : ∀ {e'}, e.Enlists e' → e'.TablesAgree →
      e'.Lifetimes ∧ ∀ type, e.Protects type e' :=
    fun henlists hagree => ⟨h.of_enlists henlists hagree, henlists.protects⟩
  cases hstep with
  | submit hfixed hquiet hs =>
      have hagree := (@apiStable_agree _).submission
        (fun q res => (@apiStable_agree _).callback _ q res) _ _ _ _ _ hs h.agree
      exact hkeep (.of_world (auraSubmit_books hfixed h.booked hquiet hs).1) hagree
  | cancel hs =>
      exact hkeep (.of_world (auraCancel_books h.booked hs))
        ((@stable_agree _).auraCancel _ _ _ _ hs h.agree)
  | link hs =>
      exact hkeep (.of_world (.of_settled ((auraRequestSetLinked_books _).ensures _ _ _ hs)
        h.booked)) ((@stable_agree calmEnv).link _ _ _ _ hs h.agree)
  | ring i hs =>
      have hset : (World.start e).Settled ((World.start e).setRing i _) := .of_setRing hs.settles
      exact hkeep (.of_world (.of_settled hset h.booked)) (h.agree.of_same ⟨rfl, rfl, rfl, rfl, id⟩)
  | engine hframe =>
      have hmove : QuietMove (World.start e) { World.start e with engine := e' } := .engine hframe
      exact hkeep ((Engine.FlagsKept.of_same (.of_move hmove)).enlists h.booked)
        (h.agree.of_same hframe.sameTables)
  | registerBuffers hs =>
      have hagree := (auraRegisterBuffers_spec h.agree hs).1
      rcases auraRegisterBuffers_flags hs with ⟨-, hflags⟩ | ⟨-, hreg⟩
      · exact hkeep (hflags.enlists h.booked) hagree
      · exact ⟨h.register hreg hagree, hreg.protects⟩
  | registerFiles hs =>
      have hagree := (auraRegisterFiles_spec h.agree hs).1
      rcases auraRegisterFiles_flags hs with ⟨-, hflags⟩ | ⟨-, hreg⟩
      · exact hkeep (hflags.enlists h.booked) hagree
      · exact ⟨h.register hreg hagree, hreg.protects⟩
  | updateFile hs =>
      exact hkeep ((auraUpdateFile_flags _ _ _ _ _ hs).enlists h.booked)
        (auraUpdateFile_spec h.agree hs).1
  | mark _ type => exact ⟨h.mark type, Engine.mark_protects e type⟩
  | finalize => exact ⟨h.finalize, h.finalize_protects⟩

/-- A request that is accepted uses a table only if new operations may. -/
theorem admits {p : ReqPtr} (hstep : RegStep e (.submit (some p)) e') (h : e.Lifetimes) :
    ((e'.rings p.1).requests p.2).pending = true ∧
      ∀ type, ((e'.rings p.1).requests p.2).uses type = true → e.Usable type := by
  cases hstep with
  | submit hfixed hquiet hs =>
      have hentry := (auraSubmit_books hfixed h.booked hquiet hs).2 p rfl
      exact ⟨hentry.pending, hentry.usable⟩

/-- A registration that succeeds found its table idle. -/
theorem registers (hstep : RegStep e (.register type 0) e') : e.Registers type e' := by
  cases hstep with
  | registerBuffers hs =>
      rcases auraRegisterBuffers_flags hs with ⟨hn, -⟩ | ⟨-, hreg⟩
      · cases hn
      · exact hreg
  | registerFiles hs =>
      rcases auraRegisterFiles_flags hs with ⟨hn, -⟩ | ⟨-, hreg⟩
      · cases hn
      · exact hreg

end RegStep

/-- The invariant holds in every reachable state. -/
theorem lifetimes_of_reachable {e : Engine} (h : Reachable registrationSystem e) : e.Lifetimes := by
  refine Reachable.invariant ?_ (fun e l e' he hstep => (hstep.lifetimes he).1) h
  rintro e ⟨o, addr, sqEntries, ho, rfl⟩
  exact Engine.lifetimes_create ho addr sqEntries

/-- **Deferred unregistration.** After any interleaving of the steps, for each kind of table: the
total is the number of pending requests that use it; a table that is gone is cleared and used by
nobody; and every next step frees it only when its unregistration is pending and nobody uses it,
keeps the unregistration pending until then without new uses, accepts a request that uses it only
when it is registered and not about to go, and registers a new one only after the old one is
cleared. -/
theorem deferred_unregistration {e : Engine} (h : Reachable registrationSystem e)
    (type : RegType) :
    (e.inflightTotal type).toNat = e.pendingUses type ∧
      (e.isRegistered type = false → e.pendingUses type = 0 ∧ e.Cleared type) ∧
      ∀ l e', RegStep e l e' → e.Protects type e' ∧
        (∀ p, l = .submit (some p) → ((e'.rings p.1).requests p.2).pending = true ∧
          (((e'.rings p.1).requests p.2).uses type = true → e.Usable type)) ∧
        (l = .register type 0 → e.isRegistered type = false ∧ e.isUnregPending type = false ∧
          e.Cleared type) := by
  have hinv := lifetimes_of_reachable h
  refine ⟨hinv.inflightTotal_toNat type, fun hgone =>
    ⟨(hinv.gone type hgone).2, hinv.agree.cleared hgone⟩, fun l e' hstep => ?_⟩
  refine ⟨(hstep.lifetimes hinv).2 type, ?_, ?_⟩
  · rintro p rfl
    obtain ⟨hpending, huses⟩ := hstep.admits hinv
    exact ⟨hpending, huses type⟩
  · rintro rfl
    obtain ⟨hreg, hpend⟩ := Engine.idle_iff.1 hstep.registers.idle
    exact ⟨hreg, hpend, hinv.agree.cleared hreg⟩

/-- A read into a registered buffer is in flight when the buffers are unregistered: no step frees
them now. -/
theorem deferred_unregistration_waits : ∃ e, Reachable registrationSystem e ∧
    e.isUnregPending .buffers = true ∧ e.pendingUses .buffers = 1 ∧
    ∀ l e', RegStep e l e' → e'.isRegistered .buffers = true := by
  have hnew : Reachable registrationSystem (auraCreate { queueDepth := 4 } 4096 4) :=
    .of_init ⟨{ queueDepth := 4 }, 4096, 4, ⟨by decide, by decide⟩, rfl⟩
  obtain ⟨w₁, o, w₂, hreg, hsubmit, hquiet, hpend, huses, hthere⟩ : ∃ w₁ o w₂,
      auraRegisterBuffers calmEnv [⟨0, 64⟩] (.start (auraCreate { queueDepth := 4 } 4096 4)) =
        .ret 0 w₁ ∧
      auraSubmit calmEnv (callback calmEnv 0) (.read 3 (.registered 0 0) 16 0) {} w₁ =
        .ret o w₂ ∧ w₂.callbacks = w₁.callbacks ∧
      (w₂.engine.markUnregister .buffers).isUnregPending .buffers = true ∧
      (w₂.engine.markUnregister .buffers).pendingUses .buffers = 1 ∧
      (w₂.engine.markUnregister .buffers).isRegistered .buffers = true :=
    ⟨_, _, _, rfl, rfl, rfl, rfl, rfl, rfl⟩
  have hmarked : Reachable registrationSystem (w₂.engine.markUnregister .buffers) :=
    ((hnew.step (.registerBuffers hreg)).step (.submit rfl hquiet hsubmit)).step
      (.mark w₂.engine .buffers)
  refine ⟨_, hmarked, hpend, huses, fun l e' hstep => ?_⟩
  obtain ⟨-, -, hnext⟩ := deferred_unregistration hmarked .buffers
  by_contra hgone
  have hfreed := ((hnext l e' hstep).1.freed hthere (Bool.eq_false_of_not_eq_true hgone)).2
  rw [huses] at hfreed
  cases hfreed

end Aura
