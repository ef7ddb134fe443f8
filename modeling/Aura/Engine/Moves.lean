import Aura.Engine.Events

/-!
# What library calls are made of

* `QuietMove` — the atomic changes that take and release nothing: posted completions, those of ring
  selection, and what else only the calling thread sees.
* `Move` — these, and the changes of slots, locks and counters. Moves are the abstract model of this
  layer: between its submissions, its flushes and its callbacks, every call is a sequence of them.
* `Quietly K` and `Moving K` — a property of programs that compositions keep and that (quiet) moves
  have. The lemmas below them follow the program text, one for each function.

The two ways to such a property are a preorder on worlds that contains the moves
(`Moving.of_keeps`, `Moving.of_ensures`).
-/

namespace Aura

open Lib Lib.Prog

/-! ## Moves of a ring -/

/-- An atomic change of a ring that takes and releases nothing. -/
inductive RingQuiet (r : RingCtx) : RingCtx → Prop
  | account (k : ℤ) : RingQuiet r (r.accountSubmit k)
  | post (k : ℕ) (res : ℤ) : RingQuiet r (r.kernelPost k res)
  | own : RingQuiet r { r with ownerCount := r.ownerCount + 1 }
  | singleThread (b : Bool) : RingQuiet r { r with singleThread := b }
  | enable : RingQuiet r { r with needsEnable := false }

/-- An atomic change of a ring. -/
inductive RingMove (r : RingCtx) : RingCtx → Prop
  | quiet {r' : RingCtx} (h : RingQuiet r r') : RingMove r r'
  | lock {st : Bool} {r' : RingCtx} (h : r.lock = some (st, r')) : RingMove r r'
  | unlock (st : Bool) : RingMove r (r.unlock st)
  | cqLock {st : Bool} {r' : RingCtx} (h : r.cqLock = some (st, r')) : RingMove r r'
  | cqUnlock (st : Bool) : RingMove r (r.cqUnlock st)
  | get {i : ℕ} {r' : RingCtx} (h : ringGetRequest r = some (i, r')) : RingMove r r'
  | put (i : ℕ) : RingMove r (ringPutRequest r i)
  | fill (i : ℕ) (q : Request) (h : (r.requests i).SameSlot q) : RingMove r (r.setRequest i q)
  | reap : RingMove r r.cqeSeen
  | process (now : ℤ) (req : Option ℕ) (res : ℤ) : RingMove r (processCompletion now r req res).2.2
  | retireBatch (es : List RetireEntry) : RingMove r (ringRetireBatch r es)
  | retireInline (e : RetireEntry) : RingMove r (ringRetireInline r e)
  | fixedBuf (d : UInt32) : RingMove r { r with fixedBufInflight := d }
  | fixedFile (d : UInt32) : RingMove r { r with fixedFileInflight := d }

/-- What no move of a ring changes: the prepared and the accepted entries, and the sizes the ring
was set up with. -/
structure RingCtx.Frame (r r' : RingCtx) : Prop where
  sq : r'.sq = r.sq
  handed : r'.handed = r.handed
  sqEntries : r'.sqEntries = r.sqEntries
  maxRequests : r'.maxRequests = r.maxRequests
  pollBatchSize : r'.pollBatchSize = r.pollBatchSize
  ringInitialized : r'.ringInitialized = r.ringInitialized
  ringIdx : r'.ringIdx = r.ringIdx

/-- The completions a ring can still produce: those that are ready, and those of the entries that
the kernel holds. -/
def RingCtx.load (r : RingCtx) : ℕ := r.inKernel.length + r.cq.length

/-- No move of a ring changes its frame, and none adds to its load. -/
theorem RingQuiet.frame_load {r r' : RingCtx} (h : RingQuiet r r') :
    r.Frame r' ∧ r'.load ≤ r.load := by
  cases h with
  | post k res =>
      unfold RingCtx.kernelPost
      split
      · exact ⟨⟨rfl, rfl, rfl, rfl, rfl, rfl, rfl⟩, le_rfl⟩
      · next sqe hk =>
          have hlt := (List.getElem?_eq_some_iff.mp hk).1
          refine ⟨⟨rfl, rfl, rfl, rfl, rfl, rfl, rfl⟩, ?_⟩
          simp only [RingCtx.load, List.length_eraseIdx_of_lt hlt, List.length_append,
            List.length_singleton]
          omega
  | _ => exact ⟨⟨rfl, rfl, rfl, rfl, rfl, rfl, rfl⟩, le_rfl⟩

theorem RingMove.frame_load {r r' : RingCtx} (h : RingMove r r') :
    r.Frame r' ∧ r'.load ≤ r.load := by
  cases h with
  | quiet h => exact h.frame_load
  | lock h =>
      rcases RingCtx.lock_eq_some.mp h with ⟨-, -, rfl⟩ | ⟨-, -, -, rfl⟩ <;>
        exact ⟨⟨rfl, rfl, rfl, rfl, rfl, rfl, rfl⟩, le_rfl⟩
  | unlock st => cases st <;> exact ⟨⟨rfl, rfl, rfl, rfl, rfl, rfl, rfl⟩, le_rfl⟩
  | cqLock h =>
      unfold RingCtx.cqLock at h
      split_ifs at h <;> cases h <;> exact ⟨⟨rfl, rfl, rfl, rfl, rfl, rfl, rfl⟩, le_rfl⟩
  | cqUnlock st => cases st <;> exact ⟨⟨rfl, rfl, rfl, rfl, rfl, rfl, rfl⟩, le_rfl⟩
  | get h =>
      obtain ⟨rest, -, rfl⟩ := ringGetRequest_eq_some.mp h
      exact ⟨⟨rfl, rfl, rfl, rfl, rfl, rfl, rfl⟩, le_rfl⟩
  | put i =>
      obtain ⟨stack, reqs, heq⟩ := ringPutRequest_eq r i
      rw [heq]
      exact ⟨⟨rfl, rfl, rfl, rfl, rfl, rfl, rfl⟩, le_rfl⟩
  | reap =>
      refine ⟨⟨rfl, rfl, rfl, rfl, rfl, rfl, rfl⟩, ?_⟩
      simp [RingCtx.load, RingCtx.cqeSeen]
  | process now req res =>
      obtain ⟨a, b, f, reqs, heq⟩ := processCompletion_eq now r req res
      rw [heq]
      exact ⟨⟨rfl, rfl, rfl, rfl, rfl, rfl, rfl⟩, le_rfl⟩
  | retireBatch es =>
      obtain ⟨stack, reqs, ops, bytes, pending, heq⟩ := ringRetireBatch_eq r es
      rw [heq]
      exact ⟨⟨rfl, rfl, rfl, rfl, rfl, rfl, rfl⟩, le_rfl⟩
  | retireInline e =>
      obtain ⟨stack, reqs, ops, bytes, pending, heq⟩ := ringRetireBatch_eq r [e]
      rw [ringRetireInline_eq_batch, heq]
      exact ⟨⟨rfl, rfl, rfl, rfl, rfl, rfl, rfl⟩, le_rfl⟩
  | _ => exact ⟨⟨rfl, rfl, rfl, rfl, rfl, rfl, rfl⟩, le_rfl⟩

/-! ## Moves of the world -/

/-- The registration state of the engine: its flags, its tables and those of the kernel. -/
def Engine.registration (e : Engine) :=
  (e.buffersRegistered, e.filesRegistered, e.buffersUnregPending, e.filesUnregPending,
    e.registeredBuffers, e.registeredFiles, e.kernelBuffers, e.kernelFiles, e.rollbackFailed)

/-- The engine changed outside its rings: its configuration is the same, and a latched error
stays. -/
structure Engine.RegFrame (e e' : Engine) : Prop where
  rings : e'.rings = e.rings
  ringCount : e'.ringCount = e.ringCount
  addr : e'.addr = e.addr
  ringsBase : e'.ringsBase = e.ringsBase
  ringSelect : e'.ringSelect = e.ringSelect
  singleThread : e'.singleThread = e.singleThread
  shuttingDown : e'.shuttingDown = e.shuttingDown
  latched : e.fatalSubmitErrno ≠ 0 → e'.fatalSubmitErrno = e.fatalSubmitErrno

/-- The engine changed outside its rings, its registration state and the registration lock. -/
structure Engine.Frame (e e' : Engine) : Prop extends e.RegFrame e' where
  regReaders : e'.regReaders = e.regReaders
  regWriter : e'.regWriter = e.regWriter
  registration : e'.registration = e.registration

/-- The link state, the last ring and the callback depth of a thread are the same, and its last
entry is at most forgotten. -/
structure Tls.Frame (t t' : Tls) : Prop where
  depth : t'.callbackContextDepth = t.callbackContextDepth
  linkRing : t'.linkRing = t.linkRing
  linkDepth : t'.linkDepth = t.linkDepth
  lastRing : t'.lastRing = t.lastRing
  lastSqe : t'.lastSqe = t.lastSqe ∨ t'.lastSqe = none

/-- An atomic change of the world that takes and releases nothing. -/
inductive QuietMove (w : World) : World → Prop
  | ring (i : ℕ) {r' : RingCtx} (h : RingQuiet (w.ring i) r') : QuietMove w (w.setRing i r')
  | engine {e' : Engine} (h : w.engine.Frame e') : QuietMove w { w with engine := e' }
  | tls {t : Tls} (h : w.tls.Frame t) : QuietMove w { w with tls := t }
  | tick : QuietMove w { w with clock := w.clock + 1 }

/-- An atomic change of the world. -/
inductive Move (w : World) : World → Prop
  | quiet {w' : World} (h : QuietMove w w') : Move w w'
  | ring (i : ℕ) {r' : RingCtx} (h : RingMove (w.ring i) r') : Move w (w.setRing i r')
  | tls {t : Tls} (hdepth : t.callbackContextDepth = w.tls.callbackContextDepth)
      (hsqe : t.lastSqe = w.tls.lastSqe ∨ t.lastSqe = none) : Move w { w with tls := t }
  | mark (m : Engine × Tls) : Move w { w with mark := m }

/-- Sequences of quiet moves. -/
abbrev Quiet : World → World → Prop := Relation.ReflTransGen QuietMove

/-- Sequences of moves. -/
abbrev Moves : World → World → Prop := Relation.ReflTransGen Move

theorem Quiet.moves {w w' : World} (h : Quiet w w') : Moves w w' :=
  Relation.ReflTransGen.mono (fun _ _ => Move.quiet) _ _ h

/-- A preorder that contains single steps contains their sequences. -/
theorem reflTransGen_le {M R : World → World → Prop} (hrefl : ∀ w, R w w)
    (htrans : ∀ {w w' w''}, R w w' → R w' w'' → R w w'') (hM : ∀ {w w'}, M w w' → R w w')
    {w w' : World} (h : Relation.ReflTransGen M w w') : R w w' := by
  induction h with
  | refl => exact hrefl _
  | tail _ hstep ih => exact htrans ih (hM hstep)

/-- A property of programs. -/
abbrev ProgProp := (α : Type) → AuraM α → Prop

/-- A property that programs of quiet moves have. -/
structure Quietly (K : ProgProp) : Prop extends Composes K where
  quiet : Steps Quiet K

/-- A property that programs of moves have. -/
structure Moving (K : ProgProp) : Prop extends Quietly K where
  moves : Steps Moves K

section

variable {R : World → World → Prop} (hrefl : ∀ w, R w w)
  (htrans : ∀ {w w' w''}, R w w' → R w' w'' → R w w'')

include hrefl htrans

theorem Quietly.of_keeps (hM : ∀ {w w'}, QuietMove w w' → R w w') :
    Quietly fun (α : Type) (p : AuraM α) => Keeps R p where
  toComposes := Keeps.composes hrefl htrans
  quiet := Keeps.steps hrefl (reflTransGen_le hrefl htrans hM)

theorem Quietly.of_ensures (hM : ∀ {w w'}, QuietMove w w' → R w w') :
    Quietly fun (α : Type) (p : AuraM α) => Ensures R p where
  toComposes := Ensures.composes hrefl htrans
  quiet := Ensures.steps (reflTransGen_le hrefl htrans hM)

theorem Moving.of_keeps (hM : ∀ {w w'}, Move w w' → R w w') :
    Moving fun (α : Type) (p : AuraM α) => Keeps R p where
  toQuietly := .of_keeps hrefl htrans fun h => hM (.quiet h)
  moves := Keeps.steps hrefl (reflTransGen_le hrefl htrans hM)

theorem Moving.of_ensures (hM : ∀ {w w'}, Move w w' → R w w') :
    Moving fun (α : Type) (p : AuraM α) => Ensures R p where
  toQuietly := .of_ensures hrefl htrans fun h => hM (.quiet h)
  moves := Ensures.steps (reflTransGen_le hrefl htrans hM)

end

namespace Quietly

variable {env : Env} {K : ProgProp} {α : Type}

section

variable (h : Quietly K)

include h

/-! ## Primitive programs -/

theorem readRing (i : ℕ) (f : RingCtx → α) : K α (Aura.readRing i f) := h.read _

theorem onRing {i : ℕ} {f : RingCtx → RingCtx} (hf : ∀ r, RingQuiet r (f r)) :
    K Unit (Aura.onRing i f) := h.quiet.modify fun _ => .single (.ring i (hf _))

theorem onEngine {f : Engine → Engine} (hf : ∀ e : Engine, e.Frame (f e)) :
    K Unit (Aura.onEngine f) := h.quiet.modify fun _ => .single (.engine (hf _))

theorem onTls {f : Tls → Tls} (hf : ∀ t : Tls, t.Frame (f t)) : K Unit (Aura.onTls f) :=
  h.quiet.modify fun _ => .single (.tls (hf _))

theorem setErrno (e : ℤ) : K Unit (Aura.setErrno e) :=
  h.onTls fun _ => ⟨rfl, rfl, rfl, rfl, .inl rfl⟩

theorem getErrno : K ℤ Aura.getErrno := h.read _

end

/-- A posted completion is a move of its ring and, perhaps, a signal. -/
theorem post (w : World) (p : ℕ × ℕ × ℤ) : Quiet w (w.post p) := by
  unfold World.post
  split
  · split
    · exact .tail (.single (.ring p.1 (.post p.2.1 p.2.2)))
        (.engine ⟨⟨rfl, rfl, rfl, rfl, rfl, rfl, rfl, fun _ => rfl⟩, rfl, rfl, rfl⟩)
    · exact .single (.ring p.1 (.post p.2.1 p.2.2))
  · exact .refl

theorem posts (ps : List (ℕ × ℕ × ℤ)) (w : World) : Quiet w (ps.foldl World.post w) := by
  induction ps generalizing w with
  | nil => exact .refl
  | cons p ps ih => exact (post w p).trans (ih _)

end Quietly

@[simp] theorem World.post_clock (w : World) (p : ℕ × ℕ × ℤ) : (w.post p).clock = w.clock := by
  unfold World.post
  split
  · split <;> rfl
  · rfl

@[simp] theorem World.posts_clock (ps : List (ℕ × ℕ × ℤ)) (w : World) :
    (ps.foldl World.post w).clock = w.clock := by
  induction ps generalizing w with
  | nil => rfl
  | cons p ps ih => rw [List.foldl_cons, ih, World.post_clock]

/-- The kernel's turn is a sequence of quiet moves. -/
theorem World.quiet_turn (env : Env) (w : World) : Quiet w (w.turn env) := by
  have hmove := QuietMove.tick (w := (env.posts w.clock).foldl World.post w)
  rw [World.posts_clock] at hmove
  exact (Quietly.posts (env.posts w.clock) w).tail hmove

/-- Latching keeps a latched error. -/
theorem Engine.latch_frame (e : Engine) (err : ℤ) : e.Frame (e.latch err) := by
  unfold Engine.latch
  split
  · next h0 => exact ⟨⟨rfl, rfl, rfl, rfl, rfl, rfl, rfl, fun h => absurd h0 h⟩, rfl, rfl, rfl⟩
  · exact ⟨⟨rfl, rfl, rfl, rfl, rfl, rfl, rfl, fun _ => rfl⟩, rfl, rfl, rfl⟩

namespace Quietly

variable {env : Env} {K : ProgProp} {α : Type}

section

variable (h : Quietly K)

include h

theorem kernelTurn : K Unit (Aura.kernelTurn env) := h.quiet.modify (World.quiet_turn env)

/-! ## The latch -/

theorem latchFatalSubmitErrno (err : ℤ) : K Unit (Aura.latchFatalSubmitErrno err) :=
  h.onEngine fun e => e.latch_frame err

theorem checkFatalSubmitErrno : K Bool Aura.checkFatalSubmitErrno :=
  h.bind (h.read _) fun _ => h.ite (h.andThen (h.setErrno _) (h.pure _)) (h.pure _)

theorem drainEventfd : K Unit Aura.drainEventfd :=
  h.onEngine fun _ => ⟨⟨rfl, rfl, rfl, rfl, rfl, rfl, rfl, fun _ => rfl⟩, rfl, rfl, rfl⟩

/-! ## Ring selection -/

theorem nextRing : K ℕ Aura.nextRing :=
  h.quiet.update fun _ => .single
    (.engine ⟨⟨rfl, rfl, rfl, rfl, rfl, rfl, rfl, fun _ => rfl⟩, rfl, rfl, rfl⟩)

theorem selectRingCpuLocal : K ℕ (Aura.selectRingCpuLocal env) := by
  refine h.andThen (h.onTls fun _ => ⟨rfl, rfl, rfl, rfl, .inl rfl⟩) ?_
  refine h.bind (h.read _) fun clock => h.andThen (h.onTls fun t => ?_) ?_
  · split <;> exact ⟨rfl, rfl, rfl, rfl, .inl rfl⟩
  · exact h.bind (h.read _) fun w => h.ite (h.pure _)
      (h.andThen (h.onTls fun _ => ⟨rfl, rfl, rfl, rfl, .inl rfl⟩) (h.pure _))

theorem xorshiftTls : K UInt32 (Aura.xorshiftTls env) :=
  h.quiet.update fun _ => .single (.tls ⟨rfl, rfl, rfl, rfl, .inl rfl⟩)

theorem adaptiveSpill (i : ℕ) : K ℕ (Aura.adaptiveSpill env i) := by
  refine h.andThen
    (h.onEngine fun _ => ⟨⟨rfl, rfl, rfl, rfl, rfl, rfl, rfl, fun _ => rfl⟩, rfl, rfl, rfl⟩) ?_
  refine h.bind h.xorshiftTls fun x => h.bind (h.read _) fun rc => ?_
  refine h.bind (h.ite h.xorshiftTls (h.pure _)) fun y => ?_
  exact h.bind (h.readRing _ _) fun pa => h.bind (h.readRing _ _) fun pb => h.pure _

theorem selectRingAdaptive : K ℕ (Aura.selectRingAdaptive env) :=
  h.bind h.selectRingCpuLocal fun i => h.bind (h.readRing i _) fun _ => h.bind (h.read _) fun _ =>
    h.ite (h.adaptiveSpill i) (h.pure _)

theorem ringEnable (i : ℕ) : K Unit (Aura.ringEnable env i) := by
  refine h.bind (h.readRing i _) fun r => h.bind (h.read _) fun clock => ?_
  refine h.ite (h.setErrno _) (h.ite (h.pure _) ?_)
  cases env.enable clock with
  | none => exact h.onRing fun _ => .enable
  | some e => exact h.setErrno _

theorem claimFirst (i : ℕ) : K Unit (Aura.claimFirst env i) :=
  h.bind (h.readRing i _) fun _ => h.andThen (h.when (h.ringEnable i))
    (h.onRing fun _ => .singleThread true)

theorem claimShared (i : ℕ) : K Unit (Aura.claimShared i) :=
  h.andThen (h.onRing fun _ => .singleThread false) (h.bind (h.readRing i _) fun _ =>
    h.ite h.block (h.pure _))

theorem rememberRing (i : ℕ) : K Unit (Aura.rememberRing i) :=
  h.quiet.modify fun _ => .single (.tls ⟨rfl, rfl, rfl, rfl, .inl rfl⟩)

theorem selectRingThreadLocal : K ℕ (Aura.selectRingThreadLocal env) := by
  refine h.bind (h.read _) fun owned => ?_
  cases owned with
  | some i => exact h.pure _
  | none =>
      refine h.andThen (h.onTls fun _ => ⟨rfl, rfl, rfl, rfl, .inl rfl⟩) ?_
      refine h.bind h.nextRing fun i => h.bind (h.readRing i _) fun prev => ?_
      refine h.andThen (h.onRing fun _ => .own) ?_
      exact h.andThen (h.ite (h.claimFirst i) (h.claimShared i))
        (h.andThen (h.rememberRing i) (h.pure _))

theorem selectRing : K ℕ (Aura.selectRing env) := by
  refine h.bind (h.read _) fun e => h.ite (h.pure _) ?_
  cases e.ringSelect with
  | threadLocal => exact h.selectRingThreadLocal
  | roundRobin => exact h.nextRing
  | cpuLocal => exact h.selectRingCpuLocal
  | adaptive => exact h.selectRingAdaptive

/-! ## Looking at completions -/

theorem peekCqe (i : ℕ) : K _ (Aura.peekCqe env i) := h.andThen h.kernelTurn (h.readRing i _)

theorem waitCqe (i : ℕ) : K ℤ (Aura.waitCqe env i) := by
  refine h.bind (h.peekCqe i) fun c => h.bind (h.read _) fun clock => h.ite (h.pure _) ?_
  cases env.wait clock with
  | none => exact h.pure _
  | some e => exact h.pure _

theorem waitForever (i fuel : ℕ) : K ℤ (Aura.waitForever env i fuel) := by
  induction fuel with
  | zero => exact h.block
  | succ fuel ih =>
      exact h.bind (h.waitCqe i) fun ret => h.bind (h.readRing i _) fun r =>
        h.ite (h.pure _) (h.ite (h.pure _) (h.ite (h.pure _) ih))

theorem pollEventfd (timeoutMs : ℤ) : K _ (Aura.pollEventfd env timeoutMs) := by
  refine h.andThen h.kernelTurn (h.bind (h.read _) fun w => h.ite (h.pure _) ?_)
  cases env.wait w.clock with
  | some e => exact h.andThen (h.setErrno _) (h.pure _)
  | none => exact h.ite h.block (h.pure _)

theorem drainEventfdIfRegistered : K Unit Aura.drainEventfdIfRegistered :=
  h.bind (h.read _) fun _ => h.when h.drainEventfd

theorem validateFixedFile (index : ℤ) : K Bool (Aura.validateFixedFile index) :=
  h.bind (h.read _) fun _ => h.ite (h.pure _) (h.andThen (h.setErrno _) (h.pure _))

theorem failWith (e : ℤ) : K (Option α) (Aura.failWith e) := h.andThen (h.setErrno e) (h.pure _)

theorem allRings : K (List ℕ) Aura.allRings := h.read _

theorem overRings {f : ℕ → AuraM ℕ} (hf : ∀ i, K ℕ (f i)) (is : List ℕ) :
    K ℕ (Aura.overRings f is) := by
  induction is with
  | nil => exact h.pure _
  | cons i is ih => exact h.bind (hf i) fun _ => h.bind ih fun _ => h.pure _

/-! ## Flushing, for a property that submits have -/

theorem ioUringSubmit {site : FlushSite}
    (hfail : ∀ e, K Unit (Aura.logEvent fun _ => .submitFailed site e))
    (haccept : ∀ i k, K Unit (Aura.onRing i (·.kernelAccept k))) (i : ℕ) :
    K _ (Aura.ioUringSubmit env site i) := by
  refine h.andThen h.kernelTurn (h.bind (h.read _) fun clock => ?_)
  cases env.submit site clock with
  | error e => exact h.andThen (hfail e) (h.pure _)
  | ok k => exact h.bind (h.readRing i _) fun _ => h.andThen (haccept i _) (h.pure _)

theorem flushQueued {site : FlushSite} {i : ℕ} (hsubmit : K _ (Aura.ioUringSubmit env site i)) :
    K ℤ (Aura.flushQueued env site i) := by
  refine h.bind (h.readRing i _) fun queued => h.ite (h.pure _) ?_
  refine h.andThen (h.onTls fun _ => ⟨rfl, rfl, rfl, rfl, .inr rfl⟩) (h.bind hsubmit fun r => ?_)
  cases r with
  | error e => exact h.andThen (h.setErrno _) (h.pure _)
  | ok k => exact h.andThen (h.onRing fun _ => .account _) (h.pure _)

theorem ringFlush {site : FlushSite} {i : ℕ} (hsubmit : K _ (Aura.ioUringSubmit env site i)) :
    K ℤ (Aura.ringFlush env site i) :=
  h.bind (h.readRing i _) fun _ => h.ite (h.pure _) (h.flushQueued hsubmit)

theorem ringFlushLatching {i : ℕ} (hsubmit : K _ (Aura.ioUringSubmit env .checked i)) :
    K FlushStatus (Aura.ringFlushLatching env i) :=
  h.bind (h.ringFlush hsubmit) fun _ => h.bind h.getErrno fun _ => h.ite (h.pure _)
    (h.ite (h.andThen (h.latchFatalSubmitErrno _) (h.pure _)) (h.pure _))

end

end Quietly

/-- An atomic change of one ring. -/
def RingMoved (w w' : World) : Prop := ∃ i r', RingMove (w.ring i) r' ∧ w' = w.setRing i r'

/-- A property that programs of quiet moves, moves of rings and marks have. It may say more about
the thread than moves leave alone. -/
structure RingMoving (K : ProgProp) : Prop extends Quietly K where
  rings : Steps (Relation.ReflTransGen RingMoved) K
  setMark : K Unit Aura.setMark

namespace RingMoving

variable {env : Env} {K : ProgProp}

/-- From a preorder on worlds that contains these changes. -/
theorem of_keeps {R : World → World → Prop} (hrefl : ∀ w, R w w)
    (htrans : ∀ {w w' w''}, R w w' → R w' w'' → R w w'')
    (hquiet : ∀ {w w'}, QuietMove w w' → R w w') (hring : ∀ {w w'}, RingMoved w w' → R w w')
    (hmark : ∀ (w : World) m, R w { w with mark := m }) :
    RingMoving fun (α : Type) (p : AuraM α) => Keeps R p where
  toQuietly := .of_keeps hrefl htrans hquiet
  rings := Keeps.steps hrefl (reflTransGen_le hrefl htrans hring)
  setMark w := hmark w _

section

variable (h : RingMoving K)

include h

/-! ## Locks and slots -/

theorem onRing {i : ℕ} {f : RingCtx → RingCtx} (hf : ∀ r, RingMove r (f r)) :
    K Unit (Aura.onRing i f) := h.rings.modify fun _ => .single ⟨i, _, hf _, rfl⟩

theorem ringLock (i : ℕ) : K Bool (Aura.ringLock i) := by
  refine h.rings.await fun w st w' hw => ?_
  obtain ⟨⟨st', r⟩, hlock, heq⟩ := Option.map_eq_some_iff.mp hw
  cases heq
  exact .single ⟨i, r, .lock hlock, rfl⟩

theorem ringTrylock (i : ℕ) : K _ (Aura.ringTrylock i) := by
  refine h.rings.update fun w => ?_
  split
  · exact .refl
  · next st r hlock => exact .single ⟨i, r, .lock hlock, rfl⟩

theorem ringUnlock (i : ℕ) (st : Bool) : K Unit (Aura.ringUnlock i st) :=
  h.onRing fun _ => .unlock st

theorem ringCqLock (i : ℕ) : K Bool (Aura.ringCqLock i) := by
  refine h.rings.await fun w st w' hw => ?_
  obtain ⟨⟨st', r⟩, hlock, heq⟩ := Option.map_eq_some_iff.mp hw
  cases heq
  exact .single ⟨i, r, .cqLock hlock, rfl⟩

theorem ringCqUnlock (i : ℕ) (st : Bool) : K Unit (Aura.ringCqUnlock i st) :=
  h.onRing fun _ => .cqUnlock st

theorem getRequest (i : ℕ) : K _ (Aura.getRequest i) := by
  refine h.rings.update fun w => ?_
  split
  · exact .refl
  · next op r hget => exact .single ⟨i, r, .get hget, rfl⟩

theorem reapCqe (i : ℕ) : K _ (Aura.reapCqe env i) :=
  h.bind (h.peekCqe i) fun _ => h.andThen (h.onRing fun _ => .reap) (h.pure _)

theorem reapBatch (i n : ℕ) : K _ (Aura.reapBatch env i n) := by
  induction n with
  | zero => exact h.pure _
  | succ n ih =>
      refine h.bind (h.reapCqe i) fun c => ?_
      cases c with
      | none => exact h.pure _
      | some c => exact h.bind ih fun _ => h.pure _

/-! ## The slot of a submission -/

theorem takeSlotFast (i : ℕ) : K _ (Aura.takeSlotFast i) := by
  refine h.bind (h.getRequest i) fun op => ?_
  cases op with
  | none => exact h.andThen (h.setErrno _) (h.pure _)
  | some op => exact h.pure _

theorem retryFast (i : ℕ) : K _ (Aura.retryFast i) :=
  h.andThen h.setMark (h.bind (h.readRing i _) fun _ => h.ite (h.takeSlotFast i)
    (h.andThen (h.setErrno _) (h.pure _)))

theorem takeSlotLocked (i : ℕ) (st : Bool) : K _ (Aura.takeSlotLocked i st) := by
  refine h.bind (h.getRequest i) fun op => ?_
  cases op with
  | none => exact h.andThen (h.ringUnlock i st) (h.andThen (h.setErrno _) (h.pure _))
  | some op => exact h.pure _

theorem fillRequest (ctx : SubmitCtx) {f : RingCtx → Request → Request}
    (hf : ∀ (r : RingCtx) (q : Request), q.SameSlot (f r q)) : K Unit (Aura.fillRequest ctx f) :=
  h.onRing fun r => .fill ctx.opIdx _ (hf r _)

theorem addFixedBuf (i : ℕ) : K Unit (Aura.addFixedBuf i) := h.onRing fun _ => .fixedBuf _

theorem subFixedBuf (i : ℕ) : K Unit (Aura.subFixedBuf i) := h.onRing fun _ => .fixedBuf _

end

end RingMoving

namespace Moving

variable {env : Env} {K : ProgProp} {α : Type}

section

variable (h : Moving K)

include h

theorem ringMoving : RingMoving K where
  toQuietly := h.toQuietly
  rings := h.moves.mono fun hw => Relation.ReflTransGen.mono
    (fun _ _ ⟨i, _, hmove, heq⟩ => heq ▸ .ring i hmove) _ _ hw
  setMark := h.moves.modify fun _ => .single (.mark _)

/-! ## Locks and slots -/

theorem onRing {i : ℕ} {f : RingCtx → RingCtx} (hf : ∀ r, RingMove r (f r)) :
    K Unit (Aura.onRing i f) := h.ringMoving.onRing hf

theorem onTls {f : Tls → Tls} (hdepth : ∀ t, (f t).callbackContextDepth = t.callbackContextDepth)
    (hsqe : ∀ t, (f t).lastSqe = t.lastSqe ∨ (f t).lastSqe = none) : K Unit (Aura.onTls f) :=
  h.moves.modify fun _ => .single (.tls (hdepth _) (hsqe _))

theorem setMark : K Unit Aura.setMark := h.ringMoving.setMark

theorem ringLock (i : ℕ) : K Bool (Aura.ringLock i) := h.ringMoving.ringLock i

theorem ringTrylock (i : ℕ) : K _ (Aura.ringTrylock i) := h.ringMoving.ringTrylock i

theorem ringUnlock (i : ℕ) (st : Bool) : K Unit (Aura.ringUnlock i st) :=
  h.ringMoving.ringUnlock i st

theorem ringCqLock (i : ℕ) : K Bool (Aura.ringCqLock i) := h.ringMoving.ringCqLock i

theorem ringCqUnlock (i : ℕ) (st : Bool) : K Unit (Aura.ringCqUnlock i st) :=
  h.ringMoving.ringCqUnlock i st

theorem getRequest (i : ℕ) : K _ (Aura.getRequest i) := h.ringMoving.getRequest i

theorem reapCqe (i : ℕ) : K _ (Aura.reapCqe env i) := h.ringMoving.reapCqe i

theorem reapBatch (i n : ℕ) : K _ (Aura.reapBatch env i n) := h.ringMoving.reapBatch i n

/-! ## The submission path -/

theorem clearLink : K Unit Aura.clearLink := h.onTls (fun _ => rfl) fun _ => .inl rfl

theorem pickRing : K ℕ (Aura.pickRing env) := by
  refine h.bind (h.read _) fun pinned => ?_
  cases pinned with
  | some i => exact h.pure _
  | none => exact h.bind (h.read _) fun _ => h.andThen (h.when h.clearLink) h.selectRing

theorem takeSlotFast (i : ℕ) : K _ (Aura.takeSlotFast i) := h.ringMoving.takeSlotFast i

theorem retryFast (i : ℕ) : K _ (Aura.retryFast i) := h.ringMoving.retryFast i

theorem takeSlotLocked (i : ℕ) (st : Bool) : K _ (Aura.takeSlotLocked i st) :=
  h.ringMoving.takeSlotLocked i st

theorem fillRequest (ctx : SubmitCtx) {f : RingCtx → Request → Request}
    (hf : ∀ (r : RingCtx) (q : Request), q.SameSlot (f r q)) : K Unit (Aura.fillRequest ctx f) :=
  h.ringMoving.fillRequest ctx hf

theorem rememberLastRing (i : ℕ) : K Unit (Aura.rememberLastRing i) :=
  h.moves.modify fun _ => .single (.tls rfl (.inl rfl))

theorem addFixedBuf (i : ℕ) : K Unit (Aura.addFixedBuf i) := h.ringMoving.addFixedBuf i

theorem subFixedBuf (i : ℕ) : K Unit (Aura.subFixedBuf i) := h.ringMoving.subFixedBuf i

end

end Moving

end Aura
