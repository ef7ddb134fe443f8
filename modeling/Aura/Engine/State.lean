import Aura.Lib.Outcome
import Aura.Ring.Complete
import Aura.Ring.Lock
import Aura.Ring.Machine

/-!
# The engine, the calling thread and its surroundings

The data model of `aura.c` for one calling thread:

* `Engine` is `struct aura_engine`, without the buffer pool and the tick thread;
* `Tls` is the thread-local state of the library, with the thread's `errno`;
* `Env` is everything the library does not decide: the kernel's answers, the clock, and the user's
  callbacks, which are programs of library calls (`UserProg`);
* `World` is what a library call reads and changes. Next to the engine and the thread-local state
  it holds the time (`clock`, one tick for each turn the kernel gets) and two pieces of
  specification state that no function reads: `log` and `mark`.

A ring pointer is the number of its element in memory: ring `i` of an engine lies at
`ringsBase + i`, so that the range checks on thread-local ring pointers are checks on addresses, as
in the source.
-/

namespace Aura

open Lib

/-! ## The engine -/

/-- An `errno` value reported by the kernel. -/
abbrev Errno := { e : ℤ // 0 < e }

/-- `aura_ring_select_t`. -/
inductive RingSelect
  | adaptive | cpuLocal | roundRobin | threadLocal
deriving DecidableEq, Repr

/-- `struct iovec`. -/
structure Iovec where
  base : ℕ
  len : ℕ
deriving DecidableEq, Repr

/-- `struct aura_engine`. The registered tables are lists, `eventFd` is the counter of the event
descriptor (`none`: there is none), and `regLock` is represented by its readers and its writer.
`kernelBuffers` and `kernelFiles` are the tables the kernel has registered for each ring, if any,
and `rollbackFailed` remembers that an update of them could not be rolled back. -/
structure Engine where
  addr : ℕ := 0
  ringsBase : ℕ := 0
  rings : ℕ → RingCtx
  ringCount : ℕ
  nextRing : UInt32 := 0
  avgRingPending : ℤ := 0
  shuttingDown : Bool := false
  ringSelect : RingSelect := .adaptive
  singleThread : Bool := false
  fatalSubmitErrno : ℤ := 0
  buffersRegistered : Bool := false
  filesRegistered : Bool := false
  buffersUnregPending : Bool := false
  filesUnregPending : Bool := false
  regReaders : ℕ := 0
  regWriter : Bool := false
  registeredBuffers : List Iovec := []
  registeredFiles : List ℤ := []
  kernelBuffers : ℕ → Option (List Iovec) := fun _ => none
  kernelFiles : ℕ → Option (List ℤ) := fun _ => none
  rollbackFailed : Bool := false
  eventFd : Option ℕ := none
  eventfdRegistered : Bool := false
  adaptiveSpills : ℕ := 0

/-- The options of `aura_options_t` that matter here. `batchThreshold` is the override of the batch
threshold, where `0` turns batching flushes off. -/
structure Options where
  queueDepth : ℕ := 256
  ringCount : ℕ := 1
  ringSelect : RingSelect := .adaptive
  singleThread : Bool := false
  batchThreshold : Option ℕ := none

/-- The batch threshold of a ring before the controller changes it. -/
def Options.threshold (o : Options) (default : ℤ) : ℤ :=
  match o.batchThreshold with
  | none => default
  | some 0 => INT_MAX
  | some (n + 1) => n + 1

/-- `aura_create_with_options` for an engine at `addr`, once the kernel has set up rings of
`sqEntries` entries. In thread-local mode the rings start disabled. -/
def auraCreate (o : Options) (addr sqEntries : ℕ) : Engine where
  addr := addr
  rings i :=
    let r := ringInit o.queueDepth sqEntries i (o.ringSelect = .threadLocal)
    { r with
      singleThread := o.singleThread
      adaptive := { r.adaptive with
        currentBatchThreshold := o.threshold r.adaptive.currentBatchThreshold } }
  ringCount := o.ringCount
  nextRing := UInt32.ofNat (addr >>> 6)
  ringSelect := o.ringSelect
  singleThread := o.singleThread
  eventFd := some 0
  eventfdRegistered := o.ringSelect ≠ .threadLocal

/-- What a thread-local engine pointer is used for: its address and the engine's selection mode,
which never changes. -/
structure EngineRef where
  addr : ℕ
  ringSelect : RingSelect
deriving DecidableEq, Repr

/-- The thread-local variables of `aura.c` and `adaptive_ring.c`, and `errno`. `lastSqe` is the ring
and the queue slot that `tls_last_sqe` points into; the other pointers are addresses. -/
structure Tls where
  errno : ℤ := 0
  lastSqe : Option (ℕ × ℕ) := none
  linkRing : Option ℕ := none
  linkDepth : ℤ := 0
  lastRing : Option ℕ := none
  ownedRing : Option ℕ := none
  engine : Option EngineRef := none
  cachedCpu : ℤ := -1
  cpuRefreshCounter : ℤ := 0
  rngState : UInt32 := 0
  callbackContextDepth : ℕ := 0
deriving DecidableEq, Repr

/-! ## Library calls -/

/-- A request handle: its ring and its slot. -/
abbrev ReqPtr := ℕ × ℕ

/-- `aura_buf_t`. -/
inductive Buf
  | unregistered (ptr : Option ℕ)
  | registered (index : ℤ) (offset : ℕ)
  | invalid
deriving DecidableEq, Repr

/-- The arguments that every submission call takes after its own. -/
structure SubmitArgs where
  flags : ℕ := 0
  callback : Option ℕ := none
  userData : ℕ := 0
deriving DecidableEq, Repr

/-- The submission calls. -/
inductive SubmitCall
  | read (fd : ℤ) (buf : Buf) (len : ℕ) (offset : ℤ)
  | write (fd : ℤ) (buf : Buf) (len : ℕ) (offset : ℤ)
  | readv (fd : ℤ) (iov : Option ℕ) (iovcnt : ℤ) (offset : ℤ)
  | writev (fd : ℤ) (iov : Option ℕ) (iovcnt : ℤ) (offset : ℤ)
  | fsync (fd : ℤ) (fsyncFlags : ℕ)
  | openat (dirfd : ℤ) (pathname : Option ℕ) (openFlags : ℤ) (mode : ℕ)
  | close (fd : ℤ)
  | statx (dirfd : ℤ) (pathname : Option ℕ) (statxFlags : ℤ) (mask : ℕ) (statxbuf : Option ℕ)
  | fallocate (fd : ℤ) (mode : ℤ) (offset len : ℤ)
  | ftruncate (fd : ℤ) (length : ℤ)
  | syncFileRange (fd : ℤ) (offset nbytes : ℤ) (rangeFlags : ℕ)
deriving DecidableEq, Repr

/-- `aura_reg_type_t`. -/
inductive RegType
  | buffers | files
deriving DecidableEq, Repr

/-- The calls that a user's program makes. -/
inductive ApiCall
  | submit (call : SubmitCall) (args : SubmitArgs)
  | setLinked (req : Option ReqPtr)
  | cancel (req : Option ReqPtr)
  | flush
  | poll
  | wait (timeoutMs : ℤ)
  | drain (timeoutMs : ℤ)
  | registerBuffers (iovs : List Iovec)
  | registerFiles (fds : List ℤ)
  | requestUnregister (type : RegType)
  | updateFile (index : ℤ) (fd : ℤ)
deriving DecidableEq, Repr

/-- What a call returns: a request handle or an `int`. -/
inductive ApiResult
  | req (r : Option ReqPtr)
  | code (n : ℤ)
deriving DecidableEq, Repr

/-- A user's program: library calls, each of which may depend on what the ones before returned. -/
inductive UserProg
  | done
  | call (c : ApiCall) (next : ApiResult → UserProg)

/-! ## The surroundings -/

/-- Where an `io_uring_submit` is made: in `ring_flush_fast`, in a `ring_flush` whose caller looks
at the error, or in the `ring_flush` of `submit_abort`, which discards it. -/
inductive FlushSite
  | fast | checked | abort
deriving DecidableEq, Repr

/-- What the library does not decide. Every oracle is indexed by the clock, so it may answer
differently each time. -/
structure Env where
  /-- `get_time_ns`. -/
  now : ℕ → ℤ
  /-- The kernel's answer to `io_uring_submit`: an error, or how many entries it accepts (at most
  the prepared ones). -/
  submit : FlushSite → ℕ → Except Errno ℕ
  /-- The completions the kernel posts: ring, position among the entries it holds, result. -/
  posts : ℕ → List (ℕ × ℕ × ℤ)
  /-- What a wait that found no completion returns: `none` when its time is up. -/
  wait : ℕ → Option Errno
  /-- The kernel's answer to a registration call for a ring. -/
  register : ℕ → Option Errno
  /-- The kernel's answer to `io_uring_enable_rings`. -/
  enable : ℕ → Option Errno
  /-- `sched_getcpu`. -/
  cpu : ℕ → ℤ
  /-- `pthread_self`. -/
  threadId : ℕ
  /-- `HAVE_FTRUNCATE_SUPPORT`. -/
  ftruncateSupported : Bool
  /-- A bound on the turns of every loop that waits for the kernel; a call that exceeds it hangs. -/
  fuel : ℕ
  /-- The program of a callback for its user data and result. -/
  script : ℕ → ℕ → ℤ → UserProg

/-- Calm surroundings: time stands still, the kernel accepts everything and completes nothing, and
callbacks call nothing. -/
def calmEnv : Env where
  now _ := 0
  submit _ _ := .ok UINT_MAX
  posts _ := []
  wait _ := none
  register _ := none
  enable _ := none
  cpu _ := 0
  threadId := 1
  ftruncateSupported := true
  fuel := 4
  script _ _ _ := .done

/-- What the specifications watch: failed submits, prepared entries (ring, position among all
entries ever prepared on it, how many of them the kernel had accepted), processed completions, and
callbacks, each with the callback depth it happened at. -/
inductive LogEvent
  | submitFailed (site : FlushSite) (e : Errno)
  | prepared (depth ring position accepted : ℕ)
  | completion (depth ring : ℕ) (c : Cqe)
  | callback (depth : ℕ) (q : Request) (result : ℤ)
deriving DecidableEq, Repr

/-- What a library call reads and changes. `mark` is the world's engine and thread-local state as
the current submission call found them, or as the last completions reaped inside it left them. -/
structure World where
  engine : Engine
  tls : Tls := {}
  clock : ℕ := 0
  log : List LogEvent := []
  mark : Engine × Tls

namespace World

/-- An engine and a thread that has not used it yet. -/
def start (e : Engine) : World := { engine := e, mark := (e, {}) }

variable (w : World) (i j : ℕ) (r : RingCtx)

/-- Ring `i`. -/
def ring : RingCtx := w.engine.rings i

/-- Overwrite ring `i`. -/
def setRing : World :=
  { w with engine := { w.engine with rings := Function.update w.engine.rings i r } }

@[simp] theorem setRing_self : (w.setRing i r).ring i = r := by simp [ring, setRing]

theorem setRing_ring : (w.setRing i r).ring j = if j = i then r else w.ring j := by
  by_cases h : j = i
  · subst h; simp
  · simp [ring, setRing, h]

@[simp] theorem setRing_tls : (w.setRing i r).tls = w.tls := rfl
@[simp] theorem setRing_log : (w.setRing i r).log = w.log := rfl
@[simp] theorem setRing_clock : (w.setRing i r).clock = w.clock := rfl
@[simp] theorem setRing_mark : (w.setRing i r).mark = w.mark := rfl

end World

/-! ## Primitive programs -/

/-- A program over the world. -/
abbrev AuraM := Prog World

/-- How a callback is run. -/
abbrev Callback := Request → ℤ → AuraM Unit

/-- Read a field of ring `i`. -/
def readRing {α : Type} (i : ℕ) (f : RingCtx → α) : AuraM α := Prog.read fun w => f (w.ring i)

/-- Change ring `i`. -/
def onRing (i : ℕ) (f : RingCtx → RingCtx) : AuraM Unit :=
  Prog.modify fun w => w.setRing i (f (w.ring i))

/-- Change the engine outside its rings. -/
def onEngine (f : Engine → Engine) : AuraM Unit :=
  Prog.modify fun w => { w with engine := f w.engine }

/-- Change the thread-local state. -/
def onTls (f : Tls → Tls) : AuraM Unit := Prog.modify fun w => { w with tls := f w.tls }

/-- Assign `errno`. -/
def setErrno (e : ℤ) : AuraM Unit := onTls fun t => { t with errno := e }

/-- Read `errno`. -/
def getErrno : AuraM ℤ := Prog.read fun w => w.tls.errno

/-- Append an event to the log. -/
def logEvent (e : World → LogEvent) : AuraM Unit :=
  Prog.modify fun w => { w with log := w.log ++ [e w] }

/-- Remember the state the current submission call is compared with. -/
def setMark : AuraM Unit := Prog.modify fun w => { w with mark := (w.engine, w.tls) }

/-- One posted completion; it also signals the event descriptor if that is registered. -/
def World.post (w : World) (p : ℕ × ℕ × ℤ) : World :=
  if (w.ring p.1).inKernel[p.2.1]?.isSome then
    let w' := w.setRing p.1 ((w.ring p.1).kernelPost p.2.1 p.2.2)
    if w.engine.eventfdRegistered then
      { w' with engine := { w'.engine with eventFd := w'.engine.eventFd.map (· + 1) } }
    else w'
  else w

/-- The world after the kernel's turn: it posts completions and time passes. -/
def World.turn (env : Env) (w : World) : World :=
  { (env.posts w.clock).foldl World.post w with clock := w.clock + 1 }

/-- The kernel's turn. Every function that looks at a completion queue or enters the kernel gives it
one. -/
def kernelTurn (env : Env) : AuraM Unit := Prog.modify (World.turn env)

end Aura
