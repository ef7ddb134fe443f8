import Aura.Buffer.Pool
import Aura.Lib.System

/-!
# The thread caches of several threads

Each thread that uses a buffer pool gets a cache, which the pool lists. The cache is cleaned up by
the thread when it turns to another pool or exits (`tls_destructor`), or by whoever destroys the
pool; one of them frees the structure. They agree by `cleanup_mutex`, by the `pool` pointer of the
cache and by two counters of the pool, `registrations_inflight` and `active_users`.

Every atomic load, store and read-modify-write, every operation on a mutex and every access to the
shards is one step here, for any number of threads and pools.

* `CacheState.plan` — the next step of a thread: where it goes and what it does to the shared state.
* `CacheState.Move` — the same as a relation with one constructor for each branch.
* `cacheSystem` — all threads, in any order.

A pool is never initialised again, so its address is as good as its `pool_id`. A thread that has
exited may be followed by another one with the same identifier. -/

namespace Aura

open Lib

/-! ## Threads, caches and pools -/

/-- Where a thread is. Of the parameters `p` and `q` are pools and `c` is a cache; `q` is the pool
that was loaded from the cache. -/
inductive CacheSpot
  /-- In no function of the pool. -/
  | idle
  /-- In `get_thread_cache` for `p`, before the load of the pool of `tls_cache`. -/
  | fastPool (p : ℕ)
  /-- Before the load of `destroyed` on the fast path. -/
  | fastDestroyed (p c : ℕ)
  /-- Before the first load of the slow path; `cache` may be null. -/
  | slowDestroyed (p : ℕ) (cache : Option ℕ)
  /-- Before the comparison with the pool of the cache. -/
  | slowPool (p c : ℕ)
  /-- Before the test for an orphan. -/
  | slowNull (p c : ℕ)
  /-- Before `pthread_mutex_destroy` and `free` of an orphan. -/
  | freeOrphan (p c : ℕ)
  /-- The cache of a pool that is left: before `pthread_mutex_lock`. -/
  | leaveLock (p c : ℕ)
  | leaveLoad (p c : ℕ)
  | leaveUnlockNull (p c : ℕ)
  | leaveEnter (p c q : ℕ)
  | leaveCheck (p c q : ℕ)
  | leaveClean (p c q : ℕ) (mode : CacheCleanupMode)
  | leaveUnlock (p c q : ℕ)
  | leaveExit (p c q : ℕ)
  /-- Before the increment of `registrations_inflight`. -/
  | regEnter (p : ℕ)
  | regCheck (p : ℕ)
  | regBail (p : ℕ)
  | regCreate (p : ℕ)
  | regFail (p : ℕ)
  /-- Before the exchange that puts the cache on the list of the pool. -/
  | regPush (p c : ℕ)
  | regRecheck (p c : ℕ)
  | lateLock (p c : ℕ)
  | lateMark (p c : ℕ)
  | lateUnlock (p c : ℕ)
  | regDone (p c : ℕ) (late : Bool)
  /-- Back from `get_thread_cache` or from the slow path, with the cache. -/
  | got (p : ℕ) (cache : Option ℕ)
  /-- The sections that store a buffer in the cache. -/
  | storeLock (p c b : ℕ)
  | storeCheck (p c b : ℕ)
  | storePush (p c b : ℕ)
  | storeUnlock (p c : ℕ)
  /-- `pool_enter`, before the increment of `active_users`. -/
  | userEnter (p : ℕ) (cache : Option ℕ)
  | userCheck (p : ℕ) (cache : Option ℕ)
  | userBack (p : ℕ)
  /-- Between `pool_enter` and `pool_leave`. -/
  | inShards (p : ℕ) (cache : Option ℕ)
  /-- `tls_destructor`, before `pthread_mutex_lock`. -/
  | exitLock (c : ℕ)
  | exitMark (c : ℕ)
  | exitLoad (c : ℕ)
  | exitEnter (c q : ℕ)
  | exitCheck (c q : ℕ)
  | exitBack (c q : ℕ)
  | exitFlush (c q : ℕ)
  | exitLeave (c q : ℕ)
  | exitFree (c : ℕ)
  | exitGone (c : ℕ)
  | exitUnlock (c : ℕ) (gone : Bool)
  | exitDrop (c : ℕ)
  /-- `buffer_pool_destroy`, before the store to `destroyed`. -/
  | mark (p : ℕ)
  | waitRegistrations (p : ℕ)
  | waitUsers (p : ℕ)
  /-- Before the exchange that empties the list of the pool. -/
  | detach (p : ℕ)
  /-- With the cache that is processed and the rest of the detached list. -/
  | procLock (p c : ℕ) (rest : List ℕ)
  | procClean (p c : ℕ) (rest : List ℕ)
  | procOrphan (p c : ℕ) (rest : List ℕ)
  | procUnlock (p c : ℕ) (rest : List ℕ) (exited : Bool)
  | procDecide (p c : ℕ) (rest : List ℕ) (exited : Bool)
  | destroyShards (p : ℕ)

/-- A thread with its thread-local variables: `tls_cache` and the value of `tls_key`. -/
structure CacheThread where
  spot : CacheSpot := .idle
  tlsCache : Option ℕ := none
  tlsKey : Option ℕ := none

/-- A `thread_cache_t`. -/
structure CacheWords (T : Type*) where
  pool : Option ℕ := none
  ownerThread : Option T := none
  cleanupMutex : Option T := none
  cleanedUp : Bool := false
  threadExited : Bool := false
  /-- The buffers in it, of all size classes. -/
  buffers : List ℕ := []
  /-- How often the structure was freed. -/
  frees : ℕ := 0

/-- A `buffer_pool_t`. -/
structure PoolWords where
  destroyed : Bool := false
  registrationsInflight : ℤ := 0
  activeUsers : ℤ := 0
  threadCaches : List ℕ := []
  /-- The buffers in the shards, while there are shards. -/
  shards : Option (List ℕ) := some []

/-- The pools, the caches and the threads. -/
structure CacheState (T : Type*) where
  pools : ℕ → PoolWords := fun _ => {}
  caches : ℕ → CacheWords T := fun _ => {}
  /-- How many caches there have been. -/
  cacheCount : ℕ := 0
  threads : T → CacheThread := fun _ => {}
  /-- `tls_key_valid`, once `tls_key_init` has run. -/
  tlsKeyValid : Option Bool := none

/-- What a thread may do next. -/
inductive CacheOp
  /-- It takes the next step of the function it is in. -/
  | advance
  /-- It calls `get_thread_cache`, in `buffer_pool_alloc` or `buffer_pool_free`. -/
  | get (p : ℕ)
  /-- `calloc` and `pthread_mutex_init` of a new cache succeed or not; `key` is whether
  `pthread_key_create` succeeds, if it is called now. -/
  | create (ok key : Bool)
  /-- It returns to the program. -/
  | done
  /-- It takes a buffer from its cache without the mutex. -/
  | take
  /-- It stores a buffer in its cache. -/
  | store (b : ℕ)
  /-- It calls `pool_enter`. -/
  | enter
  /-- `cache_refill` with so many buffers. -/
  | refill (k : ℕ)
  /-- `cache_flush` of so many buffers. -/
  | flush (k : ℕ)
  /-- It takes a buffer from a shard. -/
  | pop
  /-- It puts a buffer into a shard. -/
  | put (b : ℕ)
  /-- The thread exits. -/
  | exit
  /-- It calls `buffer_pool_destroy`. -/
  | destroy (p : ℕ)

/-- What a step does to the shared state. -/
inductive CacheEffect
  | nothing
  | registrations (p : ℕ) (d : ℤ)
  | users (p : ℕ) (d : ℤ)
  | keyInit (ok : Bool)
  | create (p : ℕ) (key : Bool)
  | push (p c : ℕ)
  | lock (c : ℕ)
  | unlock (c : ℕ)
  | markCleaned (c : ℕ)
  /-- `cleanup_cache_buffers_locked`. -/
  | cleanup (pool : Option ℕ) (c : ℕ) (mode : CacheCleanupMode)
  | markExited (c : ℕ)
  | free (c : ℕ)
  | take (c : ℕ)
  | store (c b : ℕ)
  | refill (p c k : ℕ)
  | flush (p c k : ℕ)
  | pop (p : ℕ)
  | put (p b : ℕ)
  | markDestroyed (p : ℕ)
  | detach (p : ℕ)
  | orphan (c : ℕ)
  | destroyShards (p : ℕ)

/-! ## Functions -/

namespace CacheState

variable {T : Type*} [DecidableEq T] (s : CacheState T) (t : T)

/-- A pool changes. -/
def setPool (p : ℕ) (w : PoolWords) : CacheState T :=
  { s with pools := Function.update s.pools p w }

/-- A cache changes. -/
def setCache (c : ℕ) (w : CacheWords T) : CacheState T :=
  { s with caches := Function.update s.caches c w }

/-- The shards of a pool get buffers. -/
def shardsGet (p : ℕ) (bs : List ℕ) : CacheState T :=
  s.setPool p { s.pools p with shards := (s.pools p).shards.map (bs ++ ·) }

/-- `tls_key_init`, through `pthread_once`. -/
def keyInit (ok : Bool) : CacheState T :=
  { s with tlsKeyValid := some (s.tlsKeyValid.getD ok) }

/-- A new cache of the pool, not yet on its list. -/
def createCache (p : ℕ) : CacheState T :=
  { s.setCache s.cacheCount { pool := some p, ownerThread := some t } with
    cacheCount := s.cacheCount + 1 }

/-- `cleanup_cache_buffers_locked`. -/
def cleanupCache (pool : Option ℕ) (c : ℕ) (mode : CacheCleanupMode) : CacheState T :=
  let w := s.caches c
  if w.cleanedUp then s
  else
    let s' := s.setCache c { w with buffers := [], cleanedUp := true }
    match mode, pool with
    | .flush, some p => s'.shardsGet p w.buffers
    | _, _ => s'

/-- The shared state after a step of the thread. -/
def apply : CacheEffect → CacheState T
  | .nothing => s
  | .registrations p d =>
    s.setPool p { s.pools p with registrationsInflight := (s.pools p).registrationsInflight + d }
  | .users p d => s.setPool p { s.pools p with activeUsers := (s.pools p).activeUsers + d }
  | .keyInit ok => s.keyInit ok
  | .create p key => (s.keyInit key).createCache t p
  | .push p c => s.setPool p { s.pools p with threadCaches := c :: (s.pools p).threadCaches }
  | .lock c => s.setCache c { s.caches c with cleanupMutex := some t }
  | .unlock c => s.setCache c { s.caches c with cleanupMutex := none }
  | .markCleaned c => s.setCache c { s.caches c with cleanedUp := true }
  | .cleanup pool c mode => s.cleanupCache pool c mode
  | .markExited c => s.setCache c { s.caches c with threadExited := true }
  | .free c => s.setCache c { s.caches c with frees := (s.caches c).frees + 1 }
  | .take c => s.setCache c { s.caches c with buffers := (s.caches c).buffers.tail }
  | .store c b => s.setCache c { s.caches c with buffers := b :: (s.caches c).buffers }
  | .refill p c k =>
    let bs := (s.pools p).shards.getD []
    (s.setCache c { s.caches c with buffers := bs.take k ++ (s.caches c).buffers }).setPool p
      { s.pools p with shards := (s.pools p).shards.map (List.drop k) }
  | .flush p c k =>
    let bs := (s.caches c).buffers
    (s.setCache c { s.caches c with buffers := bs.drop k }).shardsGet p (bs.take k)
  | .pop p => s.setPool p { s.pools p with shards := (s.pools p).shards.map List.tail }
  | .put p b => s.shardsGet p [b]
  | .markDestroyed p => s.setPool p { s.pools p with destroyed := true }
  | .detach p => s.setPool p { s.pools p with threadCaches := [] }
  | .orphan c => s.setCache c { s.caches c with pool := none }
  | .destroyShards p => s.setPool p { s.pools p with shards := none }

/-- `pthread_setspecific`, under a valid key. -/
def setKey (x : CacheThread) (c : Option ℕ) : CacheThread :=
  if s.tlsKeyValid = some true then { x with tlsKey := c } else x

/-- `get_thread_cache` returns null and leaves the thread without a cache. -/
def dropCache (p : ℕ) : CacheThread :=
  s.setKey { s.threads t with spot := .got p none, tlsCache := none } none

/-- The rest of the detached list is processed. -/
def nextCache (p : ℕ) : List ℕ → CacheSpot
  | [] => .detach p
  | c :: rest => .procLock p c rest

/-- What remains for the thread that destroys the pool when it has let go of the mutex of a
cache. -/
def decideFree (p c : ℕ) (rest : List ℕ) (exited : Bool) : CacheThread × CacheEffect :=
  let x := { s.threads t with spot := nextCache p rest }
  if (s.caches c).ownerThread = some t then
    (s.setKey { x with tlsCache := if x.tlsCache = some c then none else x.tlsCache } none, .free c)
  else if exited then (x, .free c)
  else (x, .nothing)

/-- **The next step** of the function that the thread is in. -/
def advance : Option (CacheThread × CacheEffect) :=
  let x := s.threads t
  let go (spot : CacheSpot) (e : CacheEffect) := some ({ x with spot }, e)
  let free (c : ℕ) := (s.caches c).cleanupMutex.isNone
  match x.spot with
  | .fastPool p =>
    match x.tlsCache with
    | none => go (.slowDestroyed p none) .nothing
    | some c =>
      go (if (s.caches c).pool = some p then .fastDestroyed p c else .slowDestroyed p (some c))
        .nothing
  | .fastDestroyed p c =>
    go (if (s.pools p).destroyed then .slowDestroyed p (some c) else .got p (some c)) .nothing
  | .slowDestroyed p cache =>
    if (s.pools p).destroyed then some ({ x with spot := .got p none, tlsCache := none }, .nothing)
    else
      match cache with
      | none => go (.regEnter p) .nothing
      | some c => go (.slowPool p c) .nothing
  | .slowPool p c =>
    go (if (s.caches c).pool = some p then .regEnter p else .slowNull p c) .nothing
  | .slowNull p c =>
    go (if (s.caches c).pool = none then .freeOrphan p c else .leaveLock p c) .nothing
  | .freeOrphan p c => some (s.dropCache t p, .free c)
  | .leaveLock p c => if free c then go (.leaveLoad p c) (.lock c) else none
  | .leaveLoad p c =>
    match (s.caches c).pool with
    | none => go (.leaveUnlockNull p c) .nothing
    | some q => go (.leaveEnter p c q) .nothing
  | .leaveUnlockNull p c => go (.freeOrphan p c) (.unlock c)
  | .leaveEnter p c q => go (.leaveCheck p c q) (.users q 1)
  | .leaveCheck p c q =>
    go (.leaveClean p c q (if (s.pools q).destroyed then .free else .flush)) .nothing
  | .leaveClean p c q mode => go (.leaveUnlock p c q) (.cleanup (some q) c mode)
  | .leaveUnlock p c q => go (.leaveExit p c q) (.unlock c)
  | .leaveExit p _ q => some (s.dropCache t p, .users q (-1))
  | .regEnter p => go (.regCheck p) (.registrations p 1)
  | .regCheck p => go (if (s.pools p).destroyed then .regBail p else .regCreate p) .nothing
  | .regBail p =>
    some ({ x with spot := .got p none, tlsCache := none }, .registrations p (-1))
  | .regFail p => go (.got p none) (.registrations p (-1))
  | .regPush p c => go (.regRecheck p c) (.push p c)
  | .regRecheck p c =>
    go (if (s.pools p).destroyed then .lateLock p c else .regDone p c false) .nothing
  | .lateLock p c => if free c then go (.lateMark p c) (.lock c) else none
  | .lateMark p c => go (.lateUnlock p c) (.markCleaned c)
  | .lateUnlock p c => go (.regDone p c true) (.unlock c)
  | .regDone p c late =>
    some (s.setKey { x with spot := .got p (if late then none else some c), tlsCache := some c }
      (some c), .registrations p (-1))
  | .storeLock p c b => if free c then go (.storeCheck p c b) (.lock c) else none
  | .storeCheck p c b =>
    go (if (s.caches c).cleanedUp || (s.pools p).destroyed then .storeUnlock p c
      else .storePush p c b) .nothing
  | .storePush p c b => go (.storeUnlock p c) (.store c b)
  | .storeUnlock _ c => go .idle (.unlock c)
  | .userEnter p cache => go (.userCheck p cache) (.users p 1)
  | .userCheck p cache =>
    go (if (s.pools p).destroyed then .userBack p else .inShards p cache) .nothing
  | .userBack p => go .idle (.users p (-1))
  | .inShards p cache => go (.got p cache) (.users p (-1))
  | .exitLock c => if free c then go (.exitMark c) (.lock c) else none
  | .exitMark c => go (.exitLoad c) (.markExited c)
  | .exitLoad c =>
    match (s.caches c).pool with
    | none => go (.exitFree c) .nothing
    | some q => go (.exitEnter c q) .nothing
  | .exitEnter c q => go (.exitCheck c q) (.users q 1)
  | .exitCheck c q => go (if (s.pools q).destroyed then .exitBack c q else .exitFlush c q) .nothing
  | .exitBack c q => go (.exitFree c) (.users q (-1))
  | .exitFlush c q => go (.exitLeave c q) (.cleanup (some q) c .flush)
  | .exitLeave c q => go (.exitGone c) (.users q (-1))
  | .exitFree c => go (.exitGone c) (.cleanup none c .free)
  | .exitGone c => go (.exitUnlock c (s.caches c).pool.isNone) .nothing
  | .exitUnlock c gone => go (if gone then .exitDrop c else .idle) (.unlock c)
  | .exitDrop c => go .idle (.free c)
  | .mark p => go (.waitRegistrations p) (.markDestroyed p)
  | .waitRegistrations p =>
    go (if (s.pools p).registrationsInflight > 0 then .waitRegistrations p else .waitUsers p)
      .nothing
  | .waitUsers p =>
    go (if (s.pools p).activeUsers > 0 then .waitUsers p else .detach p) .nothing
  | .detach p =>
    match (s.pools p).threadCaches with
    | [] => go (.destroyShards p) (.detach p)
    | c :: rest => go (.procLock p c rest) (.detach p)
  | .procLock p c rest => if free c then go (.procClean p c rest) (.lock c) else none
  | .procClean p c rest => go (.procOrphan p c rest) (.cleanup none c .free)
  | .procOrphan p c rest => go (.procUnlock p c rest (s.caches c).threadExited) (.orphan c)
  | .procUnlock p c rest exited => go (.procDecide p c rest exited) (.unlock c)
  | .procDecide p c rest exited => some (s.decideFree t p c rest exited)
  | .destroyShards p => go .idle (.destroyShards p)
  | _ => none

/-- The next step of a thread. -/
def plan (op : CacheOp) : Option (CacheThread × CacheEffect) :=
  let x := s.threads t
  let go (spot : CacheSpot) (e : CacheEffect) := some ({ x with spot }, e)
  match op, x.spot with
  | .advance, _ => s.advance t
  | .get p, .idle => go (.fastPool p) .nothing
  | .create true key, .regCreate p => go (.regPush p s.cacheCount) (.create p key)
  | .create false key, .regCreate p => go (.regFail p) (.keyInit key)
  | .done, .got _ _ => go .idle .nothing
  | .take, .got p (some c) => go (.got p (some c)) (.take c)
  | .store b, .got p (some c) => go (.storeLock p c b) .nothing
  | .enter, .got p cache => go (.userEnter p cache) .nothing
  | .refill k, .inShards p (some c) => go (.inShards p (some c)) (.refill p c k)
  | .flush k, .inShards p (some c) => go (.inShards p (some c)) (.flush p c k)
  | .pop, .inShards p cache => go (.inShards p cache) (.pop p)
  | .put b, .inShards p cache => go (.inShards p cache) (.put p b)
  | .exit, .idle =>
    some ({ spot := match x.tlsKey with | some c => .exitLock c | none => .idle }, .nothing)
  | .destroy p, .idle => go (.mark p) .nothing
  | _, _ => none

/-- The state after a step of the thread. -/
def after (x : CacheThread) (e : CacheEffect) : CacheState T :=
  { s.apply t e with threads := Function.update s.threads t x }

/-- One step of the thread. -/
def step (l : T × CacheOp) : Option (CacheState T) :=
  (s.plan l.1 l.2).map fun r => s.after l.1 r.1 r.2

/-! ## The branches -/

variable {s t}

/-- The steps of a thread that keep its thread-local variables: from one spot to another. -/
inductive Goes (s : CacheState T) (t : T) : CacheSpot → CacheSpot → CacheEffect → Prop
  | get (p : ℕ) : Goes s t .idle (.fastPool p) .nothing
  | fastNone (p : ℕ) (htls : (s.threads t).tlsCache = none) :
      Goes s t (.fastPool p) (.slowDestroyed p none) .nothing
  | fastOwn (p c : ℕ) (htls : (s.threads t).tlsCache = some c)
      (hpool : (s.caches c).pool = some p) : Goes s t (.fastPool p) (.fastDestroyed p c) .nothing
  | fastOther (p c : ℕ) (htls : (s.threads t).tlsCache = some c)
      (hpool : (s.caches c).pool ≠ some p) :
      Goes s t (.fastPool p) (.slowDestroyed p (some c)) .nothing
  | fastMiss (p c : ℕ) (hdestroyed : (s.pools p).destroyed = true) :
      Goes s t (.fastDestroyed p c) (.slowDestroyed p (some c)) .nothing
  | fastHit (p c : ℕ) (halive : (s.pools p).destroyed = false) :
      Goes s t (.fastDestroyed p c) (.got p (some c)) .nothing
  | slowNone (p : ℕ) (halive : (s.pools p).destroyed = false) :
      Goes s t (.slowDestroyed p none) (.regEnter p) .nothing
  | slowSome (p c : ℕ) (halive : (s.pools p).destroyed = false) :
      Goes s t (.slowDestroyed p (some c)) (.slowPool p c) .nothing
  | slowSame (p c : ℕ) (hpool : (s.caches c).pool = some p) :
      Goes s t (.slowPool p c) (.regEnter p) .nothing
  | slowOther (p c : ℕ) (hpool : (s.caches c).pool ≠ some p) :
      Goes s t (.slowPool p c) (.slowNull p c) .nothing
  | slowOrphan (p c : ℕ) (hpool : (s.caches c).pool = none) :
      Goes s t (.slowNull p c) (.freeOrphan p c) .nothing
  | slowListed (p c : ℕ) (hpool : (s.caches c).pool ≠ none) :
      Goes s t (.slowNull p c) (.leaveLock p c) .nothing
  | leaveLock (p c : ℕ) (hfree : (s.caches c).cleanupMutex = none) :
      Goes s t (.leaveLock p c) (.leaveLoad p c) (.lock c)
  | leaveNull (p c : ℕ) (hpool : (s.caches c).pool = none) :
      Goes s t (.leaveLoad p c) (.leaveUnlockNull p c) .nothing
  | leaveLoad (p c q : ℕ) (hpool : (s.caches c).pool = some q) :
      Goes s t (.leaveLoad p c) (.leaveEnter p c q) .nothing
  | leaveUnlockNull (p c : ℕ) : Goes s t (.leaveUnlockNull p c) (.freeOrphan p c) (.unlock c)
  | leaveEnter (p c q : ℕ) : Goes s t (.leaveEnter p c q) (.leaveCheck p c q) (.users q 1)
  | leaveFree (p c q : ℕ) : Goes s t (.leaveCheck p c q) (.leaveClean p c q .free) .nothing
  | leaveFlush (p c q : ℕ) (halive : (s.pools q).destroyed = false) :
      Goes s t (.leaveCheck p c q) (.leaveClean p c q .flush) .nothing
  | leaveClean (p c q : ℕ) (mode : CacheCleanupMode) :
      Goes s t (.leaveClean p c q mode) (.leaveUnlock p c q) (.cleanup (some q) c mode)
  | leaveUnlock (p c q : ℕ) : Goes s t (.leaveUnlock p c q) (.leaveExit p c q) (.unlock c)
  | regEnter (p : ℕ) : Goes s t (.regEnter p) (.regCheck p) (.registrations p 1)
  | regLate (p : ℕ) (hdestroyed : (s.pools p).destroyed = true) :
      Goes s t (.regCheck p) (.regBail p) .nothing
  | regCheck (p : ℕ) (halive : (s.pools p).destroyed = false) :
      Goes s t (.regCheck p) (.regCreate p) .nothing
  | createFail (p : ℕ) (key : Bool) : Goes s t (.regCreate p) (.regFail p) (.keyInit key)
  | create (p : ℕ) (key : Bool) :
      Goes s t (.regCreate p) (.regPush p s.cacheCount) (.create p key)
  | regFail (p : ℕ) : Goes s t (.regFail p) (.got p none) (.registrations p (-1))
  | regPush (p c : ℕ) : Goes s t (.regPush p c) (.regRecheck p c) (.push p c)
  | recheckLate (p c : ℕ) (hdestroyed : (s.pools p).destroyed = true) :
      Goes s t (.regRecheck p c) (.lateLock p c) .nothing
  | recheck (p c : ℕ) : Goes s t (.regRecheck p c) (.regDone p c false) .nothing
  | lateLock (p c : ℕ) (hfree : (s.caches c).cleanupMutex = none) :
      Goes s t (.lateLock p c) (.lateMark p c) (.lock c)
  | lateMark (p c : ℕ) : Goes s t (.lateMark p c) (.lateUnlock p c) (.markCleaned c)
  | lateUnlock (p c : ℕ) : Goes s t (.lateUnlock p c) (.regDone p c true) (.unlock c)
  | done (p : ℕ) (cache : Option ℕ) : Goes s t (.got p cache) .idle .nothing
  | take (p c : ℕ) : Goes s t (.got p (some c)) (.got p (some c)) (.take c)
  | store (p c b : ℕ) : Goes s t (.got p (some c)) (.storeLock p c b) .nothing
  | storeLock (p c b : ℕ) (hfree : (s.caches c).cleanupMutex = none) :
      Goes s t (.storeLock p c b) (.storeCheck p c b) (.lock c)
  | storeFail (p c b : ℕ) : Goes s t (.storeCheck p c b) (.storeUnlock p c) .nothing
  | storeCheck (p c b : ℕ) (hclean : (s.caches c).cleanedUp = false) :
      Goes s t (.storeCheck p c b) (.storePush p c b) .nothing
  | storePush (p c b : ℕ) : Goes s t (.storePush p c b) (.storeUnlock p c) (.store c b)
  | storeUnlock (p c : ℕ) : Goes s t (.storeUnlock p c) .idle (.unlock c)
  | enter (p : ℕ) (cache : Option ℕ) : Goes s t (.got p cache) (.userEnter p cache) .nothing
  | userEnter (p : ℕ) (cache : Option ℕ) :
      Goes s t (.userEnter p cache) (.userCheck p cache) (.users p 1)
  | userLate (p : ℕ) (cache : Option ℕ) : Goes s t (.userCheck p cache) (.userBack p) .nothing
  | userCheck (p : ℕ) (cache : Option ℕ) (halive : (s.pools p).destroyed = false) :
      Goes s t (.userCheck p cache) (.inShards p cache) .nothing
  | userBack (p : ℕ) : Goes s t (.userBack p) .idle (.users p (-1))
  | refill (p c k : ℕ) : Goes s t (.inShards p (some c)) (.inShards p (some c)) (.refill p c k)
  | flush (p c k : ℕ) : Goes s t (.inShards p (some c)) (.inShards p (some c)) (.flush p c k)
  | pop (p : ℕ) (cache : Option ℕ) : Goes s t (.inShards p cache) (.inShards p cache) (.pop p)
  | put (p b : ℕ) (cache : Option ℕ) : Goes s t (.inShards p cache) (.inShards p cache) (.put p b)
  | userLeave (p : ℕ) (cache : Option ℕ) :
      Goes s t (.inShards p cache) (.got p cache) (.users p (-1))
  | exitLock (c : ℕ) (hfree : (s.caches c).cleanupMutex = none) :
      Goes s t (.exitLock c) (.exitMark c) (.lock c)
  | exitMark (c : ℕ) : Goes s t (.exitMark c) (.exitLoad c) (.markExited c)
  | exitNull (c : ℕ) (hpool : (s.caches c).pool = none) :
      Goes s t (.exitLoad c) (.exitFree c) .nothing
  | exitLoad (c q : ℕ) (hpool : (s.caches c).pool = some q) :
      Goes s t (.exitLoad c) (.exitEnter c q) .nothing
  | exitEnter (c q : ℕ) : Goes s t (.exitEnter c q) (.exitCheck c q) (.users q 1)
  | exitLate (c q : ℕ) : Goes s t (.exitCheck c q) (.exitBack c q) .nothing
  | exitCheck (c q : ℕ) (halive : (s.pools q).destroyed = false) :
      Goes s t (.exitCheck c q) (.exitFlush c q) .nothing
  | exitBack (c q : ℕ) : Goes s t (.exitBack c q) (.exitFree c) (.users q (-1))
  | exitFlush (c q : ℕ) : Goes s t (.exitFlush c q) (.exitLeave c q) (.cleanup (some q) c .flush)
  | exitLeave (c q : ℕ) : Goes s t (.exitLeave c q) (.exitGone c) (.users q (-1))
  | exitFree (c : ℕ) : Goes s t (.exitFree c) (.exitGone c) (.cleanup none c .free)
  | exitGone (c : ℕ) : Goes s t (.exitGone c) (.exitUnlock c (s.caches c).pool.isNone) .nothing
  | exitUnlockGone (c : ℕ) : Goes s t (.exitUnlock c true) (.exitDrop c) (.unlock c)
  | exitUnlock (c : ℕ) : Goes s t (.exitUnlock c false) .idle (.unlock c)
  | exitDrop (c : ℕ) : Goes s t (.exitDrop c) .idle (.free c)
  | destroy (p : ℕ) : Goes s t .idle (.mark p) .nothing
  | mark (p : ℕ) : Goes s t (.mark p) (.waitRegistrations p) (.markDestroyed p)
  | spinRegistrations (p : ℕ) : Goes s t (.waitRegistrations p) (.waitRegistrations p) .nothing
  | registrationsGone (p : ℕ) (hnone : (s.pools p).registrationsInflight ≤ 0) :
      Goes s t (.waitRegistrations p) (.waitUsers p) .nothing
  | spinUsers (p : ℕ) : Goes s t (.waitUsers p) (.waitUsers p) .nothing
  | usersGone (p : ℕ) (hnone : (s.pools p).activeUsers ≤ 0) :
      Goes s t (.waitUsers p) (.detach p) .nothing
  | detachNil (p : ℕ) (hlist : (s.pools p).threadCaches = []) :
      Goes s t (.detach p) (.destroyShards p) (.detach p)
  | detach (p c : ℕ) (rest : List ℕ) (hlist : (s.pools p).threadCaches = c :: rest) :
      Goes s t (.detach p) (.procLock p c rest) (.detach p)
  | procLock (p c : ℕ) (rest : List ℕ) (hfree : (s.caches c).cleanupMutex = none) :
      Goes s t (.procLock p c rest) (.procClean p c rest) (.lock c)
  | procClean (p c : ℕ) (rest : List ℕ) :
      Goes s t (.procClean p c rest) (.procOrphan p c rest) (.cleanup none c .free)
  | procOrphan (p c : ℕ) (rest : List ℕ) :
      Goes s t (.procOrphan p c rest) (.procUnlock p c rest (s.caches c).threadExited) (.orphan c)
  | procUnlock (p c : ℕ) (rest : List ℕ) (exited : Bool) :
      Goes s t (.procUnlock p c rest exited) (.procDecide p c rest exited) (.unlock c)
  | procFree (p c : ℕ) (rest : List ℕ) (hother : (s.caches c).ownerThread ≠ some t) :
      Goes s t (.procDecide p c rest true) (nextCache p rest) (.free c)
  | procKeep (p c : ℕ) (rest : List ℕ) (hother : (s.caches c).ownerThread ≠ some t) :
      Goes s t (.procDecide p c rest false) (nextCache p rest) .nothing
  | destroyShards (p : ℕ) : Goes s t (.destroyShards p) .idle (.destroyShards p)

/-- The steps of a thread, one for each branch. -/
inductive Move (s : CacheState T) (t : T) : CacheThread → CacheEffect → Prop
  | go {x y : CacheSpot} {e : CacheEffect} (hspot : (s.threads t).spot = x) (h : Goes s t x y e) :
      Move s t { s.threads t with spot := y } e
  | slowGone (p : ℕ) (cache : Option ℕ) (hspot : (s.threads t).spot = .slowDestroyed p cache)
      (hdestroyed : (s.pools p).destroyed = true) :
      Move s t { s.threads t with spot := .got p none, tlsCache := none } .nothing
  | freeOrphan (p c : ℕ) (hspot : (s.threads t).spot = .freeOrphan p c) :
      Move s t (s.dropCache t p) (.free c)
  | leaveExit (p c q : ℕ) (hspot : (s.threads t).spot = .leaveExit p c q) :
      Move s t (s.dropCache t p) (.users q (-1))
  | regBail (p : ℕ) (hspot : (s.threads t).spot = .regBail p) :
      Move s t { s.threads t with spot := .got p none, tlsCache := none } (.registrations p (-1))
  | regDone (p c : ℕ) (late : Bool) (hspot : (s.threads t).spot = .regDone p c late) :
      Move s t
        (s.setKey { s.threads t with
          spot := .got p (if late then none else some c), tlsCache := some c } (some c))
        (.registrations p (-1))
  | exit (hspot : (s.threads t).spot = .idle) (hkey : (s.threads t).tlsKey = none) :
      Move s t {} .nothing
  | exitCache (c : ℕ) (hspot : (s.threads t).spot = .idle)
      (hkey : (s.threads t).tlsKey = some c) : Move s t { spot := .exitLock c } .nothing
  | procOwn (p c : ℕ) (rest : List ℕ) (exited : Bool)
      (hspot : (s.threads t).spot = .procDecide p c rest exited)
      (hown : (s.caches c).ownerThread = some t) :
      Move s t
        (s.setKey { s.threads t with
          spot := nextCache p rest
          tlsCache := if (s.threads t).tlsCache = some c then none else (s.threads t).tlsCache }
          none)
        (.free c)

theorem Move.of_decideFree {p c : ℕ} {rest : List ℕ} {exited : Bool}
    (hspot : (s.threads t).spot = .procDecide p c rest exited) :
    Move s t (s.decideFree t p c rest exited).1 (s.decideFree t p c rest exited).2 := by
  unfold decideFree
  split_ifs with hown hexited
  · exact .procOwn p c rest exited hspot hown
  · subst hexited
    exact .go hspot (.procFree p c rest hown)
  · obtain rfl := Bool.eq_false_of_not_eq_true hexited
    exact .go hspot (.procKeep p c rest hown)

theorem Move.of_advance {x : CacheThread} {e : CacheEffect} (h : s.advance t = some (x, e)) :
    Move s t x e := by
  -- where the thread-local variables stay
  have go {a b : CacheSpot} {e' : CacheEffect} (hspot : (s.threads t).spot = a)
      (h : some ({ s.threads t with spot := b }, e') = some (x, e)) (hg : Goes s t a b e') :
      Move s t x e := by
    cases h
    exact .go hspot hg
  unfold advance at h
  dsimp only at h
  split at h
  case h_3 p cache hspot =>
    split_ifs at h with hdestroyed
    · cases h
      exact .slowGone p cache hspot hdestroyed
    · have halive := Bool.eq_false_of_not_eq_true hdestroyed
      cases cache with
      | none => exact go hspot h (.slowNone p halive)
      | some c => exact go hspot h (.slowSome p c halive)
  case h_6 p c hspot =>
    cases h
    exact .freeOrphan p c hspot
  case h_14 p c q hspot =>
    cases h
    exact .leaveExit p c q hspot
  case h_17 p hspot =>
    cases h
    exact .regBail p hspot
  case h_24 p c late hspot =>
    cases h
    exact .regDone p c late hspot
  case h_43 c gone hspot =>
    cases gone with
    | true => exact go hspot h (.exitUnlockGone c)
    | false => exact go hspot h (.exitUnlock c)
  case h_46 p hspot =>
    split_ifs at h with hsome
    · exact go hspot h (.spinRegistrations p)
    · exact go hspot h (.registrationsGone p (Int.not_lt.1 hsome))
  case h_47 p hspot =>
    split_ifs at h with hsome
    · exact go hspot h (.spinUsers p)
    · exact go hspot h (.usersGone p (Int.not_lt.1 hsome))
  case h_53 p c rest exited hspot =>
    obtain ⟨rfl, rfl⟩ := Prod.mk.inj (Option.some.inj h)
    exact .of_decideFree hspot
  all_goals rename_i hspot
  -- the guard of a branch is what the branch was chosen by
  all_goals try split at h
  all_goals try split at h
  all_goals first
    | refine go hspot h ?_
    | cases h
  all_goals constructor
  all_goals first
    | assumption
    | simp_all

theorem Move.of_plan {op : CacheOp} {x : CacheThread} {e : CacheEffect}
    (h : s.plan t op = some (x, e)) : Move s t x e := by
  unfold plan at h
  dsimp only at h
  split at h
  case h_1 => exact .of_advance h
  case h_13 hspot =>
    cases hkey : (s.threads t).tlsKey with
    | none =>
        rw [hkey] at h
        cases h
        exact .exit hspot hkey
    | some c =>
        rw [hkey] at h
        cases h
        exact .exitCache c hspot hkey
  case h_15 => cases h
  all_goals
    cases h
    refine .go ‹_› ?_
    constructor

/-- What a step can do. -/
theorem move_of_step {op : CacheOp} {s' : CacheState T} (h : s.step (t, op) = some s') :
    ∃ x e, Move s t x e ∧ s' = s.after t x e := by
  obtain ⟨⟨x, e⟩, hplan, rfl⟩ := Option.map_eq_some_iff.1 h
  exact ⟨x, e, .of_plan hplan, rfl⟩

end CacheState

/-- The threads `T` and the pools; at first no pool has been used. -/
def cacheSystem (T : Type*) [DecidableEq T] : System (CacheState T) (T × CacheOp) :=
  System.ofFn (fun s => s = {}) fun s l => s.step l

end Aura
