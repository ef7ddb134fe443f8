import Aura.Buffer.Pool

/-!
# Threads and pools

Several pools, the threads that use them and the heap they share. Each of `buffer_pool_init`,
`buffer_pool_alloc`, `buffer_pool_free`, the exit of a thread and `buffer_pool_destroy` is one step
(`poolSystem`). What the heap and the thread library answer in a step is part of its label
(`Answers`).

A pool is its generation number, `pool_id`, so two pools are never the same, and the `pool` pointer
of a cache is null exactly when the pool that registered it is destroyed. -/

namespace Aura

open Lib

/-- A pool and the number of a cache on its list. -/
abbrev CacheRef := ℕ × ℕ

/-- Pools, heap and what each thread keeps: `tls_cache` and the value of `tls_key`. The key is
created once; `tls_key_valid` tells whether this succeeded. -/
structure BufferWorld where
  pools : ℕ → BufferPool
  poolCount : ℕ := 0
  heap : Heap UInt64 := .empty
  tlsCache : ℕ → Option CacheRef := fun _ => none
  tlsKey : ℕ → Option CacheRef := fun _ => none
  tlsKeyOnce : Bool := false
  tlsKeyValid : Bool := false

/-- What the surroundings answer in one operation: the allocations of buffers in order, and whether
the key, the cache and its mutex can be created. -/
structure Answers where
  offers : ℕ → Option UInt64 := fun _ => none
  keyCreate : Bool := true
  cacheAlloc : Bool := true
  mutexInit : Bool := true

namespace BufferWorld

variable (w : BufferWorld)

/-- One pool with the heap. -/
def poolHeap (q : ℕ) : PoolHeap := { pool := w.pools q, heap := w.heap }

/-- Put one pool and the heap back. -/
def withPool (q : ℕ) (s : PoolHeap) : BufferWorld :=
  { w with pools := Function.update w.pools q s.pool, heap := s.heap }

/-- Apply an operation of one pool and the heap. -/
def onPool (q : ℕ) (f : PoolHeap → PoolHeap) : BufferWorld := w.withPool q (f (w.poolHeap q))

def setTls (t : ℕ) (cache : Option CacheRef) : BufferWorld :=
  { w with tlsCache := Function.update w.tlsCache t cache }

/-- `pthread_setspecific`, under a valid key. -/
def setKey (t : ℕ) (cache : Option CacheRef) : BufferWorld :=
  if w.tlsKeyValid then { w with tlsKey := Function.update w.tlsKey t cache } else w

/-- `cache->pool`. -/
def cachePool (cache : CacheRef) : Option ℕ :=
  if (w.pools cache.1).destroyed then none else some cache.1

/-- `tls_key_init`, once. -/
def tlsKeyInit (keyCreate : Bool) : BufferWorld :=
  if w.tlsKeyOnce then w else { w with tlsKeyOnce := true, tlsKeyValid := keyCreate }

/-! ## The cache of a thread -/

/-- `get_thread_cache` for a thread without a usable cache: register a new one. -/
def registerCache (t q : ℕ) (a : Answers) : Option ℕ × BufferWorld :=
  let w := w.tlsKeyInit a.keyCreate
  if !a.cacheAlloc then (none, w)
  else if !a.mutexInit then (none, w)
  else
    let i := (w.pools q).cacheCount
    let w := w.onPool q fun s => s.onPool (·.register t)
    (some i, (w.setKey t (some (q, i))).setTls t (some (q, i)))

/-- `get_thread_cache` for a thread whose cache belongs to another pool. If that pool is destroyed
the cache itself is freed, which nothing here depends on; else its buffers are flushed. -/
def leaveCache (t : ℕ) (cache : CacheRef) : BufferWorld :=
  let w :=
    match w.cachePool cache with
    | none => w
    | some old => w.onPool old fun s =>
        s.cleanupCacheBuffersLocked true cache.2 (if s.pool.destroyed then .free else .flush)
  (w.setTls t none).setKey t none

/-- `get_thread_cache`. -/
def getThreadCache (t q : ℕ) (a : Answers) : Option ℕ × BufferWorld :=
  match w.tlsCache t with
  | some cache =>
      if w.cachePool cache = some q ∧ (w.pools q).destroyed = false then (some cache.2, w)
      else if (w.pools q).destroyed then (none, w.setTls t none)
      else if w.cachePool cache ≠ some q then (none, w.leaveCache t cache)
      else w.registerCache t q a
  | none =>
      if (w.pools q).destroyed then (none, w.setTls t none)
      else w.registerCache t q a

/-! ## The operations -/

/-- `buffer_pool_alloc`. -/
def bufferPoolAlloc (t q size : ℕ) (a : Answers) : Option UInt64 × BufferWorld :=
  if size = 0 ∨ size > BUFFER_POOL_MAX_SIZE then (none, w)
  else
    let (cache, w) := w.getThreadCache t q a
    let (buf, s) := (w.poolHeap q).allocFrom cache (sizeToClass size) a.offers
    (buf, w.withPool q s)

/-- `buffer_pool_free`. -/
def bufferPoolFree (t q : ℕ) (buf : UInt64) (size : ℕ) (a : Answers) : BufferWorld :=
  if buf = 0 then w
  else if size = 0 then w.onPool q (·.free buf)
  else if (w.pools q).destroyed then w.onPool q (·.free buf)
  else
    let (cache, w) := w.getThreadCache t q a
    w.onPool q fun s => s.freeInto cache (sizeToClass size) buf

/-- The cleanup in `tls_destructor`: the buffers go to the shards, or to the heap if the pool is
destroyed. -/
def cleanupExited (cache : CacheRef) : BufferWorld :=
  match w.cachePool cache with
  | some q =>
      if (w.pools q).destroyed then
        w.onPool q fun s => s.cleanupCacheBuffersLocked false cache.2 .free
      else w.onPool q fun s => s.cleanupCacheBuffersLocked true cache.2 .flush
  | none => w.onPool cache.1 fun s => s.cleanupCacheBuffersLocked false cache.2 .free

/-- `tls_destructor`. -/
def tlsDestructor (t : ℕ) (cache : CacheRef) : BufferWorld :=
  ((w.setTls t none).onPool cache.1 fun s => s.onPool (·.markExited cache.2)).cleanupExited cache

/-- The end of a thread: the value of the key is cleared and given to the destructor. -/
def exitThread (t : ℕ) : BufferWorld :=
  match w.tlsKey t with
  | none => w.setTls t none
  | some cache =>
      BufferWorld.tlsDestructor { w with tlsKey := Function.update w.tlsKey t none } t cache

/-! ## Destruction -/

/-- `cleanup_phase_2_process_caches` for one cache, by the calling thread. -/
def processCache (t q : ℕ) (w : BufferWorld) (i : ℕ) : BufferWorld :=
  let w := w.onPool q fun s => s.cleanupCacheBuffersLocked false i .free
  if ((w.pools q).threadCaches i).ownerThread = t then
    let w := if w.tlsCache t = some (q, i) then w.setTls t none else w
    w.setKey t none
  else w

/-- `shard_destroy`. -/
def destroyShard (q : ℕ) (w : BufferWorld) (i : ℕ) : BufferWorld :=
  w.onPool q fun s =>
    { pool := s.pool.setShard i { s.pool.shards i with
        sizeBuckets := fun _ => [], freeSlots := [], freeCount := 0 }
      heap := (List.finRange BUFFER_SIZE_CLASSES).foldl
        (fun h c => h.freeAll (((s.pool.shards i).sizeBuckets c).map (·.buffer))) s.heap }

/-- `buffer_pool_destroy`: mark the pool, process the caches from the last registered one on, then
destroy the shards. -/
def bufferPoolDestroy (t q : ℕ) : BufferWorld :=
  let w := w.onPool q fun s => s.onPool fun p => { p with destroyed := true }
  let w := (List.range (w.pools q).cacheCount).reverse.foldl (processCache t q) w
  let w := w.onPool q fun s => s.onPool fun p => { p with cacheCount := 0 }
  let w := (List.range (w.pools q).shardCount).foldl (destroyShard q) w
  w.onPool q fun s => s.onPool fun p =>
    { p with shardCount := 0, shardMask := 0, totalAllocated := 0, totalBuffers := 0 }

end BufferWorld

/-! ## Runs -/

/-- An operation of a thread. -/
inductive PoolOp
  | init (cpus : ℤ)
  | alloc (t q size : ℕ) (a : Answers)
  | free (t q : ℕ) (buf : UInt64) (size : ℕ) (a : Answers)
  | exit (t : ℕ)
  | destroy (t q : ℕ)

/-- The buffers handed out by each pool and not freed yet, with the class they were asked for. -/
abbrev Outstanding := ℕ → Multiset Buffer

/-- The result of an allocation is outstanding. -/
def Outstanding.allocated (out : Outstanding) (q size : ℕ) : Option UInt64 → Outstanding
  | none => out
  | some buf => Function.update out q ((buf, sizeToClass size) ::ₘ out q)

/-- A freed buffer is not. -/
def Outstanding.freed (out : Outstanding) (q : ℕ) (buf : UInt64) (size : ℕ) : Outstanding :=
  Function.update out q ((out q).erase (buf, sizeToClass size))

/-- What the callers keep to: they use pools that were initialised, and free what is outstanding,
with a size of its class. -/
def PoolOp.Valid (op : PoolOp) (w : BufferWorld) (out : Outstanding) : Prop :=
  match op with
  | .init _ | .exit _ => True
  | .alloc _ q _ _ | .destroy _ q => q < w.poolCount
  | .free _ q buf size _ => q < w.poolCount ∧ 0 < size ∧ (buf, sizeToClass size) ∈ out q

/-- The state after an operation. -/
def PoolOp.apply (op : PoolOp) (s : BufferWorld × Outstanding) : BufferWorld × Outstanding :=
  match op with
  | .init cpus =>
      ({ s.1 with
        pools := Function.update s.1.pools s.1.poolCount (bufferPoolInit cpus)
        poolCount := s.1.poolCount + 1 }, s.2)
  | .alloc t q size a =>
      let r := s.1.bufferPoolAlloc t q size a
      (r.2, s.2.allocated q size r.1)
  | .free t q buf size a => (s.1.bufferPoolFree t q buf size a, s.2.freed q buf size)
  | .exit t => (s.1.exitThread t, s.2)
  | .destroy t q => (s.1.bufferPoolDestroy t q, s.2)

/-- The pools from the start of the program on. -/
def poolSystem : System (BufferWorld × Outstanding) PoolOp where
  init s := s = ({ pools := fun _ => {} }, fun _ => 0)
  step s op s' := op.Valid s.1 s.2 ∧ s' = op.apply s

end Aura
