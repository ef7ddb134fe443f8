import Mathlib.Data.UInt
import Aura.Lib.Heap
import Aura.Buffer.SizeMap

/-!
# Buffer pools

The pool of `adaptive_buffer.c`: size classes, shards with their buckets and metadata slots, thread
caches, and the operations of one pool on its shards, its caches and the heap (`PoolHeap`). The
linked lists and the arrays of a cache are lists with the head or the top first; a count of the
cache is a length. Each operation is one step, so the counts of operations in flight
(`active_users`, `registrations_inflight`) and the mutexes are left out. -/

namespace Aura

open Lib

/-- `THREAD_CACHE_SIZE`. -/
abbrev THREAD_CACHE_SIZE : ℕ := 32
/-- `THREAD_CACHE_BATCH_SIZE`. -/
abbrev THREAD_CACHE_BATCH_SIZE : ℕ := 16
/-- `BUFFER_POOL_DEFAULT_MAX_FREE_PER_SHARD`. -/
abbrev BUFFER_POOL_DEFAULT_MAX_FREE_PER_SHARD : ℕ := 256
/-- `BUFFER_POOL_MIN_SHARDS`. -/
abbrev BUFFER_POOL_MIN_SHARDS : ℕ := 2
/-- `BUFFER_POOL_MAX_SHARDS`. -/
abbrev BUFFER_POOL_MAX_SHARDS : ℕ := 256
/-- `BUFFER_POOL_MAX_SIZE`. -/
abbrev BUFFER_POOL_MAX_SIZE : ℕ := 4096 * 2 ^ (BUFFER_SIZE_CLASSES - 1)

/-! ## Size classes -/

/-- The index of a size class. -/
abbrev SizeClass := Fin BUFFER_SIZE_CLASSES

/-- `size_to_class`. The number of bits of `size - 1` is one more than its binary logarithm. -/
def sizeToClass (size : ℕ) : SizeClass :=
  if size ≤ 4096 then 0
  else
    let bits := Nat.log2 (size - 1) + 1
    let classIdx := bits - 12
    if h : classIdx < BUFFER_SIZE_CLASSES then ⟨classIdx, h⟩ else 15

/-- `class_to_size`. -/
def classToSize (classIdx : ℕ) : ℕ := 4096 * 2 ^ classIdx

/-- A buffer with its class. -/
abbrev Buffer := UInt64 × SizeClass

/-! ## Shards -/

/-- `buffer_slot_t`. -/
structure BufferSlot where
  buffer : UInt64 := 0
  actualSize : ℕ := 0
deriving DecidableEq

/-- `buffer_shard_t`. The slots of `slot_pool` are in a bucket or in `free_slots`. -/
structure BufferShard where
  sizeBuckets : SizeClass → List BufferSlot := fun _ => []
  freeSlots : List BufferSlot := []
  slotPoolSize : ℤ := 0
  freeCount : ℤ := 0
  maxFreeCount : ℤ := 0

/-- `shard_init`, when its allocation succeeds. -/
def shardInit : BufferShard where
  freeSlots := List.replicate BUFFER_POOL_DEFAULT_MAX_FREE_PER_SHARD {}
  slotPoolSize := BUFFER_POOL_DEFAULT_MAX_FREE_PER_SHARD
  maxFreeCount := BUFFER_POOL_DEFAULT_MAX_FREE_PER_SHARD

namespace BufferShard

/-- The high-water mark is reached. -/
def atCapacity (s : BufferShard) : Bool :=
  decide (s.maxFreeCount > 0) && decide (s.freeCount ≥ s.maxFreeCount)

/-- Pop a buffer from a bucket, and return its slot to the free list. -/
def popBucket (s : BufferShard) (c : SizeClass) : Option (UInt64 × BufferShard) :=
  match s.sizeBuckets c with
  | [] => none
  | slot :: next => some (slot.buffer, { s with
      sizeBuckets := Function.update s.sizeBuckets c next
      freeCount := s.freeCount - 1
      freeSlots := { slot with buffer := 0 } :: s.freeSlots })

/-- Take a slot from the free list, and push it with a buffer to a bucket. -/
def pushBucket (s : BufferShard) (c : SizeClass) (bucketSize : ℕ) (buf : UInt64) :
    Option BufferShard :=
  match s.freeSlots with
  | [] => none
  | _ :: next => some { s with
      freeSlots := next
      sizeBuckets := Function.update s.sizeBuckets c
        ({ buffer := buf, actualSize := bucketSize } :: s.sizeBuckets c)
      freeCount := s.freeCount + 1 }

end BufferShard

/-! ## Caches and pools -/

/-- `thread_cache_t`. Its `pool` is the pool whose list holds it. -/
structure ThreadCache where
  ownerThread : ℕ
  shardId : ℕ
  buffers : SizeClass → List UInt64 := fun _ => []
  cleanedUp : Bool := false
  threadExited : Bool := false

/-- `buffer_pool_t`. The caches are numbered in the order of their registration. The ghost
`overflows` records the length of the overflow list of each `cache_flush`. -/
structure BufferPool where
  shards : ℕ → BufferShard := fun _ => {}
  shardCount : ℕ := 0
  shardMask : UInt32 := 0
  threadCaches : ℕ → ThreadCache := fun _ => { ownerThread := 0, shardId := 0 }
  cacheCount : ℕ := 0
  destroyed : Bool := false
  totalAllocated : ℤ := 0
  totalBuffers : ℤ := 0
  nextShard : UInt32 := 0
  overflows : List ℕ := []

/-- The loop of `calculate_shard_count`. -/
def shardsUpTo (target : ℕ) : ℕ → ℕ → ℕ
  | 0, shards => shards
  | n + 1, shards =>
      if shards < target ∧ shards < BUFFER_POOL_MAX_SHARDS then shardsUpTo target n (shards * 2)
      else shards

/-- `calculate_shard_count`. Seven doublings of the minimum reach the maximum. -/
def calculateShardCount (cpus : ℤ) : ℕ :=
  let cpus := if cpus < 1 then 1 else cpus
  let target := (cpus / 4).toNat
  if target < BUFFER_POOL_MIN_SHARDS then BUFFER_POOL_MIN_SHARDS
  else shardsUpTo target 7 BUFFER_POOL_MIN_SHARDS

/-- `buffer_pool_init`, when its allocations succeed. -/
def bufferPoolInit (cpus : ℤ) : BufferPool where
  shards _ := shardInit
  shardCount := calculateShardCount cpus
  shardMask := UInt32.ofNat (calculateShardCount cpus - 1)

namespace BufferPool

/-- The number of buffers of a class in a cache. -/
def cacheLength (p : BufferPool) (i : ℕ) (c : SizeClass) : ℕ :=
  ((p.threadCaches i).buffers c).length

def setCache (p : BufferPool) (i : ℕ) (k : ThreadCache) : BufferPool :=
  { p with threadCaches := Function.update p.threadCaches i k }

/-- Replace the buffers of a class in a cache. -/
def setCacheBuffers (p : BufferPool) (i : ℕ) (c : SizeClass) (bs : List UInt64) : BufferPool :=
  p.setCache i { p.threadCaches i with
    buffers := Function.update (p.threadCaches i).buffers c bs }

/-- Mark a cache as cleaned up. -/
def markCleaned (p : BufferPool) (i : ℕ) : BufferPool :=
  p.setCache i { p.threadCaches i with cleanedUp := true }

/-- Mark the thread of a cache as exited. -/
def markExited (p : BufferPool) (i : ℕ) : BufferPool :=
  p.setCache i { p.threadCaches i with threadExited := true }

def setShard (p : BufferPool) (i : ℕ) (s : BufferShard) : BufferPool :=
  { p with shards := Function.update p.shards i s }

@[simp] theorem setShard_shards (p : BufferPool) (i : ℕ) (s : BufferShard) :
    (p.setShard i s).shards = Function.update p.shards i s := rfl

@[simp] theorem setCache_threadCaches (p : BufferPool) (i : ℕ) (k : ThreadCache) :
    (p.setCache i k).threadCaches = Function.update p.threadCaches i k := rfl

@[simp] theorem setCacheBuffers_buffers (p : BufferPool) (i : ℕ) (c : SizeClass)
    (bs : List UInt64) :
    ((p.setCacheBuffers i c bs).threadCaches i).buffers =
      Function.update (p.threadCaches i).buffers c bs := by
  rw [setCacheBuffers, setCache_threadCaches, Function.update_self]

/-- Count `n` buffers of a class in or out. -/
def count (p : BufferPool) (c : SizeClass) (n : ℤ) : BufferPool :=
  { p with
    totalAllocated := p.totalAllocated + classToSize c * n
    totalBuffers := p.totalBuffers + n }

/-- `select_shard`: the shard of the cache, or the next one in turn. -/
def selectShard (p : BufferPool) : Option ℕ → ℕ × BufferPool
  | some i => ((p.threadCaches i).shardId, p)
  | none => ((p.nextShard &&& p.shardMask).toNat, { p with nextShard := p.nextShard + 1 })

/-- Put a new cache on the list of the pool, on the next shard in turn. -/
def register (p : BufferPool) (t : ℕ) : BufferPool :=
  { p with
    threadCaches := Function.update p.threadCaches p.cacheCount
      { ownerThread := t, shardId := (p.nextShard &&& p.shardMask).toNat }
    cacheCount := p.cacheCount + 1
    nextShard := p.nextShard + 1 }

/-- The loop of `cache_refill`, for at most `n` buffers, on the shard and the buffers of the class
in the cache. -/
def refillLoop (c : SizeClass) : ℕ → BufferShard → List UInt64 → BufferShard × List UInt64
  | 0, s, bs => (s, bs)
  | n + 1, s, bs =>
      if bs.length < THREAD_CACHE_SIZE then
        match s.popBucket c with
        | none => (s, bs)
        | some (buf, s) => refillLoop c n s (buf :: bs)
      else (s, bs)

/-- `cache_refill`, with the number of buffers transferred. -/
def cacheRefill (p : BufferPool) (i : ℕ) (c : SizeClass) : ℕ × BufferPool :=
  let shardId := (p.threadCaches i).shardId
  let (s, bs) := refillLoop c THREAD_CACHE_BATCH_SIZE (p.shards shardId)
    ((p.threadCaches i).buffers c)
  (bs.length - p.cacheLength i c, (p.setShard shardId s).setCacheBuffers i c bs)

/-- What `cache_flush` has after its loop: the buffers left in the cache, the shard, the number of
buffers transferred and the overflow list `to_free`. -/
structure Flushed where
  buffers : List UInt64
  shard : BufferShard
  transferred : ℕ
  toFree : List UInt64

/-- The loop of `cache_flush`, on the buffers of the class in the cache. -/
def flushLoop (c : SizeClass) (bucketSize : ℕ) :
    List UInt64 → BufferShard → ℕ → List UInt64 → Flushed
  | [], s, n, toFree => ⟨[], s, n, toFree⟩
  | buf :: bs, s, n, toFree =>
      if n < THREAD_CACHE_BATCH_SIZE then
        -- at the high-water mark the whole cache is drained
        if s.atCapacity then ⟨[], s, n, toFree ++ buf :: bs⟩
        else
          match s.pushBucket c bucketSize buf with
          | none => flushLoop c bucketSize bs s n (toFree ++ [buf])
          | some s => flushLoop c bucketSize bs s (n + 1) toFree
      else ⟨buf :: bs, s, n, toFree⟩

end BufferPool

/-! ## A pool and the heap -/

/-- A pool, with the heap its buffers come from. -/
structure PoolHeap where
  pool : BufferPool
  heap : Heap UInt64

/-- `cache_cleanup_mode_t`. -/
inductive CacheCleanupMode
  | flush
  | free

namespace PoolHeap

/-- Apply an operation to the pool alone. -/
def onPool (s : PoolHeap) (f : BufferPool → BufferPool) : PoolHeap := { s with pool := f s.pool }

/-- `free`. -/
def free (s : PoolHeap) (buf : UInt64) : PoolHeap := { s with heap := s.heap.free buf }

/-- `cache_flush`. It returns the number of buffers transferred, or the negated number of buffers
freed if none was. -/
def cacheFlush (s : PoolHeap) (i : ℕ) (c : SizeClass) (bucketSize : ℕ) : ℤ × PoolHeap :=
  let shardId := (s.pool.threadCaches i).shardId
  let r := BufferPool.flushLoop c bucketSize ((s.pool.threadCaches i).buffers c)
    (s.pool.shards shardId) 0 []
  (if r.transferred > 0 then r.transferred else -r.toFree.length,
    { pool := { ((s.pool.setShard shardId r.shard).setCacheBuffers i c r.buffers).count c
          (-r.toFree.length) with
        overflows := s.pool.overflows ++ [r.toFree.length] }
      heap := s.heap.freeAll r.toFree })

/-- The flushes of a class in `cleanup_cache_buffers_locked`. Each of them takes a buffer out of the
cache, so there are at most as many as the cache holds. -/
def flushClass (i : ℕ) (c : SizeClass) : ℕ → PoolHeap → PoolHeap
  | 0, s => s
  | n + 1, s =>
      if s.pool.cacheLength i c > 0 then flushClass i c n (s.cacheFlush i c (classToSize c)).2
      else s

/-- The frees of a class in `cleanup_cache_buffers_locked`. The counters are updated if the pool is
given. -/
def freeClass (counted : Bool) (i : ℕ) (s : PoolHeap) (c : SizeClass) : PoolHeap :=
  let bs := (s.pool.threadCaches i).buffers c
  { pool := ((if counted then s.pool.count c (-bs.length) else s.pool).setCacheBuffers i c [])
    heap := s.heap.freeAll bs }

/-- `cleanup_cache_buffers_locked` on a cache of the pool; `given` says whether the pool argument is
not null. -/
def cleanupCacheBuffersLocked (s : PoolHeap) (given : Bool) (i : ℕ) (mode : CacheCleanupMode) :
    PoolHeap :=
  if (s.pool.threadCaches i).cleanedUp then s
  else
    match mode, given with
    | .flush, true =>
        ((List.finRange BUFFER_SIZE_CLASSES).foldl
          (fun s c => flushClass i c (s.pool.cacheLength i c) s) s).onPool (·.markCleaned i)
    | _, _ =>
        ((List.finRange BUFFER_SIZE_CLASSES).foldl (freeClass given i) s).onPool (·.markCleaned i)

/-! ## Allocation -/

/-- Pop a buffer from a cache that holds one. -/
def popCache (s : PoolHeap) (i : ℕ) (c : SizeClass) : Option (UInt64 × PoolHeap) :=
  match (s.pool.threadCaches i).buffers c with
  | [] => none
  | buf :: bs => some (buf, s.onPool (·.setCacheBuffers i c bs))

/-- Allocate at most `n` extra buffers; `offers` answers the allocations, the next one at `k`. -/
def allocExtras (bucketSize : ℕ) (offers : ℕ → Option UInt64) :
    ℕ → ℕ → Heap UInt64 → List UInt64 × Heap UInt64
  | 0, _, h => ([], h)
  | n + 1, k, h =>
      match h.alloc (offers k) bucketSize with
      | (none, h) => ([], h)
      | (some extra, h) =>
          let (extras, h) := allocExtras bucketSize offers n (k + 1) h
          (extra :: extras, h)

/-- Store extra buffers in the cache while there is room: the cache, and the extras left. -/
def storeExtras : List UInt64 → List UInt64 → List UInt64 × List UInt64
  | [], bs => (bs, [])
  | extra :: extras, bs =>
      if bs.length < THREAD_CACHE_SIZE then storeExtras extras (extra :: bs)
      else (bs, extra :: extras)

/-- The pre-fill of a cache after an allocation from the heap. -/
def prefill (s : PoolHeap) (i : ℕ) (c : SizeClass) (offers : ℕ → Option UInt64) : PoolHeap :=
  let (extras, heap) :=
    allocExtras (classToSize c) offers (THREAD_CACHE_BATCH_SIZE - 1) 1 s.heap
  let (bs, left) :=
    if !(s.pool.threadCaches i).cleanedUp && !s.pool.destroyed then
      storeExtras extras ((s.pool.threadCaches i).buffers c)
    else ((s.pool.threadCaches i).buffers c, extras)
  { pool := (s.pool.setCacheBuffers i c bs).count c (extras.length - left.length)
    heap := heap.freeAll left }

/-- The allocation from the heap, which pre-fills the cache. -/
def allocHeap (s : PoolHeap) (cache : Option ℕ) (c : SizeClass) (offers : ℕ → Option UInt64) :
    Option UInt64 × PoolHeap :=
  match s.heap.alloc (offers 0) (classToSize c) with
  | (none, heap) => (none, { s with heap })
  | (some buf, heap) =>
      let s : PoolHeap := { pool := s.pool.count c 1, heap }
      (some buf, match cache with
        | none => s
        | some i => s.prefill i c offers)

/-- The allocation from a shard, or else from the heap. -/
def allocShard (s : PoolHeap) (cache : Option ℕ) (c : SizeClass) (offers : ℕ → Option UInt64) :
    Option UInt64 × PoolHeap :=
  let (shardId, pool) := s.pool.selectShard cache
  match (pool.shards shardId).popBucket c with
  | some (buf, shard) => (some buf, { s with pool := pool.setShard shardId shard })
  | none => allocHeap { s with pool } cache c offers

/-- `buffer_pool_alloc` once the cache of the thread is known. -/
def allocFrom (s : PoolHeap) (cache : Option ℕ) (c : SizeClass) (offers : ℕ → Option UInt64) :
    Option UInt64 × PoolHeap :=
  match cache with
  | none => if s.pool.destroyed then (none, s) else s.allocShard none c offers
  | some i =>
      match s.popCache i c with
      | some (buf, s) => (some buf, s)
      | none =>
          if s.pool.destroyed then (none, s)
          else
            let (refilled, pool) := s.pool.cacheRefill i c
            let s := { s with pool }
            if refilled > 0 then
              match s.popCache i c with
              | some (buf, s) => (some buf, s)
              | none => (none, s)
            else s.allocShard (some i) c offers

/-! ## Freeing -/

/-- Store a freed buffer in the cache, unless the cache was cleaned up. -/
def storeCache (s : PoolHeap) (i : ℕ) (c : SizeClass) (buf : UInt64) : PoolHeap :=
  if (s.pool.threadCaches i).cleanedUp || s.pool.destroyed then s.free buf
  else s.onPool fun p => p.setCacheBuffers i c (buf :: (p.threadCaches i).buffers c)

/-- Store a freed buffer in a shard, or return it to the heap. -/
def storeShard (s : PoolHeap) (cache : Option ℕ) (c : SizeClass) (bucketSize : ℕ) (buf : UInt64) :
    PoolHeap :=
  let (shardId, pool) := s.pool.selectShard cache
  let shard := pool.shards shardId
  match if shard.atCapacity then none else shard.pushBucket c bucketSize buf with
  | some shard => { s with pool := pool.setShard shardId shard }
  | none => ({ s with pool := pool.count c (-1) } : PoolHeap).free buf

/-- `buffer_pool_free` once the cache of the thread is known. -/
def freeInto (s : PoolHeap) (cache : Option ℕ) (c : SizeClass) (buf : UInt64) : PoolHeap :=
  let bucketSize := classToSize c
  match cache with
  | none => if s.pool.destroyed then s.free buf else s.storeShard none c bucketSize buf
  | some i =>
      if s.pool.cacheLength i c < THREAD_CACHE_SIZE then s.storeCache i c buf
      else if s.pool.destroyed then s.free buf
      else
        let (_, s) := s.cacheFlush i c bucketSize
        if s.pool.cacheLength i c < THREAD_CACHE_SIZE then s.storeCache i c buf
        else s.storeShard (some i) c bucketSize buf

end PoolHeap

end Aura
