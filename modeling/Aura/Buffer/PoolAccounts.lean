import Mathlib.Algebra.Order.Group.Multiset
import Mathlib.Algebra.BigOperators.Group.Multiset.Basic
import Mathlib.Tactic.Abel
import Aura.Buffer.Pool

/-!
# Where the buffers of a pool are

The buffers of a pool as multisets: in the buckets of a shard, in a cache, in the whole pool
(`BufferPool.stored`), with the blocks of the heap they are and their total size.

* `BufferShard.popBucket_contents`, `BufferShard.pushBucket_contents`: one buffer leaves or enters.
* `BufferPool.cacheRefill_spec`, `BufferPool.flushLoop_spec`: what moves between a cache and its
  shard.
* `BufferPool.Sound` collects the bounds and counts inside a pool, `BufferPool.Frame` what the
  operations leave alone.
-/

namespace Aura

open Lib

/-! ## Size classes -/

theorem sizeToClass_classToSize : ∀ c : SizeClass, sizeToClass (classToSize c) = c := by
  decide

theorem classToSize_pos (classIdx : ℕ) : 0 < classToSize classIdx :=
  Nat.mul_pos (by decide) (Nat.two_pow_pos _)

/-- A class is large enough for the sizes mapped to it. -/
theorem le_classToSize {size : ℕ} (h : size ≤ BUFFER_POOL_MAX_SIZE) :
    size ≤ classToSize (sizeToClass size) := by
  unfold sizeToClass
  split_ifs with hsmall
  · exact hsmall
  · have hlt : size - 1 < 2 ^ (Nat.log2 (size - 1) + 1) := Nat.lt_log2_self
    have hge : 12 ≤ Nat.log2 (size - 1) := by
      rw [Nat.le_log2 (by omega)]
      omega
    have hsplit : 2 ^ (Nat.log2 (size - 1) + 1) = 4096 * 2 ^ (Nat.log2 (size - 1) + 1 - 12) := by
      rw [show (4096 : ℕ) = 2 ^ 12 from rfl, ← Nat.pow_add]
      congr 1
      omega
    simp only [classToSize]
    split
    · dsimp only
      omega
    · exact h

/-! ## Where the buffers are -/

/-- Buffers of one class. -/
def tagged (c : SizeClass) (bs : List UInt64) : Multiset Buffer :=
  (bs : Multiset UInt64).map fun buf => (buf, c)

@[simp] theorem tagged_nil (c : SizeClass) : tagged c [] = 0 := rfl

@[simp] theorem tagged_cons (c : SizeClass) (buf : UInt64) (bs : List UInt64) :
    tagged c (buf :: bs) = (buf, c) ::ₘ tagged c bs := rfl

@[simp] theorem tagged_append (c : SizeClass) (bs bs' : List UInt64) :
    tagged c (bs ++ bs') = tagged c bs + tagged c bs' := by
  unfold tagged
  rw [← Multiset.coe_add, Multiset.map_add]

@[simp] theorem tagged_card (c : SizeClass) (bs : List UInt64) :
    (tagged c bs).card = bs.length := by
  unfold tagged
  rw [Multiset.card_map, Multiset.coe_card]

/-- The buffers in the buckets of a shard. -/
def BufferShard.contents (s : BufferShard) : Multiset Buffer :=
  ∑ c, tagged c ((s.sizeBuckets c).map (·.buffer))

/-- The buffers in a cache. -/
def ThreadCache.contents (k : ThreadCache) : Multiset Buffer := ∑ c, tagged c (k.buffers c)

/-- The buffers in the caches and the shards of a pool. -/
def BufferPool.stored (p : BufferPool) : Multiset Buffer :=
  ∑ i ∈ Finset.range p.cacheCount, (p.threadCaches i).contents +
    ∑ i ∈ Finset.range p.shardCount, (p.shards i).contents

/-- The blocks of buffers. -/
def blocksOf (m : Multiset Buffer) : Multiset (UInt64 × ℕ) :=
  m.map fun b => (b.1, classToSize b.2)

/-- The total class size of buffers. -/
def weight (m : Multiset Buffer) : ℤ := (m.map fun b => (classToSize b.2 : ℤ)).sum

@[simp] theorem blocksOf_zero : blocksOf 0 = 0 := rfl

@[simp] theorem blocksOf_add (m m' : Multiset Buffer) :
    blocksOf (m + m') = blocksOf m + blocksOf m' := Multiset.map_add _ _ _

@[simp] theorem blocksOf_cons (b : Buffer) (m : Multiset Buffer) :
    blocksOf (b ::ₘ m) = (b.1, classToSize b.2) ::ₘ blocksOf m := Multiset.map_cons _ _ _

theorem blocksOf_tagged (c : SizeClass) (bs : List UInt64) :
    blocksOf (tagged c bs) = (bs : Multiset UInt64).map (·, classToSize c) := by
  unfold blocksOf tagged
  rw [Multiset.map_map]
  rfl

@[simp] theorem weight_add (m m' : Multiset Buffer) : weight (m + m') = weight m + weight m' := by
  unfold weight
  rw [Multiset.map_add, Multiset.sum_add]

@[simp] theorem weight_tagged (c : SizeClass) (bs : List UInt64) :
    weight (tagged c bs) = classToSize c * bs.length := by
  unfold weight tagged
  rw [Multiset.map_map]
  change ((bs : Multiset UInt64).map fun _ => (classToSize c : ℤ)).sum = _
  rw [Multiset.map_const', Multiset.sum_replicate, Multiset.coe_card, nsmul_eq_mul, mul_comm]

/-! ## Shards -/

namespace BufferShard

variable {s s' : BufferShard} {c : SizeClass} {buf : UInt64}

/-- The counts of a shard: `free_count` counts the buffers in its buckets, and the slots that hold
none are on the free list. -/
structure Sound (s : BufferShard) : Prop where
  freeCount : s.freeCount = ∑ c, ((s.sizeBuckets c).length : ℤ)
  slots : s.freeCount + s.freeSlots.length = s.slotPoolSize

theorem shardInit_sound : shardInit.Sound where
  freeCount := by decide
  slots := by simp [shardInit]

theorem shardInit_contents : shardInit.contents = 0 := by
  unfold contents
  exact Finset.sum_eq_zero fun c _ => rfl

/-- What the buckets of a shard hold, after one of them changed. -/
theorem contents_exchange {x y : Multiset Buffer} {l : List BufferSlot}
    (hs : s'.sizeBuckets = Function.update s.sizeBuckets c l)
    (h : tagged c (l.map (·.buffer)) + x = tagged c ((s.sizeBuckets c).map (·.buffer)) + y) :
    s'.contents + x = s.contents + y := by
  have hsum := sum_update_exchange (s := Finset.univ) (Finset.mem_univ c) (f := s.sizeBuckets)
    (a := l) (fun c (slots : List BufferSlot) => tagged c (slots.map (·.buffer))) h
  unfold contents
  rw [hs]
  exact hsum

/-- A shard stays sound when one bucket changes as `free_count` and the free list do. -/
theorem Sound.exchange {d : ℤ} {l : List BufferSlot} (h : s.Sound)
    (hs : s'.sizeBuckets = Function.update s.sizeBuckets c l)
    (hbucket : (l.length : ℤ) = (s.sizeBuckets c).length + d)
    (hcount : s'.freeCount = s.freeCount + d)
    (hslots : (s'.freeSlots.length : ℤ) = s.freeSlots.length - d)
    (hsize : s'.slotPoolSize = s.slotPoolSize) : s'.Sound where
  freeCount := by
    have hsum := sum_update_exchange (s := Finset.univ) (Finset.mem_univ c) (f := s.sizeBuckets)
      (a := l) (fun _ (slots : List BufferSlot) => (slots.length : ℤ)) (x := 0) (y := d)
      (by rw [hbucket, add_zero])
    rw [hcount, h.freeCount, hs, ← hsum, add_zero]
  slots := by
    have hold := h.slots
    omega

/-- Popping takes one buffer out of the shard. -/
theorem popBucket_contents (h : s.popBucket c = some (buf, s')) :
    s'.contents + {(buf, c)} = s.contents := by
  unfold popBucket at h
  split at h
  · cases h
  · next slot next heq =>
    obtain ⟨rfl, rfl⟩ := Prod.mk.inj (Option.some.inj h)
    rw [← add_zero s.contents]
    refine contents_exchange rfl ?_
    rw [heq, List.map_cons, tagged_cons, add_zero, add_comm, Multiset.singleton_add]

theorem popBucket_sound (h : s.popBucket c = some (buf, s')) (hs : s.Sound) : s'.Sound := by
  unfold popBucket at h
  split at h
  · cases h
  · next slot next heq =>
    obtain ⟨-, rfl⟩ := Prod.mk.inj (Option.some.inj h)
    refine hs.exchange (d := -1) rfl ?_ rfl ?_ rfl
    · rw [heq, List.length_cons, Nat.cast_add, Nat.cast_one, add_neg_cancel_right]
    · rw [List.length_cons, Nat.cast_add, Nat.cast_one, sub_neg_eq_add]

/-- Pushing puts one buffer into the shard. -/
theorem pushBucket_contents {n : ℕ} (h : s.pushBucket c n buf = some s') :
    s'.contents = s.contents + {(buf, c)} := by
  unfold pushBucket at h
  split at h
  · cases h
  · obtain rfl := Option.some.inj h
    rw [← add_zero (contents _)]
    refine contents_exchange rfl ?_
    rw [List.map_cons, tagged_cons, add_zero, add_comm, Multiset.singleton_add]

theorem pushBucket_sound {n : ℕ} (h : s.pushBucket c n buf = some s') (hs : s.Sound) :
    s'.Sound := by
  unfold pushBucket at h
  split at h
  · cases h
  · next slot next heq =>
    obtain rfl := Option.some.inj h
    refine hs.exchange (d := 1) rfl ?_ rfl ?_ rfl
    · rw [List.length_cons, Nat.cast_add, Nat.cast_one]
    · rw [heq, List.length_cons, Nat.cast_add, Nat.cast_one, add_sub_cancel_right]

end BufferShard

/-! ## Caches and pools -/

namespace BufferPool

variable {p p' p'' : BufferPool} {i : ℕ} {c : SizeClass} {x y : Multiset Buffer}

/-- A cache on the list of the pool that was not cleaned up. -/
structure Active (p : BufferPool) (i : ℕ) : Prop where
  lt : i < p.cacheCount
  clean : (p.threadCaches i).cleanedUp = false

/-- The bounds and counts inside a pool. -/
structure Sound (p : BufferPool) : Prop where
  shards : ∀ i < p.shardCount, (p.shards i).Sound
  shardId : ∀ i < p.cacheCount, (p.threadCaches i).shardId < p.shardCount
  lengths : ∀ i < p.cacheCount, ∀ c, p.cacheLength i c ≤ THREAD_CACHE_SIZE
  cleaned : ∀ i, (p.threadCaches i).cleanedUp = true → ∀ c, (p.threadCaches i).buffers c = []
  mask : p.shardMask.toNat < p.shardCount
  overflows : ∀ n ∈ p.overflows, n ≤ THREAD_CACHE_SIZE + THREAD_CACHE_BATCH_SIZE

/-- What the operations on one class of a pool leave alone. -/
structure Frame (p p' : BufferPool) : Prop where
  destroyed : p'.destroyed = p.destroyed
  cacheCount : p'.cacheCount = p.cacheCount
  shardCount : p'.shardCount = p.shardCount
  ownerThread : ∀ i, (p'.threadCaches i).ownerThread = (p.threadCaches i).ownerThread
  cleanedUp : ∀ i, (p'.threadCaches i).cleanedUp = (p.threadCaches i).cleanedUp

theorem Frame.refl (p : BufferPool) : Frame p p := ⟨rfl, rfl, rfl, fun _ => rfl, fun _ => rfl⟩

theorem Frame.trans (h : Frame p p') (h' : Frame p' p'') : Frame p p'' where
  destroyed := h'.destroyed.trans h.destroyed
  cacheCount := h'.cacheCount.trans h.cacheCount
  shardCount := h'.shardCount.trans h.shardCount
  ownerThread i := (h'.ownerThread i).trans (h.ownerThread i)
  cleanedUp i := (h'.cleanedUp i).trans (h.cleanedUp i)

theorem Frame.active (h : Frame p p') (ha : p.Active i) : p'.Active i :=
  ⟨h.cacheCount ▸ ha.lt, (h.cleanedUp i).trans ha.clean⟩

/-- What the operations on one cache of a pool leave alone. -/
structure FrameBut (i : ℕ) (p p' : BufferPool) : Prop where
  destroyed : p'.destroyed = p.destroyed
  cacheCount : p'.cacheCount = p.cacheCount
  ownerThread : ∀ j, (p'.threadCaches j).ownerThread = (p.threadCaches j).ownerThread
  cleanedUp : ∀ j, j ≠ i → (p'.threadCaches j).cleanedUp = (p.threadCaches j).cleanedUp

theorem Frame.but (h : Frame p p') (i : ℕ) : FrameBut i p p' :=
  ⟨h.destroyed, h.cacheCount, h.ownerThread, fun j _ => h.cleanedUp j⟩

theorem FrameBut.trans (h : FrameBut i p p') (h' : FrameBut i p' p'') : FrameBut i p p'' where
  destroyed := h'.destroyed.trans h.destroyed
  cacheCount := h'.cacheCount.trans h.cacheCount
  ownerThread j := (h'.ownerThread j).trans (h.ownerThread j)
  cleanedUp j hj := (h'.cleanedUp j hj).trans (h.cleanedUp j hj)

theorem FrameBut.active {j : ℕ} (h : FrameBut i p p') (hj : j ≠ i) (ha : p.Active j) :
    p'.Active j := ⟨h.cacheCount ▸ ha.lt, (h.cleanedUp j hj).trans ha.clean⟩

theorem setShard_frame (p : BufferPool) (i : ℕ) (s : BufferShard) : Frame p (p.setShard i s) :=
  ⟨rfl, rfl, rfl, fun _ => rfl, fun _ => rfl⟩

theorem count_frame (p : BufferPool) (c : SizeClass) (n : ℤ) : Frame p (p.count c n) :=
  ⟨rfl, rfl, rfl, fun _ => rfl, fun _ => rfl⟩

theorem setCache_frame {k : ThreadCache} (ho : k.ownerThread = (p.threadCaches i).ownerThread)
    (hc : k.cleanedUp = (p.threadCaches i).cleanedUp) : Frame p (p.setCache i k) := by
  refine ⟨rfl, rfl, rfl, fun j => ?_, fun j => ?_⟩
  all_goals
    rw [setCache_threadCaches]
    by_cases hj : j = i
    · rw [hj, Function.update_self]
      assumption
    · rw [Function.update_of_ne hj]

theorem setCache_frameBut {k : ThreadCache}
    (ho : k.ownerThread = (p.threadCaches i).ownerThread) : FrameBut i p (p.setCache i k) := by
  refine ⟨rfl, rfl, fun j => ?_, fun j hj => ?_⟩
  · rw [setCache_threadCaches]
    by_cases hj : j = i
    · rw [hj, Function.update_self]
      exact ho
    · rw [Function.update_of_ne hj]
  · rw [setCache_threadCaches, Function.update_of_ne hj]

theorem setCacheBuffers_frame (p : BufferPool) (i : ℕ) (c : SizeClass) (bs : List UInt64) :
    Frame p (p.setCacheBuffers i c bs) := setCache_frame rfl rfl

theorem selectShard_frame (p : BufferPool) (cache : Option ℕ) :
    Frame p (p.selectShard cache).2 := by
  cases cache with
  | none => exact ⟨rfl, rfl, rfl, fun _ => rfl, fun _ => rfl⟩
  | some i => exact Frame.refl p

/-- What a cache holds, after one class of it changed. -/
theorem cacheContents_exchange {k k' : ThreadCache} {bs : List UInt64}
    (hk : k'.buffers = Function.update k.buffers c bs)
    (h : tagged c bs + x = tagged c (k.buffers c) + y) : k'.contents + x = k.contents + y := by
  have hsum := sum_update_exchange (s := Finset.univ) (Finset.mem_univ c) (f := k.buffers)
    (a := bs) tagged h
  unfold ThreadCache.contents
  rw [hk]
  exact hsum

/-- What the pool stores, after a cache changed. -/
theorem setCache_stored (hi : i < p.cacheCount) {k : ThreadCache}
    (h : k.contents + x = (p.threadCaches i).contents + y) :
    (p.setCache i k).stored + x = p.stored + y := by
  have hsum := sum_update_exchange (Finset.mem_range.mpr hi) (f := p.threadCaches)
    (fun _ (k : ThreadCache) => k.contents) h
  unfold stored setCache
  rw [add_right_comm, hsum, add_right_comm]

/-- What the pool stores, after a class of a cache changed. -/
theorem setCacheBuffers_stored (hi : i < p.cacheCount) {bs : List UInt64}
    (h : tagged c bs + x = tagged c ((p.threadCaches i).buffers c) + y) :
    (p.setCacheBuffers i c bs).stored + x = p.stored + y :=
  setCache_stored hi (cacheContents_exchange rfl h)

/-- What the pool stores, after a shard changed. -/
theorem setShard_stored (hi : i < p.shardCount) {s : BufferShard}
    (h : s.contents + x = (p.shards i).contents + y) :
    (p.setShard i s).stored + x = p.stored + y := by
  have hsum := sum_update_exchange (Finset.mem_range.mpr hi) (f := p.shards) (a := s)
    (fun _ (s : BufferShard) => s.contents) h
  unfold stored setShard
  rw [add_assoc, hsum, add_assoc]

@[simp] theorem count_stored (n : ℤ) : (p.count c n).stored = p.stored := rfl

@[simp] theorem selectShard_stored (cache : Option ℕ) :
    (p.selectShard cache).2.stored = p.stored := by
  cases cache <;> rfl

theorem Sound.setShard (h : p.Sound) {s : BufferShard} (hs : s.Sound) : (p.setShard i s).Sound where
  shards j hj := by
    by_cases hji : j = i
    · rw [hji, setShard_shards, Function.update_self]
      exact hs
    · rw [setShard_shards, Function.update_of_ne hji]
      exact h.shards j hj
  shardId := h.shardId
  lengths := h.lengths
  cleaned := h.cleaned
  mask := h.mask
  overflows := h.overflows

/-- A pool stays sound with a new cache in place of an old one. -/
theorem Sound.setCache (h : p.Sound) {k : ThreadCache}
    (hshard : i < p.cacheCount → k.shardId < p.shardCount)
    (hlen : i < p.cacheCount → ∀ c, (k.buffers c).length ≤ THREAD_CACHE_SIZE)
    (hclean : k.cleanedUp = true → ∀ c, k.buffers c = []) : (p.setCache i k).Sound where
  shards := h.shards
  shardId j hj := by
    rw [setCache_threadCaches]
    by_cases hji : j = i
    · subst hji
      rw [Function.update_self]
      exact hshard hj
    · rw [Function.update_of_ne hji]
      exact h.shardId j hj
  lengths j hj c := by
    rw [cacheLength, setCache_threadCaches]
    by_cases hji : j = i
    · subst hji
      rw [Function.update_self]
      exact hlen hj c
    · rw [Function.update_of_ne hji]
      exact h.lengths j hj c
  cleaned j hj c := by
    rw [setCache_threadCaches] at hj ⊢
    by_cases hji : j = i
    · subst hji
      rw [Function.update_self] at hj ⊢
      exact hclean hj c
    · rw [Function.update_of_ne hji] at hj ⊢
      exact h.cleaned j hj c
  mask := h.mask
  overflows := h.overflows

theorem Sound.setCacheBuffers (h : p.Sound) (hi : p.Active i) {bs : List UInt64}
    (hbs : bs.length ≤ THREAD_CACHE_SIZE) : (p.setCacheBuffers i c bs).Sound := by
  refine h.setCache (h.shardId i) (fun hlt c' => ?_) fun hc => ?_
  · change (Function.update (p.threadCaches i).buffers c bs c').length ≤ _
    by_cases hc : c' = c
    · rw [hc, Function.update_self]
      exact hbs
    · rw [Function.update_of_ne hc]
      exact h.lengths i hlt c'
  · exact absurd (hi.clean.symm.trans hc) Bool.false_ne_true

/-- An empty cache may be marked. -/
theorem Sound.markCleaned (h : p.Sound) (hempty : ∀ c, (p.threadCaches i).buffers c = []) :
    (p.markCleaned i).Sound :=
  h.setCache (h.shardId i) (h.lengths i) fun _ => hempty

/-- Changing the marks of a cache does not change what the pool stores. -/
theorem setCache_stored_eq {k : ThreadCache} (hk : k.buffers = (p.threadCaches i).buffers) :
    (p.setCache i k).stored = p.stored := by
  unfold stored
  refine congrArg (· + _) (Finset.sum_congr rfl fun j _ => ?_)
  rw [setCache_threadCaches]
  by_cases hj : j = i
  · rw [hj, Function.update_self]
    unfold ThreadCache.contents
    rw [hk]
  · rw [Function.update_of_ne hj]

theorem markCleaned_stored : (p.markCleaned i).stored = p.stored := setCache_stored_eq rfl

theorem markExited_stored : (p.markExited i).stored = p.stored := setCache_stored_eq rfl

theorem markExited_frame (p : BufferPool) (i : ℕ) : Frame p (p.markExited i) :=
  setCache_frame rfl rfl

theorem Sound.markExited (h : p.Sound) : (p.markExited i).Sound :=
  h.setCache (h.shardId i) (h.lengths i) (h.cleaned i)

theorem Sound.count (h : p.Sound) (c : SizeClass) (n : ℤ) : (p.count c n).Sound :=
  ⟨h.shards, h.shardId, h.lengths, h.cleaned, h.mask, h.overflows⟩

theorem Sound.selectShard (h : p.Sound) (cache : Option ℕ) : (p.selectShard cache).2.Sound := by
  cases cache with
  | none => exact ⟨h.shards, h.shardId, h.lengths, h.cleaned, h.mask, h.overflows⟩
  | some i => exact h

/-- A masked number is the index of a shard. -/
theorem Sound.masked (h : p.Sound) (n : UInt32) : (n &&& p.shardMask).toNat < p.shardCount := by
  rw [UInt32.toNat_and]
  exact Nat.and_le_right.trans_lt h.mask

theorem Sound.selectShard_lt (h : p.Sound) (cache : Option ℕ)
    (hcache : ∀ i ∈ cache, i < p.cacheCount) : (p.selectShard cache).1 < p.shardCount := by
  cases cache with
  | none => exact h.masked _
  | some i => exact h.shardId i (hcache i rfl)

/-! ### Registering a cache -/

theorem register_of_ne {t j : ℕ} (hj : j ≠ p.cacheCount) :
    (p.register t).threadCaches j = p.threadCaches j := Function.update_of_ne hj _ _

@[simp] theorem register_self (t : ℕ) : (p.register t).threadCaches p.cacheCount =
    { ownerThread := t, shardId := (p.nextShard &&& p.shardMask).toNat } :=
  Function.update_self _ _ _

theorem Sound.register (h : p.Sound) (t : ℕ) : (p.register t).Sound where
  shards := h.shards
  shardId j hj := by
    rcases Nat.lt_succ_iff_lt_or_eq.mp hj with hlt | rfl
    · rw [register_of_ne (ne_of_lt hlt)]
      exact h.shardId j hlt
    · rw [register_self]
      exact h.masked _
  lengths j hj c := by
    unfold cacheLength
    rcases Nat.lt_succ_iff_lt_or_eq.mp hj with hlt | rfl
    · rw [register_of_ne (ne_of_lt hlt)]
      exact h.lengths j hlt c
    · rw [register_self]
      exact Nat.zero_le _
  cleaned j hj c := by
    by_cases hji : j = p.cacheCount
    · rw [hji, register_self]
    · rw [register_of_ne hji] at hj ⊢
      exact h.cleaned j hj c
  mask := h.mask
  overflows := h.overflows

theorem register_active {t j : ℕ} (ha : p.Active j) : (p.register t).Active j :=
  ⟨Nat.lt_succ_of_lt ha.lt, by rw [register_of_ne (ne_of_lt ha.lt)]; exact ha.clean⟩

/-- A new cache is empty. -/
theorem register_stored (t : ℕ) : (p.register t).stored = p.stored := by
  have hcaches : ∑ j ∈ Finset.range (p.cacheCount + 1), ((p.register t).threadCaches j).contents =
      ∑ j ∈ Finset.range p.cacheCount, (p.threadCaches j).contents := by
    rw [Finset.sum_range_succ, register_self]
    have hnew : ThreadCache.contents
        { ownerThread := t, shardId := (p.nextShard &&& p.shardMask).toNat } = 0 :=
      Finset.sum_eq_zero fun c _ => rfl
    rw [hnew, add_zero]
    refine Finset.sum_congr rfl fun j hj => ?_
    rw [register_of_ne (ne_of_lt (Finset.mem_range.mp hj))]
  unfold stored
  exact congrArg (· + _) hcaches

/-! ### Between a cache and its shard -/

/-- A refill moves buffers from the shard to the cache, within the size of the cache. -/
theorem refillLoop_spec {n : ℕ} {s s' : BufferShard} {bs bs' : List UInt64}
    (hr : refillLoop c n s bs = (s', bs')) (hs : s.Sound) (hbs : bs.length ≤ THREAD_CACHE_SIZE) :
    s'.Sound ∧ s'.contents + tagged c bs' = s.contents + tagged c bs ∧
      bs'.length ≤ THREAD_CACHE_SIZE := by
  induction n generalizing s bs with
  | zero =>
      cases hr
      exact ⟨hs, rfl, hbs⟩
  | succ n ih =>
      unfold refillLoop at hr
      split_ifs at hr with hroom
      · cases hpop : s.popBucket c with
        | none =>
            rw [hpop] at hr
            cases hr
            exact ⟨hs, rfl, hbs⟩
        | some r =>
            rw [hpop] at hr
            obtain ⟨hs', heq, hmax⟩ := ih hr (BufferShard.popBucket_sound hpop hs) hroom
            refine ⟨hs', heq.trans ?_, hmax⟩
            rw [← BufferShard.popBucket_contents hpop, tagged_cons, ← Multiset.singleton_add,
              add_assoc]
      · cases hr
        exact ⟨hs, rfl, hbs⟩

/-- `cache_refill` keeps what the pool stores. -/
theorem cacheRefill_spec {n : ℕ} (hr : p.cacheRefill i c = (n, p')) (h : p.Sound)
    (hi : p.Active i) :
    p'.Sound ∧ p'.stored = p.stored ∧ Frame p p' ∧ p'.totalAllocated = p.totalAllocated ∧
      p'.totalBuffers = p.totalBuffers := by
  cases hloop : refillLoop c THREAD_CACHE_BATCH_SIZE (p.shards (p.threadCaches i).shardId)
      ((p.threadCaches i).buffers c) with
  | mk s bs =>
      simp only [cacheRefill, hloop] at hr
      obtain ⟨-, rfl⟩ := Prod.mk.inj hr
      have hshard := h.shardId i hi.lt
      obtain ⟨hs, heq, hmax⟩ := refillLoop_spec hloop (h.shards _ hshard) (h.lengths i hi.lt c)
      refine ⟨(h.setShard hs).setCacheBuffers ⟨hi.lt, hi.clean⟩ hmax, ?_,
        (setShard_frame p _ _).trans (setCacheBuffers_frame _ _ _ _), rfl, rfl⟩
      have h₁ := setShard_stored hshard heq
      have h₂ := @setCacheBuffers_stored (p.setShard (p.threadCaches i).shardId s) i c
        (tagged c ((p.threadCaches i).buffers c)) (tagged c bs) hi.lt bs (add_comm _ _)
      exact add_right_cancel (h₂.trans h₁)

/-- A flush moves buffers from the cache to the shard or to the overflow list. -/
theorem flushLoop_spec (size : ℕ) (bs : List UInt64) (s : BufferShard) (n : ℕ)
    (toFree : List UInt64) (hs : s.Sound) :
    (flushLoop c size bs s n toFree).shard.Sound ∧
      (flushLoop c size bs s n toFree).shard.contents +
          (tagged c (flushLoop c size bs s n toFree).buffers +
            tagged c (flushLoop c size bs s n toFree).toFree) =
        s.contents + (tagged c bs + tagged c toFree) ∧
      (flushLoop c size bs s n toFree).buffers.length +
          (flushLoop c size bs s n toFree).toFree.length ≤ bs.length + toFree.length := by
  induction bs generalizing s n toFree with
  | nil => exact ⟨hs, rfl, le_refl _⟩
  | cons buf bs ih =>
      unfold flushLoop
      split_ifs with hbatch hcap
      · refine ⟨hs, ?_, ?_⟩
        · dsimp only
          rw [tagged_append, tagged_nil, zero_add, add_comm (tagged c toFree)]
        · rw [List.length_append, List.length_nil]
          omega
      · cases hpush : s.pushBucket c size buf with
        | none =>
            obtain ⟨hs', heq, hle⟩ := ih s n (toFree ++ [buf]) hs
            refine ⟨hs', heq.trans ?_, hle.trans ?_⟩
            · rw [tagged_append, tagged_cons, tagged_cons, tagged_nil, ← Multiset.singleton_add,
                ← Multiset.singleton_add]
              abel
            · rw [List.length_append, List.length_cons, List.length_cons, List.length_nil]
              omega
        | some s' =>
            obtain ⟨hs', heq, hle⟩ :=
              ih s' (n + 1) toFree (BufferShard.pushBucket_sound hpush hs)
            refine ⟨hs', heq.trans ?_, hle.trans ?_⟩
            · rw [BufferShard.pushBucket_contents hpush, tagged_cons, ← Multiset.singleton_add]
              abel
            · rw [List.length_cons]
              omega
      · exact ⟨hs, rfl, le_refl _⟩

/-- A flush leaves no more buffers than there were. -/
theorem flushLoop_length_le (size : ℕ) (bs : List UInt64) (s : BufferShard) (n : ℕ)
    (toFree : List UInt64) : (flushLoop c size bs s n toFree).buffers.length ≤ bs.length := by
  induction bs generalizing s n toFree with
  | nil => exact le_refl _
  | cons buf bs ih =>
      unfold flushLoop
      split_ifs
      · exact Nat.zero_le _
      · cases s.pushBucket c size buf with
        | none => exact (ih _ _ _).trans (Nat.le_succ _)
        | some s' => exact (ih _ _ _).trans (Nat.le_succ _)
      · exact le_refl _

/-- The flush of a class that is not empty takes a buffer out of the cache. -/
theorem flushLoop_length_lt (size : ℕ) (buf : UInt64) (bs : List UInt64) (s : BufferShard) :
    (flushLoop c size (buf :: bs) s 0 []).buffers.length ≤ bs.length := by
  unfold flushLoop
  rw [if_pos (by decide)]
  split_ifs
  · exact Nat.zero_le _
  · cases s.pushBucket c size buf with
    | none => exact flushLoop_length_le _ _ _ _ _
    | some s' => exact flushLoop_length_le _ _ _ _ _

end BufferPool

end Aura
