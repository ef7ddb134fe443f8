import Aura.Buffer.PoolMachine
import Aura.Buffer.PoolSpec

/-!
# Conservation in the buffer pools

`BufferWorld.Sound w out` is what every operation keeps: the blocks of the heap are the buffers that
the pools store and those outstanding; the counters of a live pool count its own; the cache that a
thread refers to is its own and was not cleaned up; a destroyed pool stores nothing.

* `poolSystem_sound`: it holds in every reachable state.
* `buffer_pool_conservation`: the counts of a live pool, its shards and its caches.
-/

namespace Aura

open Lib BufferPool PoolHeap

namespace BufferWorld

variable {w w' : BufferWorld} {out : Outstanding} {t q : ℕ} {a : Answers} {s' : PoolHeap}

/-- The buffers stored and outstanding, over all pools. -/
def total (w : BufferWorld) (out : Outstanding) : Multiset Buffer :=
  ∑ q ∈ Finset.range w.poolCount, ((w.pools q).stored + out q)

/-- The buffers stored in and outstanding from the pools other than `q`. -/
def others (w : BufferWorld) (out : Outstanding) (q : ℕ) : Multiset Buffer :=
  ∑ q' ∈ (Finset.range w.poolCount).erase q, ((w.pools q').stored + out q')

theorem total_eq (w : BufferWorld) (out : Outstanding) (hq : q < w.poolCount) :
    w.total out = (w.pools q).stored + out q + w.others out q :=
  (Finset.add_sum_erase _ _ (Finset.mem_range.mpr hq)).symm

@[simp] theorem withPool_self (w : BufferWorld) (q : ℕ) (s : PoolHeap) :
    (w.withPool q s).pools q = s.pool := Function.update_self _ _ _

theorem withPool_of_ne {q' : ℕ} (hq : q' ≠ q) (s : PoolHeap) :
    (w.withPool q s).pools q' = w.pools q' := Function.update_of_ne hq _ _

@[simp] theorem withPool_poolHeap (w : BufferWorld) (q : ℕ) :
    w.withPool q (w.poolHeap q) = w := by
  unfold withPool poolHeap
  rw [Function.update_eq_self]

/-- The pools are the same, and the same ones are destroyed. -/
structure SameLife (w w' : BufferWorld) : Prop where
  poolCount : w'.poolCount = w.poolCount
  destroyed : ∀ q, (w'.pools q).destroyed = (w.pools q).destroyed

theorem SameLife.refl (w : BufferWorld) : SameLife w w := ⟨rfl, fun _ => rfl⟩

theorem SameLife.trans {w'' : BufferWorld} (h : SameLife w w') (h' : SameLife w' w'') :
    SameLife w w'' :=
  ⟨h'.poolCount.trans h.poolCount, fun q => (h'.destroyed q).trans (h.destroyed q)⟩

theorem SameLife.withPool (w : BufferWorld)
    (hdestroyed : s'.pool.destroyed = (w.pools q).destroyed) : SameLife w (w.withPool q s') := by
  refine ⟨rfl, fun q' => ?_⟩
  by_cases hqq : q' = q
  · rw [hqq, withPool_self]
    exact hdestroyed
  · rw [withPool_of_ne hqq]

theorem SameLife.setKey (w : BufferWorld) (t : ℕ) (cache : Option CacheRef) :
    SameLife w (w.setKey t cache) := by
  unfold BufferWorld.setKey
  split_ifs <;> exact ⟨rfl, fun _ => rfl⟩

theorem SameLife.setTls (w : BufferWorld) (t : ℕ) (cache : Option CacheRef) :
    SameLife w (w.setTls t cache) := ⟨rfl, fun _ => rfl⟩

theorem SameLife.tlsKeyInit (w : BufferWorld) (keyCreate : Bool) :
    SameLife w (w.tlsKeyInit keyCreate) := by
  unfold BufferWorld.tlsKeyInit
  split_ifs <;> exact ⟨rfl, fun _ => rfl⟩

/-- What every operation keeps. -/
structure Sound (w : BufferWorld) (out : Outstanding) : Prop where
  heap : w.heap.blocks = blocksOf (w.total out)
  live : ∀ q < w.poolCount, (w.pools q).destroyed = false → (w.pools q).Sound ∧
    (w.pools q).totalAllocated = weight ((w.pools q).stored + out q) ∧
    (w.pools q).totalBuffers = ((w.pools q).stored + out q).card
  dead : ∀ q < w.poolCount, (w.pools q).destroyed = true →
    (w.pools q).cacheCount = 0 ∧ (w.pools q).shardCount = 0
  fresh : ∀ q, w.poolCount ≤ q → out q = 0
  tls : ∀ t q i, w.tlsCache t = some (q, i) → q < w.poolCount ∧
    ((w.pools q).destroyed = false →
      (w.pools q).Active i ∧ ((w.pools q).threadCaches i).ownerThread = t)
  key : ∀ t q i, w.tlsKey t = some (q, i) → q < w.poolCount ∧
    ((w.pools q).destroyed = false →
      i < (w.pools q).cacheCount ∧ ((w.pools q).threadCaches i).ownerThread = t) ∧
    ((w.pools q).destroyed = true → ((w.pools q).threadCaches i).cleanedUp = true)

theorem Sound.holds (h : w.Sound out) (hq : q < w.poolCount)
    (hlive : (w.pools q).destroyed = false) : (w.poolHeap q).Holds (out q) (w.others out q) := by
  obtain ⟨hsound, ha, hb⟩ := h.live q hq hlive
  refine ⟨hsound, ha, hb, ?_⟩
  change _ = blocksOf ((w.pools q).stored + out q + _)
  rw [← total_eq w out hq]
  exact h.heap

/-- The total after a change of one pool and of what is outstanding from it. -/
theorem total_withPool (hq : q < w.poolCount) (s : PoolHeap) (m : Multiset Buffer) :
    (w.withPool q s).total (Function.update out q m) = s.pool.stored + m + w.others out q := by
  have hothers : (w.withPool q s).others (Function.update out q m) q = w.others out q := by
    refine Finset.sum_congr rfl fun q' hq' => ?_
    change (Function.update w.pools q s.pool q').stored + _ = _
    rw [Function.update_of_ne (Finset.ne_of_mem_erase hq'),
      Function.update_of_ne (Finset.ne_of_mem_erase hq')]
  rw [total_eq (w.withPool q s) _ hq, hothers, withPool_self, Function.update_self]

/-- **An operation on one live pool** keeps the world sound when it keeps its accounts and the
caches that threads refer to. -/
theorem Sound.onPool (h : w.Sound out) (hq : q < w.poolCount)
    (hlive : (w.pools q).destroyed = false) {m : Multiset Buffer}
    (hs : s'.Holds m (w.others out q)) (hdestroyed : s'.pool.destroyed = (w.pools q).destroyed)
    (hcaches : ∀ i < (w.pools q).cacheCount, i < s'.pool.cacheCount ∧
      (s'.pool.threadCaches i).ownerThread = ((w.pools q).threadCaches i).ownerThread)
    (hactive : ∀ t i, w.tlsCache t = some (q, i) → s'.pool.Active i) :
    (w.withPool q s').Sound (Function.update out q m) where
  heap := by
    rw [total_withPool hq]
    exact hs.heap
  live q' hq' hlive' := by
    by_cases hqq : q' = q
    · subst hqq
      rw [withPool_self, Function.update_self]
      exact ⟨hs.sound, hs.allocated, hs.buffers⟩
    · rw [withPool_of_ne hqq] at hlive' ⊢
      rw [Function.update_of_ne hqq]
      exact h.live q' hq' hlive'
  dead q' hq' hdead := by
    by_cases hqq : q' = q
    · subst hqq
      rw [withPool_self, hdestroyed, hlive] at hdead
      cases hdead
    · rw [withPool_of_ne hqq] at hdead ⊢
      exact h.dead q' hq' hdead
  fresh q' hq' := by
    rw [Function.update_of_ne (ne_of_gt (lt_of_lt_of_le hq hq'))]
    exact h.fresh q' hq'
  tls t q' i ht := by
    obtain ⟨hq', hown⟩ := h.tls t q' i ht
    refine ⟨hq', fun hlive' => ?_⟩
    by_cases hqq : q' = q
    · subst hqq
      obtain ⟨hact, howner⟩ := hown hlive
      rw [withPool_self]
      exact ⟨hactive t i ht, (hcaches i hact.lt).2.trans howner⟩
    · rw [withPool_of_ne hqq] at hlive' ⊢
      exact hown hlive'
  key t q' i ht := by
    obtain ⟨hq', hown, hdone⟩ := h.key t q' i ht
    refine ⟨hq', fun hlive' => ?_, fun hdead => ?_⟩
    all_goals by_cases hqq : q' = q
    · subst hqq
      obtain ⟨hlt, howner⟩ := hown hlive
      rw [withPool_self]
      exact ⟨(hcaches i hlt).1, (hcaches i hlt).2.trans howner⟩
    · rw [withPool_of_ne hqq] at hlive' ⊢
      exact hown hlive'
    · subst hqq
      rw [withPool_self, hdestroyed, hlive] at hdead
      cases hdead
    · rw [withPool_of_ne hqq] at hdead ⊢
      exact hdone hdead

/-- An operation on one class of one live pool. -/
theorem Sound.framed (h : w.Sound out) (hq : q < w.poolCount)
    (hlive : (w.pools q).destroyed = false) {m : Multiset Buffer}
    (hs : s'.Holds m (w.others out q) ∧ Frame (w.pools q) s'.pool) :
    (w.withPool q s').Sound (Function.update out q m) := by
  obtain ⟨hs, hframe⟩ := hs
  refine h.onPool hq hlive hs hframe.destroyed (fun i hi => ?_) fun t i ht => ?_
  · exact ⟨hframe.cacheCount ▸ hi, hframe.ownerThread i⟩
  · exact hframe.active ((h.tls t q i ht).2 hlive).1

/-- The cleanup of a cache that no thread refers to. -/
theorem Sound.cleanup (h : w.Sound out) (hq : q < w.poolCount)
    (hlive : (w.pools q).destroyed = false) {i : ℕ} (hi : i < (w.pools q).cacheCount)
    (hno : ∀ t, w.tlsCache t ≠ some (q, i)) (mode : CacheCleanupMode) :
    (w.onPool q fun s => s.cleanupCacheBuffersLocked true i mode).Sound out ∧
      SameLife w (w.onPool q fun s => s.cleanupCacheBuffersLocked true i mode) := by
  obtain ⟨hs, hframe⟩ := (h.holds hq hlive).cleanup hi mode
  have hsound := h.onPool hq hlive hs hframe.destroyed
    (fun j hj => ⟨hframe.cacheCount ▸ hj, hframe.ownerThread j⟩) fun t j ht =>
      hframe.active (fun hji => hno t (hji ▸ ht)) ((h.tls t q j ht).2 hlive).1
  rw [Function.update_eq_self] at hsound
  exact ⟨hsound, .withPool w hframe.destroyed⟩

/-! ## What a thread refers to -/

/-- A cache that its owner does not refer to is not referred to. -/
theorem Sound.no_reference (h : w.Sound out) (hlive : (w.pools q).destroyed = false) {i : ℕ}
    (howner : ((w.pools q).threadCaches i).ownerThread = t)
    (ht : w.tlsCache t ≠ some (q, i)) (t' : ℕ) : w.tlsCache t' ≠ some (q, i) := by
  intro hsome
  have howner' := ((h.tls t' q i hsome).2 hlive).2
  rw [← howner.symm.trans howner'] at hsome
  exact ht hsome

/-- Forgetting references keeps the world sound. -/
theorem Sound.forget (h : w.Sound out) {tlsCache tlsKey : ℕ → Option CacheRef} (once valid : Bool)
    (htls : ∀ t cache, tlsCache t = some cache → w.tlsCache t = some cache)
    (hkey : ∀ t cache, tlsKey t = some cache → w.tlsKey t = some cache) :
    Sound { w with tlsCache, tlsKey, tlsKeyOnce := once, tlsKeyValid := valid } out :=
  ⟨h.heap, h.live, h.dead, h.fresh, fun t q i ht => h.tls t q i (htls t _ ht),
    fun t q i ht => h.key t q i (hkey t _ ht)⟩

/-- Clearing an entry leaves the other references. -/
theorem update_none {f : ℕ → Option CacheRef} (t t' : ℕ) (cache : CacheRef)
    (h : Function.update f t none t' = some cache) : f t' = some cache := by
  by_cases ht : t' = t
  · rw [ht, Function.update_self] at h
    cases h
  · rwa [Function.update_of_ne ht] at h

theorem Sound.clearTls (h : w.Sound out) (t : ℕ) : (w.setTls t none).Sound out :=
  h.forget _ _ (update_none t) fun _ _ hk => hk

theorem setTls_none_ne (w : BufferWorld) (t : ℕ) {cache : CacheRef} :
    (w.setTls t none).tlsCache t ≠ some cache := by
  intro hsome
  change Function.update w.tlsCache t none t = _ at hsome
  rw [Function.update_self] at hsome
  cases hsome

theorem Sound.clearKey (h : w.Sound out) (t : ℕ) : (w.setKey t none).Sound out := by
  unfold setKey
  split_ifs
  · exact h.forget _ _ (fun _ _ ht => ht) (update_none t)
  · exact h

theorem Sound.tlsKeyInit (h : w.Sound out) (keyCreate : Bool) :
    (w.tlsKeyInit keyCreate).Sound out := by
  unfold BufferWorld.tlsKeyInit
  split_ifs
  · exact h
  · exact h.forget _ _ (fun _ _ ht => ht) fun _ _ hk => hk

theorem update_some {f : ℕ → Option CacheRef} (t t' : ℕ) (cache cache' : CacheRef)
    (h : Function.update f t (some cache) t' = some cache') :
    f t' = some cache' ∨ t' = t ∧ cache' = cache := by
  by_cases ht : t' = t
  · rw [ht, Function.update_self] at h
    exact .inr ⟨ht, (Option.some.inj h).symm⟩
  · rw [Function.update_of_ne ht] at h
    exact .inl h

/-- A thread may refer to an active cache of its own. -/
theorem Sound.refer (h : w.Sound out) (hq : q < w.poolCount)
    (hlive : (w.pools q).destroyed = false) {i : ℕ} (hactive : (w.pools q).Active i)
    (howner : ((w.pools q).threadCaches i).ownerThread = t) {tlsCache tlsKey : ℕ → Option CacheRef}
    (htls : ∀ t' cache, tlsCache t' = some cache →
      w.tlsCache t' = some cache ∨ t' = t ∧ cache = (q, i))
    (hkey : ∀ t' cache, tlsKey t' = some cache →
      w.tlsKey t' = some cache ∨ t' = t ∧ cache = (q, i)) :
    Sound { w with tlsCache, tlsKey } out := by
  refine ⟨h.heap, h.live, h.dead, h.fresh, fun t' q' i' ht => ?_, fun t' q' i' ht => ?_⟩
  · rcases htls t' _ ht with hold | ⟨rfl, hnew⟩
    · exact h.tls t' q' i' hold
    · cases hnew
      exact ⟨hq, fun _ => ⟨hactive, howner⟩⟩
  · rcases hkey t' _ ht with hold | ⟨rfl, hnew⟩
    · exact h.key t' q' i' hold
    · cases hnew
      exact ⟨hq, fun _ => ⟨hactive.lt, howner⟩,
        fun hdead => absurd (hlive.symm.trans hdead) Bool.false_ne_true⟩

theorem Sound.setOwn (h : w.Sound out) (hq : q < w.poolCount)
    (hlive : (w.pools q).destroyed = false) {i : ℕ} (hactive : (w.pools q).Active i)
    (howner : ((w.pools q).threadCaches i).ownerThread = t) :
    ((w.setKey t (some (q, i))).setTls t (some (q, i))).Sound out := by
  unfold setKey setTls
  split_ifs
  · exact h.refer hq hlive hactive howner (fun t' cache => update_some t t' _ cache)
      fun t' cache => update_some t t' _ cache
  · exact h.refer hq hlive hactive howner (fun t' cache => update_some t t' _ cache)
      fun _ _ hk => .inl hk

/-! ## The cache of a thread -/

/-- What `get_thread_cache` leaves for its caller: a cache of the pool that may be used. -/
structure Fetched (w w' : BufferWorld) (q : ℕ) (r : Option ℕ) : Prop extends
    SameLife w w' where
  active : ∀ i ∈ r, (w'.pools q).Active i
  live : ∀ i ∈ r, (w.pools q).destroyed = false

theorem Fetched.none {w w' : BufferWorld} (h : SameLife w w') : Fetched w w' q none :=
  ⟨h, fun _ hi => (Option.not_mem_none _ hi).elim, fun _ hi => (Option.not_mem_none _ hi).elim⟩

theorem setKey_pools (w : BufferWorld) (t : ℕ) (cache : Option CacheRef) :
    (w.setKey t cache).pools = w.pools := by
  unfold setKey
  split_ifs <;> rfl

/-- A new cache is an active one of its thread. -/
theorem Sound.registerCache {r : Option ℕ} (h : w.Sound out) (hq : q < w.poolCount)
    (hlive : (w.pools q).destroyed = false) (hr : w.registerCache t q a = (r, w')) :
    w'.Sound out ∧ Fetched w w' q r := by
  unfold BufferWorld.registerCache at hr
  have hlife := SameLife.tlsKeyInit w a.keyCreate
  have h₁ := h.tlsKeyInit a.keyCreate
  revert hr hlife h₁
  generalize w.tlsKeyInit a.keyCreate = w₁
  intro hr hlife h₁
  have hlive' := hlive
  rw [← hlife.destroyed] at hlive
  rw [← hlife.poolCount] at hq
  dsimp only at hr
  split_ifs at hr
  · cases hr
    exact ⟨h₁, .none hlife⟩
  · cases hr
    exact ⟨h₁, .none hlife⟩
  · obtain ⟨rfl, rfl⟩ := Prod.mk.inj hr
    have hholds := h₁.holds hq hlive
    have hsound : (w₁.onPool q fun s => s.onPool (·.register t)).Sound out := by
      have hreg : (PoolHeap.onPool (w₁.poolHeap q) (·.register t)).Holds (out q)
          (w₁.others out q) :=
        hholds.moveWithin (hholds.sound.register t) (by rw [register_stored]) rfl rfl
      have hput := h₁.onPool hq hlive hreg rfl
        (fun j hj => ⟨Nat.lt_succ_of_lt hj, by
          change ((((w₁.pools q).register t).threadCaches j).ownerThread) = _
          rw [register_of_ne (ne_of_lt hj)]⟩)
        fun t' j ht => register_active ((h₁.tls t' q j ht).2 hlive).1
      rw [Function.update_eq_self] at hput
      exact hput
    have hpool : ((w₁.onPool q fun s => s.onPool (·.register t)).pools q) =
        (w₁.pools q).register t := withPool_self _ _ _
    have hactive : ((w₁.pools q).register t).Active (w₁.pools q).cacheCount :=
      ⟨Nat.lt_succ_self _, by rw [register_self]⟩
    refine ⟨hsound.setOwn hq (by rw [hpool]; exact hlive) (by rw [hpool]; exact hactive)
      (by rw [hpool, register_self]), ?_⟩
    have hregister : SameLife w₁ (w₁.onPool q fun s => s.onPool (·.register t)) :=
      .withPool w₁ rfl
    refine ⟨hlife.trans (hregister.trans ((SameLife.setKey _ t _).trans (.setTls _ t _))),
      fun i hi => ?_, fun _ _ => hlive'⟩
    cases hi
    change (((w₁.onPool q _).setKey t _).pools q).Active _
    rw [setKey_pools, hpool]
    exact hactive

/-- Leaving the cache of another pool flushes it, if the pool is still there. -/
theorem Sound.leaveCache {cache : CacheRef} (h : w.Sound out)
    (ht : w.tlsCache t = some cache) :
    (w.leaveCache t cache).Sound out ∧ SameLife w (w.leaveCache t cache) := by
  obtain ⟨q, i⟩ := cache
  obtain ⟨hq, hown⟩ := h.tls t q i ht
  unfold BufferWorld.leaveCache
  unfold cachePool
  cases hdestroyed : (w.pools q).destroyed with
  | true => exact ⟨(h.clearTls t).clearKey t, (SameLife.setTls w t _).trans (.setKey _ t _)⟩
  | false =>
      obtain ⟨hactive, howner⟩ := hown hdestroyed
      obtain ⟨hclean, hlife⟩ := (h.clearTls t).cleanup hq hdestroyed hactive.lt
        ((h.clearTls t).no_reference hdestroyed howner (setTls_none_ne w t))
        (if (w.pools q).destroyed then .free else .flush)
      exact ⟨hclean.clearKey t,
        (SameLife.setTls w t none).trans (SameLife.trans hlife (.setKey _ t _))⟩

/-- **`get_thread_cache`** keeps the world sound, and returns an active cache of the pool. -/
theorem Sound.getThreadCache {r : Option ℕ} (h : w.Sound out) (hq : q < w.poolCount)
    (hr : w.getThreadCache t q a = (r, w')) : w'.Sound out ∧ Fetched w w' q r := by
  unfold BufferWorld.getThreadCache at hr
  cases ht : w.tlsCache t with
  | none =>
      simp only [ht] at hr
      cases hdestroyed : (w.pools q).destroyed with
      | true =>
          rw [if_pos hdestroyed] at hr
          cases hr
          exact ⟨h.clearTls t, .none (.setTls w t none)⟩
      | false =>
          rw [if_neg (by rw [hdestroyed]; exact Bool.false_ne_true)] at hr
          exact h.registerCache hq hdestroyed hr
  | some cache =>
      obtain ⟨q', i⟩ := cache
      simp only [ht] at hr
      split_ifs at hr with hown hdestroyed hother
      · cases hr
        have hqq : q' = q := by
          have hpool := hown.1
          unfold cachePool at hpool
          split at hpool
          · cases hpool
          · exact Option.some.inj hpool
        subst hqq
        refine ⟨h, .refl w, fun j hj => ?_, fun _ _ => hown.2⟩
        cases hj
        exact ((h.tls t q' i ht).2 hown.2).1
      · cases hr
        exact ⟨h.clearTls t, .none (.setTls w t none)⟩
      · cases hr
        obtain ⟨hleft, hlife⟩ := h.leaveCache ht
        exact ⟨hleft, .none hlife⟩
      · exact h.registerCache hq (Bool.eq_false_iff.mpr hdestroyed) hr

/-! ## Allocation and free -/

theorem allocated_eq (out : Outstanding) (q size : ℕ) (r : Option UInt64) :
    out.allocated q size r = Function.update out q (handed (sizeToClass size) r + out q) := by
  cases r with
  | none => rw [handed, zero_add, Function.update_eq_self, Outstanding.allocated]
  | some buf => rw [handed, Multiset.singleton_add, Outstanding.allocated]

theorem Sound.bufferPoolAlloc {size : ℕ} {r : Option UInt64} (h : w.Sound out)
    (hq : q < w.poolCount) (hr : w.bufferPoolAlloc t q size a = (r, w')) :
    w'.Sound (out.allocated q size r) ∧ SameLife w w' := by
  unfold BufferWorld.bufferPoolAlloc at hr
  split_ifs at hr with hsize
  · cases hr
    exact ⟨h, .refl w⟩
  · cases hget : w.getThreadCache t q a with
    | mk cache w₁ =>
        obtain ⟨h₁, hfetched⟩ := h.getThreadCache hq hget
        have hq₁ : q < w₁.poolCount := hfetched.poolCount ▸ hq
        simp only [hget] at hr
        cases halloc : (w₁.poolHeap q).allocFrom cache (sizeToClass size) a.offers with
        | mk r' s =>
            simp only [halloc] at hr
            obtain ⟨rfl, rfl⟩ := Prod.mk.inj hr
            rw [allocated_eq]
            cases hdestroyed : (w₁.pools q).destroyed with
            | false =>
                have hs := (h₁.holds hq₁ hdestroyed).allocFrom hfetched.active hdestroyed halloc
                exact ⟨h₁.framed hq₁ hdestroyed hs,
                  hfetched.toSameLife.trans (.withPool w₁ hs.2.destroyed)⟩
            | true =>
                have hcache : cache = none := by
                  refine Option.eq_none_iff_forall_ne_some.mpr fun i hi => ?_
                  rw [hfetched.destroyed, hfetched.live i hi] at hdestroyed
                  cases hdestroyed
                rw [hcache] at halloc
                have hnone : (w₁.poolHeap q).allocFrom none (sizeToClass size) a.offers =
                    (none, w₁.poolHeap q) := if_pos hdestroyed
                obtain ⟨rfl, rfl⟩ := Prod.mk.inj (hnone.symm.trans halloc)
                rw [withPool_poolHeap, handed, zero_add, Function.update_eq_self]
                exact ⟨h₁, hfetched.toSameLife⟩

/-- What is outstanding is in the heap. -/
theorem Sound.mem_heap (h : w.Sound out) (hq : q < w.poolCount) {b : Buffer} (hb : b ∈ out q) :
    (b.1, classToSize b.2) ∈ w.heap.blocks := by
  rw [h.heap, total_eq w out hq]
  refine Multiset.mem_map_of_mem (fun b : Buffer => (b.1, classToSize b.2)) ?_
  exact Multiset.mem_add.mpr (.inl (Multiset.mem_add.mpr (.inr hb)))

/-- A buffer of a destroyed pool goes back to the heap. -/
theorem Sound.freeDead {buf : UInt64} {size : ℕ} (h : w.Sound out) (hq : q < w.poolCount)
    (hdead : (w.pools q).destroyed = true) (hmem : (buf, sizeToClass size) ∈ out q) :
    (w.onPool q (·.free buf)).Sound (out.freed q buf size) := by
  have hpools : (w.onPool q (·.free buf)).pools = w.pools := Function.update_eq_self _ _
  have hheap : (w.onPool q (·.free buf)).heap.blocks =
      blocksOf ((w.onPool q (·.free buf)).total (out.freed q buf size)) := by
    refine @Heap.free_blocks UInt64 _ _ w.heap buf (classToSize (sizeToClass size)) _ ?_
    rw [h.heap, total_eq w out hq, Outstanding.freed, BufferWorld.onPool, total_withPool hq]
    change _ = (buf, classToSize _) ::ₘ blocksOf ((w.pools q).stored + _ + _)
    rw [← blocksOf_cons (buf, sizeToClass size), ← Multiset.cons_add, ← Multiset.add_cons,
      Multiset.cons_erase hmem]
  have hfresh : ∀ q', w.poolCount ≤ q' → out.freed q buf size q' = 0 := by
    intro q' hq'
    rw [Outstanding.freed, Function.update_of_ne (ne_of_gt (lt_of_lt_of_le hq hq'))]
    exact h.fresh q' hq'
  refine ⟨hheap, fun q' hq' hlive => ?_, ?_, hfresh, ?_, ?_⟩
  · rw [hpools] at hlive ⊢
    rw [Outstanding.freed, Function.update_of_ne]
    · exact h.live q' hq' hlive
    · rintro rfl
      exact Bool.false_ne_true (hlive.symm.trans hdead)
  all_goals rw [hpools]
  · exact h.dead
  · exact h.tls
  · exact h.key

theorem Sound.bufferPoolFree {buf : UInt64} {size : ℕ} (h : w.Sound out) (hq : q < w.poolCount)
    (hsize : 0 < size) (hmem : (buf, sizeToClass size) ∈ out q) :
    (w.bufferPoolFree t q buf size a).Sound (out.freed q buf size) ∧
      SameLife w (w.bufferPoolFree t q buf size a) := by
  have hbuf : buf ≠ 0 := by
    rintro rfl
    exact w.heap.nonnull (Multiset.mem_map_of_mem Prod.fst (h.mem_heap hq hmem))
  unfold BufferWorld.bufferPoolFree
  rw [if_neg hbuf, if_neg (ne_of_gt hsize)]
  split_ifs with hdestroyed
  · exact ⟨h.freeDead hq hdestroyed hmem, .withPool w rfl⟩
  · cases hget : w.getThreadCache t q a with
    | mk cache w₁ =>
        obtain ⟨h₁, hfetched⟩ := h.getThreadCache hq hget
        have hq₁ : q < w₁.poolCount := hfetched.poolCount ▸ hq
        have hlive : (w₁.pools q).destroyed = false :=
          (hfetched.destroyed q).trans (Bool.eq_false_iff.mpr hdestroyed)
        have hholds := h₁.holds hq₁ hlive
        rw [← Multiset.cons_erase hmem] at hholds
        have hs := hholds.freeInto hfetched.active hlive
        exact ⟨h₁.framed hq₁ hlive hs,
          hfetched.toSameLife.trans (.withPool w₁ hs.2.destroyed)⟩

/-! ## The exit of a thread -/

/-- A pool with no caches and no shards stores nothing. -/
theorem stored_eq_zero {p : BufferPool} (hcaches : p.cacheCount = 0) (hshards : p.shardCount = 0) :
    p.stored = 0 := by
  unfold stored
  rw [hcaches, hshards, Finset.range_zero, Finset.sum_empty, Finset.sum_empty, add_zero]

/-- A destroyed pool may change as long as it stays empty. -/
theorem Sound.touchDead {p : BufferPool} (h : w.Sound out) (hq : q < w.poolCount)
    (hdead : (w.pools q).destroyed = true) (hdestroyed : p.destroyed = true)
    (hcaches : p.cacheCount = 0) (hshards : p.shardCount = 0)
    (hcleaned : ∀ i, (p.threadCaches i).cleanedUp = ((w.pools q).threadCaches i).cleanedUp) :
    (w.withPool q { pool := p, heap := w.heap }).Sound out := by
  have hcounts := h.dead q hq hdead
  have hheap : w.heap.blocks =
      blocksOf ((w.withPool q { pool := p, heap := w.heap }).total out) := by
    have htotal : (w.withPool q { pool := p, heap := w.heap }).total
        (Function.update out q (out q)) = p.stored + out q + w.others out q :=
      total_withPool hq _ _
    rw [Function.update_eq_self] at htotal
    rw [htotal, stored_eq_zero hcaches hshards, h.heap, total_eq w out hq,
      stored_eq_zero hcounts.1 hcounts.2]
  refine ⟨hheap, fun q' hq' hlive => ?_, fun q' hq' hdead' => ?_, h.fresh, fun t q' i ht => ?_,
    fun t q' i ht => ?_⟩
  all_goals by_cases hqq : q' = q
  · subst hqq
    rw [withPool_self, hdestroyed] at hlive
    cases hlive
  · rw [withPool_of_ne hqq] at hlive ⊢
    exact h.live q' hq' hlive
  · subst hqq
    rw [withPool_self]
    exact ⟨hcaches, hshards⟩
  · rw [withPool_of_ne hqq] at hdead' ⊢
    exact h.dead q' hq' hdead'
  · subst hqq
    rw [withPool_self, hdestroyed]
    exact ⟨hq, fun hfalse => absurd hfalse (by decide)⟩
  · rw [withPool_of_ne hqq]
    exact h.tls t q' i ht
  · subst hqq
    rw [withPool_self, hdestroyed, hcleaned]
    exact ⟨hq, fun hfalse => absurd hfalse (by decide), fun _ => (h.key t q' i ht).2.2 hdead⟩
  · rw [withPool_of_ne hqq]
    exact h.key t q' i ht

/-- Marking a thread as exited changes no account. -/
theorem Sound.markExited (h : w.Sound out) (hq : q < w.poolCount) (i : ℕ) :
    (w.onPool q fun s => s.onPool (·.markExited i)).Sound out := by
  have hframe := markExited_frame (w.pools q) i
  cases hdestroyed : (w.pools q).destroyed with
  | true =>
      have hcounts := h.dead q hq hdestroyed
      exact h.touchDead hq hdestroyed hdestroyed hcounts.1 hcounts.2 hframe.cleanedUp
  | false =>
      have hholds := h.holds hq hdestroyed
      have hmarked : (PoolHeap.onPool (w.poolHeap q) (·.markExited i)).Holds (out q)
          (w.others out q) :=
        hholds.moveWithin hholds.sound.markExited (by rw [markExited_stored]) rfl rfl
      have hput := h.framed hq hdestroyed ⟨hmarked, hframe⟩
      rw [Function.update_eq_self] at hput
      exact hput

/-- The cleanup of a cache whose thread no longer refers to it. -/
theorem Sound.cleanupExited {i : ℕ} (h : w.Sound out) (hq : q < w.poolCount)
    (hown : (w.pools q).destroyed = false →
      i < (w.pools q).cacheCount ∧ ((w.pools q).threadCaches i).ownerThread = t)
    (hdone : (w.pools q).destroyed = true → ((w.pools q).threadCaches i).cleanedUp = true)
    (hno : w.tlsCache t ≠ some (q, i)) :
    (w.cleanupExited (q, i)).Sound out ∧ SameLife w (w.cleanupExited (q, i)) := by
  unfold BufferWorld.cleanupExited
  cases hdestroyed : (w.pools q).destroyed with
  | true =>
      have hpool : w.cachePool (q, i) = none := if_pos hdestroyed
      have hclean : (w.poolHeap q).cleanupCacheBuffersLocked false i .free = w.poolHeap q :=
        if_pos (hdone hdestroyed)
      rw [hpool]
      dsimp only
      rw [BufferWorld.onPool, hclean, withPool_poolHeap]
      exact ⟨h, .refl w⟩
  | false =>
      have hpool : w.cachePool (q, i) = some q :=
        if_neg (hdestroyed ▸ Bool.false_ne_true)
      obtain ⟨hlt, howner⟩ := hown hdestroyed
      rw [hpool]
      dsimp only
      rw [if_neg (hdestroyed ▸ Bool.false_ne_true)]
      exact h.cleanup hq hdestroyed hlt (h.no_reference hdestroyed howner hno) .flush

/-- **The exit of a thread** flushes the cache it is known by. -/
theorem Sound.exitThread (h : w.Sound out) (t : ℕ) :
    (w.exitThread t).Sound out ∧ SameLife w (w.exitThread t) := by
  unfold BufferWorld.exitThread
  cases hkey : w.tlsKey t with
  | none => exact ⟨h.clearTls t, .setTls w t none⟩
  | some cache =>
      obtain ⟨q, i⟩ := cache
      obtain ⟨hq, hown, hdone⟩ := h.key t q i hkey
      have h₁ : (BufferWorld.setTls { w with tlsKey := Function.update w.tlsKey t none } t
          none).Sound out := h.forget _ _ (update_none t) (update_none t)
      have h₂ := h₁.markExited (q := q) hq i
      have hframe := markExited_frame (w.pools q) i
      dsimp only
      unfold BufferWorld.tlsDestructor
      have h₃ := h₂.cleanupExited (t := t) hq
        (fun hdestroyed => by
          rw [BufferWorld.onPool, withPool_self] at hdestroyed ⊢
          obtain ⟨hlt, howner⟩ := hown hdestroyed
          exact ⟨hlt, (hframe.ownerThread i).trans howner⟩)
        (fun hdestroyed => by
          rw [BufferWorld.onPool, withPool_self] at hdestroyed ⊢
          exact (hframe.cleanedUp i).trans (hdone hdestroyed))
        (setTls_none_ne _ t)
      have hforget : SameLife w (BufferWorld.setTls
          { w with tlsKey := Function.update w.tlsKey t none } t none) := ⟨rfl, fun _ => rfl⟩
      exact ⟨h₃.1, (hforget.trans (.withPool _ rfl)).trans h₃.2⟩

/-! ## Destruction -/

/-- A pool on its way to destruction: the other pools are as they were, threads only lost
references, and the heap holds the buffers `m` and those the pool still stores. -/
structure Destroying (w w' : BufferWorld) (q : ℕ) (m : Multiset Buffer) : Prop where
  poolCount : w'.poolCount = w.poolCount
  others : ∀ q', q' ≠ q → w'.pools q' = w.pools q'
  tls : ∀ t cache, w'.tlsCache t = some cache → w.tlsCache t = some cache
  key : ∀ t cache, w'.tlsKey t = some cache → w.tlsKey t = some cache
  destroyed : (w'.pools q).destroyed = true
  backs : (w'.poolHeap q).Backs m
  cleanedUp : ∀ i, ((w.pools q).threadCaches i).cleanedUp = true →
    ((w'.pools q).threadCaches i).cleanedUp = true

/-- A step on the pool alone. -/
theorem Destroying.onPool {w' : BufferWorld} {m : Multiset Buffer} {f : PoolHeap → PoolHeap}
    (h : Destroying w w' q m) (hb : (f (w'.poolHeap q)).Backs m)
    (hdestroyed : (f (w'.poolHeap q)).pool.destroyed = true)
    (hcleaned : ∀ i, ((w'.pools q).threadCaches i).cleanedUp = true →
      ((f (w'.poolHeap q)).pool.threadCaches i).cleanedUp = true) :
    Destroying w (w'.onPool q f) q m := by
  refine ⟨h.poolCount, fun q' hq' => (withPool_of_ne hq' _).trans (h.others q' hq'), h.tls, h.key,
    ?_, ?_, fun i hi => ?_⟩
  · rw [BufferWorld.onPool, withPool_self]
    exact hdestroyed
  · unfold poolHeap
    rw [BufferWorld.onPool, withPool_self]
    exact hb
  · rw [BufferWorld.onPool, withPool_self]
    exact hcleaned i (h.cleanedUp i hi)

theorem Destroying.clearTls {w' : BufferWorld} {m : Multiset Buffer} (h : Destroying w w' q m)
    (t : ℕ) : Destroying w (w'.setTls t none) q m :=
  ⟨h.poolCount, h.others, fun t' cache ht => h.tls t' cache (update_none t t' cache ht), h.key,
    h.destroyed, h.backs, h.cleanedUp⟩

theorem Destroying.clearKey {w' : BufferWorld} {m : Multiset Buffer} (h : Destroying w w' q m)
    (t : ℕ) : Destroying w (w'.setKey t none) q m := by
  unfold setKey
  split_ifs
  · exact ⟨h.poolCount, h.others, h.tls,
      fun t' cache ht => h.key t' cache (update_none t t' cache ht), h.destroyed, h.backs,
      h.cleanedUp⟩
  · exact h

/-- The caches are processed one after the other. -/
theorem Destroying.processCaches {w' : BufferWorld} {m : Multiset Buffer}
    (h : Destroying w w' q m) (is : List ℕ) (his : ∀ i ∈ is, i < (w'.pools q).cacheCount)
    (hempty : ∀ i < (w'.pools q).cacheCount, ((w'.pools q).threadCaches i).cleanedUp = true →
      ∀ c, ((w'.pools q).threadCaches i).buffers c = []) :
    ∃ w₁, is.foldl (processCache t q) w' = w₁ ∧ Destroying w w₁ q m ∧
      (w₁.pools q).cacheCount = (w'.pools q).cacheCount ∧
      (w₁.pools q).shardCount = (w'.pools q).shardCount ∧
      (∀ i < (w'.pools q).cacheCount, ((w₁.pools q).threadCaches i).cleanedUp = true →
        ∀ c, ((w₁.pools q).threadCaches i).buffers c = []) ∧
      (∀ i, i ∈ is ∨ ((w'.pools q).threadCaches i).cleanedUp = true →
        ((w₁.pools q).threadCaches i).cleanedUp = true) := by
  induction is generalizing w' with
  | nil =>
      exact ⟨w', rfl, h, rfl, rfl, hempty, fun i hi => hi.resolve_left List.not_mem_nil⟩
  | cons i is ih =>
      have hi := his i List.mem_cons_self
      obtain ⟨hb, hproc⟩ := Backs.cleanup h.backs hi (hempty i hi)
      have hmark (j : ℕ) (hj : j = i ∨ ((w'.pools q).threadCaches j).cleanedUp = true) :
          (((w'.poolHeap q).cleanupCacheBuffersLocked false i .free).pool.threadCaches
            j).cleanedUp = true := by
        by_cases hji : j = i
        · rw [hji]
          exact hproc.cleaned.1
        · rw [hproc.others j hji]
          exact hj.resolve_left hji
      have h₁ := h.onPool (f := fun s => s.cleanupCacheBuffersLocked false i .free) hb
        (hproc.destroyed.trans h.destroyed) fun j hj => hmark j (.inr hj)
      have hstep : ∃ w₂, processCache t q w' i = w₂ ∧ Destroying w w₂ q m ∧
          w₂.pools q = ((w'.poolHeap q).cleanupCacheBuffersLocked false i .free).pool := by
        unfold processCache
        dsimp only
        split_ifs
        · refine ⟨_, rfl, (h₁.clearTls t).clearKey t, ?_⟩
          rw [setKey_pools]
          exact withPool_self _ _ _
        · refine ⟨_, rfl, h₁.clearKey t, ?_⟩
          rw [setKey_pools]
          exact withPool_self _ _ _
        · exact ⟨_, rfl, h₁, withPool_self _ _ _⟩
      obtain ⟨w₂, hw₂, h₂, hpool⟩ := hstep
      obtain ⟨w₃, hw₃, h₃, hcaches, hshards, hempty₃, hdone⟩ := ih h₂
        (fun j hj => by
          rw [hpool, hproc.cacheCount]
          exact his j (List.mem_cons_of_mem i hj))
        (fun j hj hclean c => by
          rw [hpool, hproc.cacheCount] at hj
          rw [hpool] at hclean ⊢
          by_cases hji : j = i
          · rw [hji]
            exact hproc.cleaned.2 c
          · rw [hproc.others j hji] at hclean ⊢
            exact hempty j hj hclean c)
      rw [hpool] at hcaches hshards hdone hempty₃
      rw [hproc.cacheCount] at hempty₃
      refine ⟨w₃, ?_, h₃, hcaches.trans hproc.cacheCount, hshards.trans hproc.shardCount, hempty₃,
        fun j hj => ?_⟩
      · rw [List.foldl_cons, hw₂]
        exact hw₃
      · rcases hj with hj | hj
        · rcases List.mem_cons.mp hj with rfl | hj
          · exact hdone j (.inr (hmark j (.inl rfl)))
          · exact hdone j (.inl hj)
        · exact hdone j (.inr (hmark j (.inr hj)))

/-- The shards are destroyed one after the other. -/
theorem Destroying.destroyShards {w' : BufferWorld} {m : Multiset Buffer}
    (h : Destroying w w' q m) (is : List ℕ) (his : ∀ i ∈ is, i < (w'.pools q).shardCount) :
    ∃ w₁, is.foldl (destroyShard q) w' = w₁ ∧ Destroying w w₁ q m ∧
      (w₁.pools q).cacheCount = (w'.pools q).cacheCount ∧
      (w₁.pools q).shardCount = (w'.pools q).shardCount ∧
      (w₁.pools q).threadCaches = (w'.pools q).threadCaches ∧
      (∀ i, i ∈ is ∨ ((w'.pools q).shards i).contents = 0 →
        ((w₁.pools q).shards i).contents = 0) := by
  induction is generalizing w' with
  | nil => exact ⟨w', rfl, h, rfl, rfl, rfl, fun i hi => hi.resolve_left List.not_mem_nil⟩
  | cons i is ih =>
      have hi := his i List.mem_cons_self
      set shard : BufferShard := { (w'.pools q).shards i with
        sizeBuckets := fun _ => [], freeSlots := [], freeCount := 0 } with hshard
      have hzero : shard.contents = 0 := Finset.sum_eq_zero fun c _ => rfl
      have h₁ : Destroying w (destroyShard q w' i) q m :=
        h.onPool (h.backs.destroyShard hi hzero) h.destroyed fun _ hj => hj
      have hpool : (destroyShard q w' i).pools q = (w'.pools q).setShard i shard :=
        withPool_self _ _ _
      obtain ⟨w₂, hw₂, h₂, hcaches, hshards, hsame, hdone⟩ := ih h₁ fun j hj => by
        rw [hpool]
        exact his j (List.mem_cons_of_mem i hj)
      rw [hpool] at hcaches hshards hsame hdone
      refine ⟨w₂, hw₂, h₂, hcaches, hshards, hsame, fun j hj => ?_⟩
      by_cases hji : j = i
      · refine hdone j (.inr ?_)
        rw [hji, setShard_shards, Function.update_self]
        exact hzero
      · rcases hj with hj | hj
        · exact hdone j (.inl ((List.mem_cons.mp hj).resolve_left hji))
        · refine hdone j (.inr ?_)
          rw [setShard_shards, Function.update_of_ne hji]
          exact hj

/-- Once nothing is left on the lists of the pool, the world is sound. -/
theorem Destroying.sound {w' : BufferWorld} (hd : Destroying w w' q (out q + w.others out q))
    (h : w.Sound out) (hq : q < w.poolCount) (hcaches : (w'.pools q).cacheCount = 0)
    (hshards : (w'.pools q).shardCount = 0)
    (hdone : ∀ i < (w.pools q).cacheCount, ((w'.pools q).threadCaches i).cleanedUp = true) :
    w'.Sound out := by
  have hothers : w'.others out q = w.others out q := by
    unfold BufferWorld.others
    rw [hd.poolCount]
    refine Finset.sum_congr rfl fun q' hq' => ?_
    rw [hd.others q' (Finset.ne_of_mem_erase hq')]
  have hne {q' : ℕ} (hlive : (w'.pools q').destroyed = false) : q' ≠ q := by
    rintro rfl
    exact Bool.false_ne_true (hlive.symm.trans hd.destroyed)
  refine ⟨?_, fun q' hq' hlive => ?_, fun q' hq' hdead => ?_, fun q' hq' => ?_,
    fun t q' i ht => ?_, fun t q' i ht => ?_⟩
  · rw [total_eq w' out (hd.poolCount ▸ hq), hothers, add_assoc]
    exact hd.backs
  · have hqq := hne hlive
    rw [hd.others q' hqq] at hlive ⊢
    exact h.live q' (hd.poolCount ▸ hq') hlive
  · by_cases hqq : q' = q
    · rw [hqq]
      exact ⟨hcaches, hshards⟩
    · rw [hd.others q' hqq] at hdead ⊢
      exact h.dead q' (hd.poolCount ▸ hq') hdead
  · exact h.fresh q' (hd.poolCount ▸ hq')
  · obtain ⟨hq', hown⟩ := h.tls t q' i (hd.tls t _ ht)
    refine ⟨hd.poolCount ▸ hq', fun hlive => ?_⟩
    have hsame := hd.others q' (hne hlive)
    rw [hsame] at hlive ⊢
    exact hown hlive
  · obtain ⟨hq', hown, hcleaned⟩ := h.key t q' i (hd.key t _ ht)
    refine ⟨hd.poolCount ▸ hq', fun hlive => ?_, fun hdead => ?_⟩
    · have hsame := hd.others q' (hne hlive)
      rw [hsame] at hlive ⊢
      exact hown hlive
    · by_cases hqq : q' = q
      · subst hqq
        cases hdestroyed : (w.pools q').destroyed with
        | false => exact hdone i (hown hdestroyed).1
        | true => exact hd.cleanedUp i (hcleaned hdestroyed)
      · rw [hd.others q' hqq] at hdead ⊢
        exact hcleaned hdead

/-- **The destruction of a pool** returns what it stores to the heap. -/
theorem Sound.bufferPoolDestroy (h : w.Sound out) (hq : q < w.poolCount) (t : ℕ) :
    (w.bufferPoolDestroy t q).Sound out ∧
      Destroying w (w.bufferPoolDestroy t q) q (out q + w.others out q) := by
  set m := out q + w.others out q with hm
  -- phase 1
  set w₁ := w.onPool q fun s => s.onPool fun p => { p with destroyed := true } with hw₁
  have hpool₁ : w₁.pools q = { w.pools q with destroyed := true } := withPool_self _ _ _
  have h₁ : Destroying w w₁ q m := by
    refine ⟨rfl, fun q' hq' => withPool_of_ne hq' _, fun _ _ ht => ht, fun _ _ hk => hk, ?_, ?_,
      fun i hi => ?_⟩
    · rw [hpool₁]
    · unfold poolHeap Backs
      rw [hpool₁, hm, ← add_assoc]
      exact h.heap.trans (congrArg blocksOf (total_eq w out hq))
    · rw [hpool₁]
      exact hi
  have hempty : ∀ i < (w₁.pools q).cacheCount, ((w₁.pools q).threadCaches i).cleanedUp = true →
      ∀ c, ((w₁.pools q).threadCaches i).buffers c = [] := by
    rw [hpool₁]
    intro i hi
    cases hdestroyed : (w.pools q).destroyed with
    | false => exact (h.live q hq hdestroyed).1.cleaned i
    | true =>
        change i < (w.pools q).cacheCount at hi
        rw [(h.dead q hq hdestroyed).1] at hi
        exact absurd hi (Nat.not_lt_zero i)
  -- phase 2
  obtain ⟨w₂, hw₂, h₂, hcaches₂, -, hempty₂, hdone₂⟩ := h₁.processCaches (t := t)
    (List.range (w₁.pools q).cacheCount).reverse
    (fun i hi => List.mem_range.mp (List.mem_reverse.mp hi)) hempty
  have hdone : ∀ i < (w₁.pools q).cacheCount, ((w₂.pools q).threadCaches i).cleanedUp = true :=
    fun i hi => hdone₂ i (.inl (List.mem_reverse.mpr (List.mem_range.mpr hi)))
  set w₃ := w₂.onPool q fun s => s.onPool fun p => { p with cacheCount := 0 } with hw₃
  have hpool₃ : w₃.pools q = { w₂.pools q with cacheCount := 0 } := withPool_self _ _ _
  have h₃ : Destroying w w₃ q m := by
    refine h₂.onPool (f := fun s => s.onPool fun p => { p with cacheCount := 0 }) ?_ h₂.destroyed
      fun _ hi => hi
    have hzero : ∑ i ∈ Finset.range (w₂.pools q).cacheCount,
        ((w₂.pools q).threadCaches i).contents = 0 := by
      refine Finset.sum_eq_zero fun i hi => ?_
      rw [hcaches₂, Finset.mem_range] at hi
      unfold ThreadCache.contents
      refine Finset.sum_eq_zero fun c _ => ?_
      rw [hempty₂ i hi (hdone i hi) c, tagged_nil]
    have hb := h₂.backs
    unfold Backs poolHeap stored at hb ⊢
    rw [hzero] at hb
    exact hb
  -- phase 3
  obtain ⟨w₄, hw₄, h₄, hcaches₄, hcount₄, hsame₄, hgone₄⟩ := h₃.destroyShards
    (List.range (w₃.pools q).shardCount) fun i hi => List.mem_range.mp hi
  have hshards₄ : ∀ i ∈ Finset.range (w₄.pools q).shardCount,
      ((w₄.pools q).shards i).contents = 0 := by
    intro i hi
    rw [hcount₄] at hi
    exact hgone₄ i (.inl (List.mem_range.mpr (Finset.mem_range.mp hi)))
  have h₅ : Destroying w (w₄.onPool q fun s => s.onPool fun p =>
      { p with shardCount := 0, shardMask := 0, totalAllocated := 0, totalBuffers := 0 }) q m := by
    refine h₄.onPool (f := fun s => s.onPool fun p =>
      { p with shardCount := 0, shardMask := 0, totalAllocated := 0, totalBuffers := 0 }) ?_
      h₄.destroyed fun _ hi => hi
    have hb := h₄.backs
    unfold Backs poolHeap stored at hb ⊢
    rw [Finset.sum_eq_zero hshards₄] at hb
    exact hb
  have hdestroy : w.bufferPoolDestroy t q = w₄.onPool q fun s => s.onPool fun p =>
      { p with shardCount := 0, shardMask := 0, totalAllocated := 0, totalBuffers := 0 } := by
    unfold BufferWorld.bufferPoolDestroy
    dsimp only
    rw [← hw₁, hw₂, ← hw₃, hw₄]
  rw [hdestroy]
  have hpool₅ := withPool_self w₄ q ((w₄.poolHeap q).onPool fun p =>
    { p with shardCount := 0, shardMask := 0, totalAllocated := 0, totalBuffers := 0 })
  refine ⟨h₅.sound h hq ?_ ?_ fun i hi => ?_, h₅⟩
  all_goals rw [BufferWorld.onPool, hpool₅]
  · exact hcaches₄.trans (by rw [hpool₃])
  · rfl
  · change ((w₄.pools q).threadCaches i).cleanedUp = true
    rw [hsame₄, hpool₃]
    refine hdone i ?_
    rw [hpool₁]
    exact hi

/-! ## Initialisation -/

theorem le_shardsUpTo (target n shards : ℕ) : shards ≤ shardsUpTo target n shards := by
  induction n generalizing shards with
  | zero => exact le_refl _
  | succ n ih =>
      unfold shardsUpTo
      split_ifs
      · exact (Nat.le_mul_of_pos_right shards (by decide)).trans (ih _)
      · exact le_refl _

theorem calculateShardCount_pos (cpus : ℤ) : 0 < calculateShardCount cpus := by
  unfold calculateShardCount
  dsimp only
  generalize (((if cpus < 1 then 1 else cpus) / 4 : ℤ)).toNat = target
  split_ifs
  · decide
  · exact lt_of_lt_of_le (by decide : 0 < BUFFER_POOL_MIN_SHARDS) (le_shardsUpTo _ _ _)

/-- A new pool has empty shards and no caches. -/
theorem bufferPoolInit_sound (cpus : ℤ) : (bufferPoolInit cpus).Sound where
  shards _ _ := BufferShard.shardInit_sound
  shardId _ hi := absurd hi (Nat.not_lt_zero _)
  lengths _ hi := absurd hi (Nat.not_lt_zero _)
  cleaned _ _ _ := rfl
  mask := by
    have hpos := calculateShardCount_pos cpus
    change (UInt32.ofNat (calculateShardCount cpus - 1)).toNat < calculateShardCount cpus
    rw [UInt32.toNat_ofNat']
    exact lt_of_le_of_lt (Nat.mod_le _ _) (Nat.sub_lt hpos Nat.one_pos)
  overflows _ hn := absurd hn List.not_mem_nil

theorem bufferPoolInit_stored (cpus : ℤ) : (bufferPoolInit cpus).stored = 0 := by
  have hshards : ∑ i ∈ Finset.range (bufferPoolInit cpus).shardCount,
      ((bufferPoolInit cpus).shards i).contents = 0 :=
    Finset.sum_eq_zero fun _ _ => BufferShard.shardInit_contents
  unfold stored
  rw [hshards]
  rfl

/-- A new pool joins the others. -/
theorem Sound.init (h : w.Sound out) (cpus : ℤ) :
    Sound { w with
      pools := Function.update w.pools w.poolCount (bufferPoolInit cpus)
      poolCount := w.poolCount + 1 } out := by
  have hfresh := h.fresh w.poolCount (le_refl _)
  have hold {q' : ℕ} (hq' : q' < w.poolCount) :
      Function.update w.pools w.poolCount (bufferPoolInit cpus) q' = w.pools q' :=
    Function.update_of_ne (ne_of_lt hq') _ _
  have hnew : Function.update w.pools w.poolCount (bufferPoolInit cpus) w.poolCount =
      bufferPoolInit cpus := Function.update_self _ _ _
  refine ⟨?_, fun q' hq' hlive => ?_, fun q' hq' hdead => ?_,
    fun q' hq' => h.fresh q' ((Nat.le_succ _).trans hq'), fun t q' i ht => ?_, fun t q' i ht => ?_⟩
  · refine h.heap.trans (congrArg blocksOf ?_)
    unfold total
    dsimp only
    rw [Finset.sum_range_succ, hnew, bufferPoolInit_stored, hfresh, add_zero, add_zero]
    refine Finset.sum_congr rfl fun q' hq' => ?_
    rw [hold (Finset.mem_range.mp hq')]
  · dsimp only at hlive ⊢
    rcases Nat.lt_succ_iff_lt_or_eq.mp hq' with hlt | rfl
    · rw [hold hlt] at hlive ⊢
      exact h.live q' hlt hlive
    · rw [hnew, bufferPoolInit_stored, hfresh]
      exact ⟨bufferPoolInit_sound cpus, rfl, rfl⟩
  · dsimp only at hdead ⊢
    rcases Nat.lt_succ_iff_lt_or_eq.mp hq' with hlt | rfl
    · rw [hold hlt] at hdead ⊢
      exact h.dead q' hlt hdead
    · rw [hnew] at hdead
      cases hdead
  · obtain ⟨hq', hown⟩ := h.tls t q' i ht
    refine ⟨Nat.lt_succ_of_lt hq', ?_⟩
    dsimp only
    rw [hold hq']
    exact hown
  · obtain ⟨hq', hown⟩ := h.key t q' i ht
    refine ⟨Nat.lt_succ_of_lt hq', ?_⟩
    dsimp only
    rw [hold hq']
    exact hown

end BufferWorld

/-! ## Runs -/

/-- **The accounts are kept by every operation.** -/
theorem PoolOp.sound {op : PoolOp} {s : BufferWorld × Outstanding} (h : s.1.Sound s.2)
    (hvalid : op.Valid s.1 s.2) : (op.apply s).1.Sound (op.apply s).2 := by
  cases op with
  | init cpus => exact h.init cpus
  | alloc t q size a => exact (h.bufferPoolAlloc hvalid rfl).1
  | free t q buf size a => exact (h.bufferPoolFree hvalid.1 hvalid.2.1 hvalid.2.2).1
  | exit t => exact (h.exitThread t).1
  | destroy t q => exact (h.bufferPoolDestroy hvalid t).1

theorem poolSystem_sound {s : BufferWorld × Outstanding} (h : Reachable poolSystem s) :
    s.1.Sound s.2 := by
  refine Reachable.invariant (I := fun s => s.1.Sound s.2) ?_ ?_ h
  · rintro s rfl
    refine ⟨rfl, ?_, ?_, fun _ _ => rfl, ?_, ?_⟩
    · exact fun q hq => absurd hq (Nat.not_lt_zero q)
    · exact fun q hq => absurd hq (Nat.not_lt_zero q)
    · exact fun _ _ _ ht => absurd ht (by simp)
    · exact fun _ _ _ ht => absurd ht (by simp)
  · rintro s op s' hs ⟨hvalid, rfl⟩
    exact PoolOp.sound hs hvalid

/-- **Conservation in the buffer pools.** In every reachable state, for every pool that is not
destroyed: the counters are the number and the total class size of its live buffers, outstanding or
in its caches and shards, and these are blocks of the heap; the counts of every shard agree with its
lists; no cache holds more of a class than its array, and no flush wrote past its overflow array. -/
theorem buffer_pool_conservation {s : BufferWorld × Outstanding} (h : Reachable poolSystem s)
    {q : ℕ} (hq : q < s.1.poolCount) (hlive : (s.1.pools q).destroyed = false) :
    (s.1.pools q).totalBuffers = ((s.1.pools q).stored + s.2 q).card ∧
      (s.1.pools q).totalAllocated = weight ((s.1.pools q).stored + s.2 q) ∧
      blocksOf ((s.1.pools q).stored + s.2 q) ≤ s.1.heap.blocks ∧
      (∀ i < (s.1.pools q).shardCount,
        ((s.1.pools q).shards i).freeCount =
            ∑ c, ((((s.1.pools q).shards i).sizeBuckets c).length : ℤ) ∧
          ((s.1.pools q).shards i).freeCount + ((s.1.pools q).shards i).freeSlots.length =
            ((s.1.pools q).shards i).slotPoolSize) ∧
      (∀ i < (s.1.pools q).cacheCount, ∀ c, (s.1.pools q).cacheLength i c ≤ THREAD_CACHE_SIZE) ∧
      ∀ n ∈ (s.1.pools q).overflows, n ≤ THREAD_CACHE_SIZE + THREAD_CACHE_BATCH_SIZE := by
  have hsound := poolSystem_sound h
  obtain ⟨hp, ha, hb⟩ := hsound.live q hq hlive
  refine ⟨hb, ha, ?_, fun i hi => ⟨(hp.shards i hi).freeCount, (hp.shards i hi).slots⟩,
    hp.lengths, hp.overflows⟩
  rw [hsound.heap, BufferWorld.total_eq s.1 s.2 hq]
  exact Multiset.map_le_map (Multiset.le_add_right _ _)

/-- A pool, and a buffer allocated by thread 0 when the heap has three blocks. -/
def threeBlocks : BufferWorld × Outstanding :=
  PoolOp.apply
    (.alloc 0 0 4096 { offers := fun k => if k < 3 then some (.ofNat (k + 1)) else none })
    (PoolOp.apply (.init 4) ({ pools := fun _ => {} }, fun _ => 0))

theorem threeBlocks_reachable : Reachable poolSystem threeBlocks := by
  have hinit : Reachable poolSystem ({ pools := fun _ => {} }, fun _ => 0) :=
    Reachable.of_init rfl
  refine Reachable.step (Reachable.step hinit (l := .init 4) ⟨?_, rfl⟩)
    (l := .alloc 0 0 4096
      { offers := fun k => if k < 3 then some (.ofNat (k + 1)) else none }) ⟨?_, rfl⟩
  · trivial
  · exact Nat.one_pos

/-- One buffer is outstanding, and the cache of the thread was filled with the other two. -/
theorem buffer_pool_conservation_three_blocks :
    (threeBlocks.1.pools 0).totalBuffers = 3 ∧
      (threeBlocks.1.pools 0).totalBuffers =
        ((threeBlocks.1.pools 0).stored + threeBlocks.2 0).card ∧
      (threeBlocks.1.pools 0).totalAllocated =
        weight ((threeBlocks.1.pools 0).stored + threeBlocks.2 0) := by
  have hall := buffer_pool_conservation threeBlocks_reachable (q := 0) (by decide) (by decide)
  exact ⟨by decide +kernel, hall.1, hall.2.1⟩

end Aura
