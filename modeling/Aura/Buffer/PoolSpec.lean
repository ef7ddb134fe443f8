import Mathlib.Algebra.BigOperators.Fin
import Mathlib.Tactic.Ring
import Aura.Buffer.PoolAccounts

/-!
# What the operations of a pool do

`PoolHeap.Holds s m rest` says that the counters of a pool count the buffers it stores together with
the buffers `m` outside, and that the blocks of the heap are all these and `rest`. Allocations from
the heap enter `rest`, frees leave it, and buffers are counted in and out as they move between `m`,
the pool and `rest`.

* `Holds.cleanup`: the cleanup of a cache keeps what is outside.
* `Holds.allocFrom`: an allocation hands out one buffer of the class, or none.
* `Holds.freeInto`: a free takes one buffer back.
-/

namespace Aura

open Lib BufferPool

namespace PoolHeap

variable {s s' : PoolHeap} {p : BufferPool} {m m' rest rest' : Multiset Buffer} {i : ℕ}
  {c : SizeClass} {buf : UInt64} {bs : List UInt64} {offers : ℕ → Option UInt64}

/-- The pool is sound, its counters count its buffers, and the heap holds them. -/
structure Holds (s : PoolHeap) (m rest : Multiset Buffer) : Prop where
  sound : s.pool.Sound
  allocated : s.pool.totalAllocated = weight (s.pool.stored + m)
  buffers : s.pool.totalBuffers = (s.pool.stored + m).card
  heap : s.heap.blocks = blocksOf (s.pool.stored + m + rest)

/-! ## Moves -/

/-- Counted buffers move, within the pool or in and out of it. -/
theorem Holds.moveWithin (h : s.Holds m rest) (hp : p.Sound)
    (hstored : p.stored + m' = s.pool.stored + m) (ha : p.totalAllocated = s.pool.totalAllocated)
    (hb : p.totalBuffers = s.pool.totalBuffers) :
    ({ s with pool := p } : PoolHeap).Holds m' rest := by
  refine ⟨hp, ?_, ?_, ?_⟩
  · rw [hstored, ha]
    exact h.allocated
  · rw [hstored, hb]
    exact h.buffers
  · rw [hstored]
    exact h.heap

/-- Buffers of a class are counted out. -/
theorem Holds.moveOut (h : s.Holds m rest) (hp : p.Sound)
    (hstored : p.stored + m' + tagged c bs = s.pool.stored + m)
    (ha : p.totalAllocated = s.pool.totalAllocated) (hb : p.totalBuffers = s.pool.totalBuffers) :
    ({ s with pool := p.count c (-bs.length) } : PoolHeap).Holds m' (tagged c bs + rest) := by
  refine ⟨hp.count c _, ?_, ?_, ?_⟩
  · have hold := h.allocated
    rw [← hstored, weight_add, weight_tagged] at hold
    change p.totalAllocated + classToSize c * (-bs.length) = weight (p.stored + m')
    rw [ha, hold]
    ring
  · have hold := h.buffers
    rw [← hstored, Multiset.card_add, tagged_card] at hold
    change p.totalBuffers + -bs.length = (p.stored + m').card
    rw [hb, hold]
    push_cast
    ring
  · rw [count_stored, ← add_assoc, hstored]
    exact h.heap

/-- Buffers of a class are counted in. -/
theorem Holds.moveIn (h : s.Holds m (tagged c bs + rest)) (hp : p.Sound)
    (hstored : p.stored + m' = s.pool.stored + m + tagged c bs)
    (ha : p.totalAllocated = s.pool.totalAllocated) (hb : p.totalBuffers = s.pool.totalBuffers) :
    ({ s with pool := p.count c bs.length } : PoolHeap).Holds m' rest := by
  refine ⟨hp.count c _, ?_, ?_, ?_⟩
  · rw [count_stored, hstored, weight_add, weight_tagged, ← h.allocated]
    change p.totalAllocated + classToSize c * bs.length = _
    rw [ha]
  · rw [count_stored, hstored, Multiset.card_add, tagged_card, Nat.cast_add, ← h.buffers]
    change p.totalBuffers + bs.length = _
    rw [hb]
  · rw [count_stored, hstored, add_assoc]
    exact h.heap

/-- The heap hands out a block. -/
theorem Holds.alloc (h : s.Holds m rest) {offer : Option UInt64} {heap : Heap UInt64}
    (halloc : s.heap.alloc offer (classToSize c) = (some buf, heap)) :
    ({ s with heap } : PoolHeap).Holds m ((buf, c) ::ₘ rest) := by
  refine ⟨h.sound, h.allocated, h.buffers, ?_⟩
  rw [Heap.alloc_eq_some halloc, h.heap, Multiset.add_cons, blocksOf_cons]

/-- Buffers are returned to the heap. -/
theorem Holds.freeAll (h : s.Holds m (tagged c bs + rest)) :
    ({ s with heap := s.heap.freeAll bs } : PoolHeap).Holds m rest := by
  refine ⟨h.sound, h.allocated, h.buffers, ?_⟩
  refine @Heap.freeAll_blocks UInt64 _ _ _ _ (classToSize c) _ ?_
  rw [h.heap, add_left_comm, blocksOf_add, blocksOf_tagged]

/-- A buffer is returned to the heap. -/
theorem Holds.free (h : s.Holds m ((buf, c) ::ₘ rest)) : (s.free buf).Holds m rest := by
  have hall : s.Holds m (tagged c [buf] + rest) := by
    rw [tagged_cons, tagged_nil, Multiset.cons_add, zero_add]
    exact h
  exact hall.freeAll

/-! ## Cleaning up a cache -/

/-- **`cache_flush`** keeps what is outside, and its overflow list fits its array. -/
theorem Holds.cacheFlush (h : s.Holds m rest) (hi : s.pool.Active i) (c : SizeClass) :
    (s.cacheFlush i c (classToSize c)).2.Holds m rest ∧
      Frame s.pool (s.cacheFlush i c (classToSize c)).2.pool := by
  have hshard := h.sound.shardId i hi.lt
  have hloop := flushLoop_spec (c := c) (classToSize c) ((s.pool.threadCaches i).buffers c) _ 0 []
    (h.sound.shards _ hshard)
  simp only [PoolHeap.cacheFlush]
  generalize flushLoop c (classToSize c) ((s.pool.threadCaches i).buffers c)
    (s.pool.shards (s.pool.threadCaches i).shardId) 0 [] = r at hloop
  obtain ⟨hs, heq, hlen⟩ := hloop
  have hmax : s.pool.cacheLength i c ≤ THREAD_CACHE_SIZE := h.sound.lengths i hi.lt c
  have hsize : r.buffers.length + r.toFree.length ≤ THREAD_CACHE_SIZE := hlen.trans hmax
  set p := (s.pool.setShard (s.pool.threadCaches i).shardId r.shard).setCacheBuffers i c r.buffers
  have hp : p.Sound := (h.sound.setShard hs).setCacheBuffers ⟨hi.lt, hi.clean⟩ (by omega)
  have hstored : p.stored + m + tagged c r.toFree = s.pool.stored + m := by
    have h₁ := setShard_stored hshard heq
    have h₂ := @setCacheBuffers_stored
      (s.pool.setShard (s.pool.threadCaches i).shardId r.shard) i c
      (tagged c ((s.pool.threadCaches i).buffers c)) (tagged c r.buffers) hi.lt r.buffers
      (add_comm _ _)
    have h₃ : p.stored + tagged c r.toFree + tagged c ((s.pool.threadCaches i).buffers c) =
        s.pool.stored + tagged c ((s.pool.threadCaches i).buffers c) := by
      rw [add_right_comm, h₂, add_assoc, h₁, tagged_nil, add_zero]
    rw [add_right_comm, add_right_cancel h₃]
  have hout := (h.moveOut hp hstored rfl rfl).freeAll
  refine ⟨⟨⟨hout.sound.shards, hout.sound.shardId, hout.sound.lengths, hout.sound.cleaned,
    hout.sound.mask, ?_⟩, hout.allocated, hout.buffers, hout.heap⟩, ?_⟩
  · intro n hn
    rcases List.mem_append.mp hn with hn | hn
    · exact h.sound.overflows n hn
    · rw [List.mem_singleton.mp hn]
      omega
  · exact ((setShard_frame s.pool _ _).trans (setCacheBuffers_frame _ _ _ _)).trans
      ⟨rfl, rfl, rfl, fun _ => rfl, fun _ => rfl⟩

theorem Holds.flushClass {n : ℕ} (h : s.Holds m rest) (hi : s.pool.Active i) :
    (flushClass i c n s).Holds m rest ∧ Frame s.pool (flushClass i c n s).pool := by
  induction n generalizing s with
  | zero => exact ⟨h, Frame.refl _⟩
  | succ n ih =>
      unfold PoolHeap.flushClass
      split_ifs
      · obtain ⟨h₁, hframe₁⟩ := h.cacheFlush hi c
        obtain ⟨h₂, hframe₂⟩ := ih h₁ (hframe₁.active hi)
        exact ⟨h₂, hframe₁.trans hframe₂⟩
      · exact ⟨h, Frame.refl _⟩

/-- Freeing the buffers of a class in a cache of a pool whose counters are kept. -/
theorem Holds.freeClass (h : s.Holds m rest) (hi : s.pool.Active i) :
    (freeClass true i s c).Holds m rest ∧ Frame s.pool (freeClass true i s c).pool := by
  set p := s.pool.setCacheBuffers i c []
  have hp : p.Sound := h.sound.setCacheBuffers hi (Nat.zero_le _)
  have hstored : p.stored + m + tagged c ((s.pool.threadCaches i).buffers c) =
      s.pool.stored + m := by
    have h₁ := @setCacheBuffers_stored s.pool i c (tagged c ((s.pool.threadCaches i).buffers c)) 0
      hi.lt [] (by rw [tagged_nil, zero_add, add_zero])
    rw [add_right_comm, h₁, add_zero]
  have hout := (h.moveOut hp hstored rfl rfl).freeAll
  exact ⟨⟨hout.sound, hout.allocated, hout.buffers, hout.heap⟩,
    (count_frame s.pool c _).trans (setCacheBuffers_frame _ _ _ _)⟩

/-- An operation on each class of a cache. -/
theorem Holds.foldl {f : PoolHeap → SizeClass → PoolHeap} (h : s.Holds m rest)
    (cs : List SizeClass)
    (hf : ∀ (s : PoolHeap) (c : SizeClass), s.Holds m rest → s.pool.Active i →
      (f s c).Holds m rest ∧ Frame s.pool (f s c).pool) (hi : s.pool.Active i) :
    (cs.foldl f s).Holds m rest ∧ Frame s.pool (cs.foldl f s).pool := by
  induction cs generalizing s with
  | nil => exact ⟨h, Frame.refl _⟩
  | cons c cs ih =>
      obtain ⟨h₁, hframe₁⟩ := hf s c h hi
      obtain ⟨h₂, hframe₂⟩ := ih h₁ (hframe₁.active hi)
      exact ⟨h₂, hframe₁.trans hframe₂⟩

/-- The buffers of a class are gone from a cache, and no class of it got any. -/
def Empties (i : ℕ) (c : SizeClass) (s s' : PoolHeap) : Prop :=
  (s'.pool.threadCaches i).buffers c = [] ∧
    ∀ c', (s.pool.threadCaches i).buffers c' = [] → (s'.pool.threadCaches i).buffers c' = []

theorem cacheFlush_buffers (s : PoolHeap) (i : ℕ) (c : SizeClass) (size : ℕ) :
    (((s.cacheFlush i c size).2.pool).threadCaches i).buffers =
      Function.update (s.pool.threadCaches i).buffers c
        (flushLoop c size ((s.pool.threadCaches i).buffers c)
          (s.pool.shards (s.pool.threadCaches i).shardId) 0 []).buffers := by
  change (Function.update s.pool.threadCaches i _ i).buffers = _
  rw [Function.update_self]
  rfl

/-- As many flushes as there are buffers empty a class. -/
theorem flushClass_empties {n : ℕ} (hn : s.pool.cacheLength i c ≤ n) :
    Empties i c s (flushClass i c n s) := by
  induction n generalizing s with
  | zero => exact ⟨List.length_eq_zero_iff.mp (Nat.le_zero.mp hn), fun _ h => h⟩
  | succ n ih =>
      unfold PoolHeap.flushClass
      split_ifs with hpos
      · have hbuffers := cacheFlush_buffers s i c (classToSize c)
        obtain ⟨buf, bs, hbs⟩ := List.exists_cons_of_length_pos hpos
        have hlen : (s.cacheFlush i c (classToSize c)).2.pool.cacheLength i c ≤ n := by
          rw [cacheLength, hbs] at hn
          rw [cacheLength, hbuffers, Function.update_self, hbs]
          exact (flushLoop_length_lt _ _ _ _).trans (Nat.le_of_succ_le_succ hn)
        obtain ⟨hempty, hkeep⟩ := ih hlen
        refine ⟨hempty, fun c' hc' => hkeep c' ?_⟩
        rw [hbuffers, Function.update_of_ne]
        · exact hc'
        · rintro rfl
          rw [hbs] at hc'
          cases hc'
      · exact ⟨List.length_eq_zero_iff.mp (Nat.eq_zero_of_not_pos hpos), fun _ h => h⟩

theorem freeClass_empties (counted : Bool) : Empties i c s (freeClass counted i s c) := by
  have hbuffers : ((freeClass counted i s c).pool.threadCaches i).buffers =
      Function.update (s.pool.threadCaches i).buffers c [] := by
    cases counted
    all_goals
      change (Function.update s.pool.threadCaches i _ i).buffers = _
      rw [Function.update_self]
      rfl
  refine ⟨?_, fun c' hc' => ?_⟩
  · rw [hbuffers, Function.update_self]
  · rw [hbuffers]
    by_cases hc : c' = c
    · rw [hc, Function.update_self]
    · rw [Function.update_of_ne hc]
      exact hc'

theorem foldl_empties {f : PoolHeap → SizeClass → PoolHeap} (cs : List SizeClass)
    (hf : ∀ s c, Empties i c s (f s c)) (s : PoolHeap) :
    (∀ c ∈ cs, ((cs.foldl f s).pool.threadCaches i).buffers c = []) ∧
      ∀ c, (s.pool.threadCaches i).buffers c = [] →
        ((cs.foldl f s).pool.threadCaches i).buffers c = [] := by
  induction cs generalizing s with
  | nil => exact ⟨fun c hc => absurd hc List.not_mem_nil, fun _ h => h⟩
  | cons c cs ih =>
      obtain ⟨hall, hkeep⟩ := ih (f s c)
      refine ⟨fun c' hc' => ?_, fun c' hc' => hkeep c' ((hf s c).2 c' hc')⟩
      rcases List.mem_cons.mp hc' with rfl | hc'
      · exact hkeep c' (hf s c').1
      · exact hall c' hc'

/-- **The cleanup of a cache** keeps what is outside. -/
theorem Holds.cleanup (h : s.Holds m rest) (hi : i < s.pool.cacheCount) (mode : CacheCleanupMode) :
    (s.cleanupCacheBuffersLocked true i mode).Holds m rest ∧
      FrameBut i s.pool (s.cleanupCacheBuffersLocked true i mode).pool := by
  have hmark {s₁ : PoolHeap} (h₁ : s₁.Holds m rest) (hframe : Frame s.pool s₁.pool)
      (hempty : ∀ c, (s₁.pool.threadCaches i).buffers c = []) :
      (s₁.onPool (·.markCleaned i)).Holds m rest ∧
        FrameBut i s.pool (s₁.onPool (·.markCleaned i)).pool := by
    refine ⟨h₁.moveWithin (h₁.sound.markCleaned hempty) ?_ rfl rfl,
      (hframe.but i).trans (setCache_frameBut rfl)⟩
    rw [markCleaned_stored]
  unfold cleanupCacheBuffersLocked
  split_ifs with hclean
  · exact ⟨h, (Frame.refl _).but i⟩
  · have hactive : s.pool.Active i := ⟨hi, Bool.eq_false_iff.mpr hclean⟩
    cases mode with
    | flush =>
        obtain ⟨h₁, hframe⟩ := h.foldl (List.finRange BUFFER_SIZE_CLASSES)
          (f := fun s c => PoolHeap.flushClass i c (s.pool.cacheLength i c) s)
          (fun s c hs hi => hs.flushClass hi) hactive
        exact hmark h₁ hframe fun c =>
          (foldl_empties (List.finRange BUFFER_SIZE_CLASSES)
            (fun s c => flushClass_empties (le_refl _)) s).1 c (List.mem_finRange c)
    | free =>
        obtain ⟨h₁, hframe⟩ := h.foldl (List.finRange BUFFER_SIZE_CLASSES)
          (f := PoolHeap.freeClass true i) (fun s c hs hi => hs.freeClass hi) hactive
        exact hmark h₁ hframe fun c =>
          (foldl_empties (List.finRange BUFFER_SIZE_CLASSES)
            (fun s c => freeClass_empties true) s).1 c (List.mem_finRange c)

/-! ## Allocation -/

/-- The result of an allocation, as a buffer outside the pool. -/
def handed (c : SizeClass) : Option UInt64 → Multiset Buffer
  | none => 0
  | some buf => {(buf, c)}

theorem Holds.popCache (h : s.Holds m rest) (hi : s.pool.Active i)
    (hpop : s.popCache i c = some (buf, s')) :
    s'.Holds ({(buf, c)} + m) rest ∧ Frame s.pool s'.pool := by
  unfold PoolHeap.popCache at hpop
  split at hpop
  · cases hpop
  · next buf' bs hbs =>
    obtain ⟨rfl, rfl⟩ := Prod.mk.inj (Option.some.inj hpop)
    have hlen := h.sound.lengths i hi.lt c
    rw [cacheLength, hbs, List.length_cons] at hlen
    refine ⟨h.moveWithin (h.sound.setCacheBuffers hi (by omega)) ?_ rfl rfl,
      setCacheBuffers_frame _ _ _ _⟩
    have hstored := @setCacheBuffers_stored s.pool i c {(buf', c)} 0 hi.lt bs
      (by rw [hbs, tagged_cons, add_zero, add_comm, Multiset.singleton_add])
    rw [← add_assoc, hstored, add_zero]

/-- The extra buffers come from the heap. -/
theorem Holds.allocExtras {n k : ℕ} (h : s.Holds m rest) (offers : ℕ → Option UInt64) :
    ({ s with heap := (allocExtras (classToSize c) offers n k s.heap).2 } : PoolHeap).Holds m
      (tagged c (allocExtras (classToSize c) offers n k s.heap).1 + rest) := by
  induction n generalizing s rest k with
  | zero =>
      rw [PoolHeap.allocExtras, tagged_nil, zero_add]
      exact h
  | succ n ih =>
      cases halloc : s.heap.alloc (offers k) (classToSize c) with
      | mk r heap =>
          cases r with
          | none =>
              simp only [PoolHeap.allocExtras, halloc, tagged_nil, zero_add]
              rw [Heap.alloc_eq_none halloc]
              exact h
          | some extra =>
              have hmore := ih (k := k + 1) (h.alloc halloc)
              simp only [PoolHeap.allocExtras, halloc, tagged_cons]
              rw [Multiset.cons_add, ← Multiset.add_cons]
              exact hmore

/-- Extra buffers are stored while there is room, and the others are left. -/
theorem storeExtras_spec {extras bs bs' left : List UInt64}
    (hr : storeExtras extras bs = (bs', left)) (hbs : bs.length ≤ THREAD_CACHE_SIZE) :
    ∃ st, extras = st ++ left ∧ tagged c bs' = tagged c bs + tagged c st ∧
      bs'.length ≤ THREAD_CACHE_SIZE := by
  induction extras generalizing bs with
  | nil =>
      cases hr
      exact ⟨[], rfl, (add_zero _).symm, hbs⟩
  | cons extra extras ih =>
      unfold storeExtras at hr
      split_ifs at hr with hroom
      · obtain ⟨st, hsplit, htag, hmax⟩ := ih hr hroom
        refine ⟨extra :: st, by rw [hsplit, List.cons_append], ?_, hmax⟩
        rw [htag, tagged_cons, tagged_cons, Multiset.cons_add, Multiset.add_cons]
      · cases hr
        exact ⟨[], rfl, (add_zero _).symm, hbs⟩

/-- The pre-fill keeps what is outside. -/
theorem Holds.prefill (h : s.Holds m rest) (hi : s.pool.Active i)
    (hlive : s.pool.destroyed = false) (c : SizeClass) (offers : ℕ → Option UInt64) :
    (s.prefill i c offers).Holds m rest ∧ Frame s.pool (s.prefill i c offers).pool := by
  have hextras := h.allocExtras (c := c) (n := THREAD_CACHE_BATCH_SIZE - 1) (k := 1) offers
  unfold PoolHeap.prefill
  simp only [hi.clean, hlive, Bool.not_false, Bool.and_true, if_true]
  revert hextras
  generalize PoolHeap.allocExtras (classToSize c) offers (THREAD_CACHE_BATCH_SIZE - 1) 1 s.heap = r
  obtain ⟨extras, heap⟩ := r
  intro hextras
  cases hstore : storeExtras extras ((s.pool.threadCaches i).buffers c) with
  | mk bs left =>
      obtain ⟨st, rfl, htag, hmax⟩ := storeExtras_spec (c := c) hstore (h.sound.lengths i hi.lt c)
      rw [tagged_append, add_assoc] at hextras
      have hstored : (s.pool.setCacheBuffers i c bs).stored + m =
          s.pool.stored + m + tagged c st := by
        have hmove := @setCacheBuffers_stored s.pool i c 0 (tagged c st) hi.lt bs
          (by rw [htag, add_zero])
        rw [← add_zero (BufferPool.stored _), hmove, add_right_comm]
      have hin := (hextras.moveIn (h.sound.setCacheBuffers hi hmax) hstored rfl rfl).freeAll
      refine ⟨?_, (setCacheBuffers_frame _ _ _ _).trans (count_frame _ _ _)⟩
      dsimp only
      rw [List.length_append, Nat.cast_add, add_sub_cancel_right]
      exact hin

/-- The allocation from the heap counts its buffer in. -/
theorem Holds.allocHeap {cache : Option ℕ} {r : Option UInt64} (h : s.Holds m rest)
    (hcache : ∀ i ∈ cache, s.pool.Active i) (hlive : s.pool.destroyed = false)
    (hr : s.allocHeap cache c offers = (r, s')) :
    s'.Holds (handed c r + m) rest ∧ Frame s.pool s'.pool := by
  cases halloc : s.heap.alloc (offers 0) (classToSize c) with
  | mk o heap =>
      cases o with
      | none =>
          simp only [PoolHeap.allocHeap, halloc] at hr
          obtain ⟨rfl, rfl⟩ := Prod.mk.inj hr
          rw [Heap.alloc_eq_none halloc, handed, zero_add]
          exact ⟨h, Frame.refl _⟩
      | some buf =>
          simp only [PoolHeap.allocHeap, halloc] at hr
          obtain ⟨rfl, rfl⟩ := Prod.mk.inj hr
          have hin : ({ pool := s.pool.count c 1, heap } : PoolHeap).Holds
              (handed c (some buf) + m) rest := by
            have hone : ({ s with heap } : PoolHeap).Holds m (tagged c [buf] + rest) := by
              rw [tagged_cons, tagged_nil, Multiset.cons_add, zero_add]
              exact h.alloc halloc
            refine hone.moveIn h.sound ?_ rfl rfl
            rw [handed, tagged_cons, tagged_nil, ← Multiset.singleton_add, add_zero]
            abel
          cases cache with
          | none => exact ⟨hin, count_frame _ _ _⟩
          | some i =>
              have hi := hcache i rfl
              obtain ⟨h', hframe⟩ := hin.prefill ⟨hi.lt, hi.clean⟩ hlive c offers
              exact ⟨h', (count_frame _ _ _).trans hframe⟩

/-- The allocation from a shard. -/
theorem Holds.allocShard {r : Option UInt64} (h : s.Holds m rest) (cache : Option ℕ)
    (hcache : ∀ i ∈ cache, s.pool.Active i) (hlive : s.pool.destroyed = false)
    (hr : s.allocShard cache c offers = (r, s')) :
    s'.Holds (handed c r + m) rest ∧ Frame s.pool s'.pool := by
  have hlt := h.sound.selectShard_lt cache fun i hi => (hcache i hi).lt
  have hsound := h.sound.selectShard cache
  have hframe := selectShard_frame s.pool cache
  have hsel : ({ s with pool := (s.pool.selectShard cache).2 } : PoolHeap).Holds m rest := by
    refine h.moveWithin hsound (by rw [selectShard_stored]) ?_ ?_
    all_goals cases cache <;> rfl
  unfold PoolHeap.allocShard at hr
  revert hr hlt hsound hframe hsel
  generalize s.pool.selectShard cache = sel
  obtain ⟨shardId, pool⟩ := sel
  intro hr hlt hsound hframe hsel
  dsimp only at hr hlt hsound hframe hsel
  rw [← hframe.shardCount] at hlt
  cases hpop : (pool.shards shardId).popBucket c with
  | none =>
      simp only [hpop] at hr
      obtain ⟨h', hframe'⟩ := hsel.allocHeap (fun i hi => hframe.active (hcache i hi))
        (hframe.destroyed.trans hlive) hr
      exact ⟨h', hframe.trans hframe'⟩
  | some q =>
      obtain ⟨buf, shard⟩ := q
      simp only [hpop] at hr
      obtain ⟨rfl, rfl⟩ := Prod.mk.inj hr
      have hshard := BufferShard.popBucket_sound hpop (hsound.shards _ hlt)
      refine ⟨hsel.moveWithin (hsound.setShard hshard) ?_ rfl rfl,
        hframe.trans (setShard_frame _ _ _)⟩
      have hstored := @setShard_stored pool shardId {(buf, c)} 0 hlt shard
        (by rw [BufferShard.popBucket_contents hpop, add_zero])
      rw [handed, ← add_assoc, hstored, add_zero]

/-- **An allocation** hands out one buffer of its class, or none. -/
theorem Holds.allocFrom {cache : Option ℕ} {r : Option UInt64} (h : s.Holds m rest)
    (hcache : ∀ i ∈ cache, s.pool.Active i) (hlive : s.pool.destroyed = false)
    (hr : s.allocFrom cache c offers = (r, s')) :
    s'.Holds (handed c r + m) rest ∧ Frame s.pool s'.pool := by
  unfold PoolHeap.allocFrom at hr
  simp only [hlive, Bool.false_eq_true, if_false] at hr
  cases cache with
  | none => exact h.allocShard none hcache hlive hr
  | some i =>
      have hi := hcache i rfl
      cases hpop : s.popCache i c with
      | some q =>
          obtain ⟨buf, s₁⟩ := q
          simp only [hpop] at hr
          obtain ⟨rfl, rfl⟩ := Prod.mk.inj hr
          exact h.popCache hi hpop
      | none =>
          simp only [hpop] at hr
          cases hfill : s.pool.cacheRefill i c with
          | mk n pool =>
              simp only [hfill] at hr
              obtain ⟨hsound, hstored, hframe, ha, hb⟩ := cacheRefill_spec hfill h.sound hi
              have h₁ : ({ s with pool } : PoolHeap).Holds m rest :=
                h.moveWithin hsound (by rw [hstored]) ha hb
              have hi₁ := hframe.active hi
              split_ifs at hr with hpos
              · cases hpop₁ : PoolHeap.popCache { s with pool } i c with
                | none =>
                    simp only [hpop₁] at hr
                    obtain ⟨rfl, rfl⟩ := Prod.mk.inj hr
                    rw [handed, zero_add]
                    exact ⟨h₁, hframe⟩
                | some q =>
                    obtain ⟨buf, s₂⟩ := q
                    simp only [hpop₁] at hr
                    obtain ⟨rfl, rfl⟩ := Prod.mk.inj hr
                    obtain ⟨h₂, hframe₂⟩ := h₁.popCache hi₁ hpop₁
                    exact ⟨h₂, hframe.trans hframe₂⟩
              · obtain ⟨h₂, hframe₂⟩ := h₁.allocShard (some i)
                  (fun j hj => by cases hj; exact hi₁) (hframe.destroyed.trans hlive) hr
                exact ⟨h₂, hframe.trans hframe₂⟩

/-! ## Freeing -/

/-- A buffer is stored in a cache with room. -/
theorem Holds.storeCache (h : s.Holds ((buf, c) ::ₘ m) rest) (hi : s.pool.Active i)
    (hlive : s.pool.destroyed = false) (hroom : s.pool.cacheLength i c < THREAD_CACHE_SIZE) :
    (s.storeCache i c buf).Holds m rest ∧ Frame s.pool (s.storeCache i c buf).pool := by
  unfold PoolHeap.storeCache
  rw [hi.clean, hlive]
  refine ⟨h.moveWithin (h.sound.setCacheBuffers hi hroom) ?_ rfl rfl,
    setCacheBuffers_frame _ _ _ _⟩
  have hstored := @setCacheBuffers_stored s.pool i c 0 {(buf, c)} hi.lt
    (buf :: (s.pool.threadCaches i).buffers c)
    (by rw [tagged_cons, add_zero, add_comm, Multiset.singleton_add])
  rw [← add_zero (BufferPool.stored _), hstored, add_assoc, Multiset.singleton_add]

/-- A buffer is stored in a shard, or returned to the heap. -/
theorem Holds.storeShard (h : s.Holds ((buf, c) ::ₘ m) rest) (cache : Option ℕ)
    (hcache : ∀ i ∈ cache, s.pool.Active i) :
    (s.storeShard cache c (classToSize c) buf).Holds m rest ∧
      Frame s.pool (s.storeShard cache c (classToSize c) buf).pool := by
  have hlt := h.sound.selectShard_lt cache fun i hi => (hcache i hi).lt
  have hsound := h.sound.selectShard cache
  have hframe := selectShard_frame s.pool cache
  have hsel : ({ s with pool := (s.pool.selectShard cache).2 } : PoolHeap).Holds
      ((buf, c) ::ₘ m) rest := by
    refine h.moveWithin hsound (by rw [selectShard_stored]) ?_ ?_
    all_goals cases cache <;> rfl
  unfold PoolHeap.storeShard
  revert hlt hsound hframe hsel
  generalize s.pool.selectShard cache = sel
  obtain ⟨shardId, pool⟩ := sel
  intro hlt hsound hframe hsel
  dsimp only at hlt hsound hframe hsel ⊢
  rw [← hframe.shardCount] at hlt
  cases hpush : if (pool.shards shardId).atCapacity then none
      else (pool.shards shardId).pushBucket c (classToSize c) buf with
  | some shard =>
      rw [Option.ite_none_left_eq_some] at hpush
      have hshard := BufferShard.pushBucket_sound hpush.2 (hsound.shards _ hlt)
      refine ⟨hsel.moveWithin (hsound.setShard hshard) ?_ rfl rfl,
        hframe.trans (setShard_frame _ _ _)⟩
      have hstored := @setShard_stored pool shardId 0 {(buf, c)} hlt shard
        (by rw [BufferShard.pushBucket_contents hpush.2, add_zero])
      rw [← add_zero (BufferPool.stored _), hstored, add_assoc, Multiset.singleton_add]
  | none =>
      have hstored : pool.stored + m + tagged c [buf] = pool.stored + ((buf, c) ::ₘ m) := by
        rw [tagged_cons, tagged_nil, add_assoc, Multiset.add_cons, add_zero]
      exact ⟨(hsel.moveOut hsound hstored rfl rfl).freeAll, hframe.trans (count_frame _ _ _)⟩

/-- **A free** takes one buffer back. -/
theorem Holds.freeInto {cache : Option ℕ} (h : s.Holds ((buf, c) ::ₘ m) rest)
    (hcache : ∀ i ∈ cache, s.pool.Active i) (hlive : s.pool.destroyed = false) :
    (s.freeInto cache c buf).Holds m rest ∧ Frame s.pool (s.freeInto cache c buf).pool := by
  unfold PoolHeap.freeInto
  simp only [hlive, Bool.false_eq_true, if_false]
  cases cache with
  | none => exact h.storeShard none hcache
  | some i =>
      have hi := hcache i rfl
      dsimp only
      split_ifs with hroom hroom₁
      · exact h.storeCache hi hlive hroom
      all_goals
        obtain ⟨h₁, hframe⟩ := h.cacheFlush hi c
        have hi₁ := hframe.active hi
      · obtain ⟨h₂, hframe₂⟩ := h₁.storeCache hi₁ (hframe.destroyed.trans hlive) hroom₁
        exact ⟨h₂, hframe.trans hframe₂⟩
      · obtain ⟨h₂, hframe₂⟩ := h₁.storeShard (some i) fun j hj => by
          cases hj
          exact hi₁
        exact ⟨h₂, hframe.trans hframe₂⟩

/-! ## Destruction -/

/-- The blocks of the heap are the buffers of the pool and the buffers `m`; the counters are not
looked at. -/
def Backs (s : PoolHeap) (m : Multiset Buffer) : Prop :=
  s.heap.blocks = blocksOf (s.pool.stored + m)

theorem Holds.backs (h : s.Holds m rest) : s.Backs (m + rest) := by
  unfold Backs
  rw [← add_assoc]
  exact h.heap

/-- Buffers go back to the heap. -/
theorem Backs.freeAll (h : s.Backs m) (hstored : p.stored + tagged c bs = s.pool.stored) :
    ({ pool := p, heap := s.heap.freeAll bs } : PoolHeap).Backs m := by
  refine @Heap.freeAll_blocks UInt64 _ _ _ _ (classToSize c) _ ?_
  rw [h, ← hstored, add_right_comm, add_comm, blocksOf_add, blocksOf_tagged]

theorem Backs.freeClass (h : s.Backs m) (hi : i < s.pool.cacheCount) (c : SizeClass) :
    (freeClass false i s c).Backs m := by
  have hstored := @setCacheBuffers_stored s.pool i c
    (tagged c ((s.pool.threadCaches i).buffers c)) 0 hi []
    (by rw [tagged_nil, zero_add, add_zero])
  exact h.freeAll (hstored.trans (add_zero _))

/-- What the destruction of a pool keeps of the caches it does not process. -/
structure Processed (i : ℕ) (p p' : BufferPool) : Prop extends FrameBut i p p' where
  shards : p'.shards = p.shards
  shardCount : p'.shardCount = p.shardCount
  cleaned : (p'.threadCaches i).cleanedUp = true ∧ ∀ c, (p'.threadCaches i).buffers c = []
  others : ∀ j, j ≠ i → p'.threadCaches j = p.threadCaches j

/-- **The cleanup of a cache of a destroyed pool** returns its buffers to the heap. -/
theorem Backs.cleanup (h : s.Backs m) (hi : i < s.pool.cacheCount)
    (hclean : (s.pool.threadCaches i).cleanedUp = true →
      ∀ c, (s.pool.threadCaches i).buffers c = []) :
    (s.cleanupCacheBuffersLocked false i .free).Backs m ∧
      Processed i s.pool (s.cleanupCacheBuffersLocked false i .free).pool := by
  unfold cleanupCacheBuffersLocked
  split_ifs with hdone
  · exact ⟨h, ⟨(Frame.refl _).but i, rfl, rfl, ⟨hdone, hclean hdone⟩, fun _ _ => rfl⟩⟩
  · have hfold (cs : List SizeClass) (s₁ : PoolHeap) (h₁ : s₁.Backs m)
        (hi₁ : i < s₁.pool.cacheCount) :
        (cs.foldl (PoolHeap.freeClass false i) s₁).Backs m ∧
          Frame s₁.pool (cs.foldl (PoolHeap.freeClass false i) s₁).pool ∧
          (cs.foldl (PoolHeap.freeClass false i) s₁).pool.shards = s₁.pool.shards ∧
          ∀ j, j ≠ i → (cs.foldl (PoolHeap.freeClass false i) s₁).pool.threadCaches j =
            s₁.pool.threadCaches j := by
      induction cs generalizing s₁ with
      | nil => exact ⟨h₁, Frame.refl _, rfl, fun _ _ => rfl⟩
      | cons c cs ih =>
          obtain ⟨h₂, hframe, hshards, hothers⟩ :=
            ih (PoolHeap.freeClass false i s₁ c) (h₁.freeClass hi₁ c) hi₁
          refine ⟨h₂, (setCacheBuffers_frame _ _ _ _).trans hframe, hshards, fun j hj => ?_⟩
          refine (hothers j hj).trans ?_
          change Function.update _ i _ j = _
          rw [Function.update_of_ne hj]
          rfl
    obtain ⟨h₁, hframe, hshards, hothers⟩ := hfold (List.finRange BUFFER_SIZE_CLASSES) s h hi
    have hempty := (foldl_empties (i := i) (List.finRange BUFFER_SIZE_CLASSES)
      (fun s c => freeClass_empties (s := s) (c := c) false) s).1
    dsimp only
    generalize (List.finRange BUFFER_SIZE_CLASSES).foldl (PoolHeap.freeClass false i) s = s₁
      at h₁ hframe hshards hothers hempty
    refine ⟨?_, ⟨(hframe.but i).trans (setCache_frameBut rfl), hshards, hframe.shardCount, ?_,
      fun j hj => ?_⟩⟩
    · unfold Backs onPool
      rw [markCleaned_stored]
      exact h₁
    · change (Function.update s₁.pool.threadCaches i _ i).cleanedUp = true ∧
        ∀ c, (Function.update s₁.pool.threadCaches i _ i).buffers c = []
      rw [Function.update_self]
      exact ⟨rfl, fun c => hempty c (List.mem_finRange c)⟩
    · change Function.update s₁.pool.threadCaches i _ j = _
      rw [Function.update_of_ne hj]
      exact hothers j hj

/-- Returning the buffers of several classes. -/
theorem freeAll_foldl {h : Heap UInt64} {f : SizeClass → List UInt64} {cs : List SizeClass}
    {m : Multiset Buffer} (hb : h.blocks = blocksOf ((cs.map fun c => tagged c (f c)).sum + m)) :
    (cs.foldl (fun h c => h.freeAll (f c)) h).blocks = blocksOf m := by
  induction cs generalizing h with
  | nil =>
      rw [List.map_nil, List.sum_nil, zero_add] at hb
      exact hb
  | cons c cs ih =>
      refine ih (@Heap.freeAll_blocks UInt64 _ _ _ _ (classToSize c) _ ?_)
      rw [hb, List.map_cons, List.sum_cons, add_assoc, blocksOf_add, blocksOf_tagged]

/-- **The destruction of a shard** returns its buffers to the heap. -/
theorem Backs.destroyShard {shard : BufferShard} (h : s.Backs m) (hi : i < s.pool.shardCount)
    (hempty : shard.contents = 0) :
    Backs {
      pool := s.pool.setShard i shard
      heap := (List.finRange BUFFER_SIZE_CLASSES).foldl
        (fun h c => h.freeAll (((s.pool.shards i).sizeBuckets c).map (·.buffer))) s.heap } m := by
  refine freeAll_foldl ?_
  have hstored := @setShard_stored s.pool i (s.pool.shards i).contents 0 hi shard
    (by rw [hempty, zero_add, add_zero])
  have hcontents : (s.pool.shards i).contents = ((List.finRange BUFFER_SIZE_CLASSES).map
      fun c => tagged c (((s.pool.shards i).sizeBuckets c).map (·.buffer))).sum :=
    Fin.sum_univ_def _
  rw [← hcontents, h, ← add_zero s.pool.stored, ← hstored, add_right_comm, add_comm]

end PoolHeap

end Aura
