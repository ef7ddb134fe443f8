import Aura.Buffer.PoolConservation
import Aura.Buffer.SizeMapRefinement

/-!
# The buffers of the engines

`aura_buffer_alloc` and `aura_buffer_free` over the buffer pools and the size maps, one of each to
an engine. Each call is one step of a thread; between them threads exit and engines are created and
destroyed.

* `engineBufferSystem_sound`: in every reachable state the size map of an engine holds what is
  outstanding from it, and the pools are sound.
* `buffer_pool_safety`: what this means for the callers.
-/

namespace Aura

open Lib BufferPool PoolHeap

/-- The engines, as far as their buffers go: engine `e` has pool `e` and its own size map. -/
structure BufferEngines where
  world : BufferWorld
  maps : ℕ → BufSizeMap

namespace BufferEngines

variable (s : BufferEngines)

def setMap (e : ℕ) (map : BufSizeMap) : BufferEngines :=
  { s with maps := Function.update s.maps e map }

/-- The buffer part of `aura_create_with_options`. -/
def create (cpus : ℤ) : BufferEngines where
  world := { s.world with
    pools := Function.update s.world.pools s.world.poolCount (bufferPoolInit cpus)
    poolCount := s.world.poolCount + 1 }
  maps := Function.update s.maps s.world.poolCount bufSizeMapInit

/-- The buffer part of `aura_destroy`. -/
def destroy (t e : ℕ) : BufferEngines where
  world := s.world.bufferPoolDestroy t e
  maps := Function.update s.maps e { s.maps e with entries := fun _ => {}, capacity := 0 }

/-- `aura_buffer_alloc`. A buffer that cannot be recorded in the size map is freed again, and `a'`
answers for that. The result is `none` if the growth of the map does not terminate. -/
def auraBufferAlloc (t e size : ℕ) (a a' : Answers) (calloc : Bool) :
    Option (Option UInt64 × BufferEngines) :=
  if size = 0 then some (none, s)
  else
    match s.world.bufferPoolAlloc t e size a with
    | (none, world) => some (none, { s with world })
    | (some buf, world) =>
        ((s.maps e).insert calloc buf (sizeToClass size)).map fun (result, map) =>
          let s := setMap { s with world } e map
          if result ≠ 0 then (none, { s with world := s.world.bufferPoolFree t e buf size a' })
          else (some buf, s)

/-- `aura_buffer_free`, that is `buffer_pool_free_tracked`. -/
def auraBufferFree (t e : ℕ) (buf : UInt64) (a : Answers) : BufferEngines :=
  if buf = 0 then s
  else
    let (classIdx, map) := (s.maps e).remove buf
    let s := s.setMap e map
    if classIdx < 0 then { s with world := s.world.onPool e (·.free buf) }
    else { s with world := s.world.bufferPoolFree t e buf (classToSize classIdx.toNat) a }

end BufferEngines

/-- A call, or the exit of a thread. -/
inductive EngineBufferOp
  | create (cpus : ℤ)
  | alloc (t e size : ℕ) (a a' : Answers) (calloc : Bool)
  | free (t e : ℕ) (buf : UInt64) (a : Answers)
  | exit (t : ℕ)
  | destroy (t e : ℕ)

/-- The engine was created and is not destroyed. -/
def BufferWorld.Live (w : BufferWorld) (e : ℕ) : Prop :=
  e < w.poolCount ∧ (w.pools e).destroyed = false

/-- What the callers keep to: they use live engines and free what is outstanding from them. -/
def EngineBufferOp.Valid (op : EngineBufferOp) (s : BufferEngines) (out : Outstanding) : Prop :=
  match op with
  | .create _ | .exit _ => True
  | .alloc _ e _ _ _ _ | .destroy _ e => s.world.Live e
  | .free _ e buf _ => s.world.Live e ∧ ∃ c, (buf, c) ∈ out e

/-- The state after an operation, with what is outstanding then. -/
def EngineBufferOp.apply (op : EngineBufferOp) (s : BufferEngines × Outstanding) :
    Option (BufferEngines × Outstanding) :=
  match op with
  | .create cpus => some (s.1.create cpus, s.2)
  | .alloc t e size a a' calloc =>
      (s.1.auraBufferAlloc t e size a a' calloc).map fun (r, s') => (s', s.2.allocated e size r)
  | .free t e buf a =>
      some (s.1.auraBufferFree t e buf a,
        Function.update s.2 e ((s.2 e).filter fun b => b.1 ≠ buf))
  | .exit t => some ({ s.1 with world := s.1.world.exitThread t }, s.2)
  | .destroy t e => some (s.1.destroy t e, s.2)

/-- The engines from the start of the program on. -/
def engineBufferSystem : System (BufferEngines × Outstanding) EngineBufferOp where
  init s := s = ({ world := { pools := fun _ => {} }, maps := fun _ => bufSizeMapInit }, fun _ => 0)
  step s op s' := op.Valid s.1 s.2 ∧ op.apply s = some s'

/-! ## Who has a buffer -/

namespace BufferWorld

variable {w w' : BufferWorld} {out : Outstanding} {t q e : ℕ} {a : Answers} {buf : UInt64}
  {c c' : SizeClass}

/-- No address is stored or outstanding twice. -/
theorem Sound.nodup (h : w.Sound out) : ((w.total out).map Prod.fst).Nodup := by
  have hnodup := w.heap.nodup
  rw [h.heap, blocksOf, Multiset.map_map] at hnodup
  exact hnodup

/-- What a pool stores or has outstanding is among all buffers. -/
theorem mem_total (hq : q < w.poolCount) {b : Buffer} (hb : b ∈ (w.pools q).stored + out q) :
    b ∈ w.total out :=
  Multiset.mem_sum.mpr ⟨q, Finset.mem_range.mpr hq, hb⟩

theorem Sound.nodup_out (h : w.Sound out) (hq : q < w.poolCount) :
    ((out q).map Prod.fst).Nodup := by
  have hnodup := h.nodup
  rw [total_eq w out hq] at hnodup
  refine Multiset.nodup_of_le (Multiset.map_le_map ?_) hnodup
  exact (Multiset.le_add_left _ _).trans (Multiset.le_add_right _ _)

theorem total_split (w : BufferWorld) (out : Outstanding) :
    w.total out = ∑ q ∈ Finset.range w.poolCount, (w.pools q).stored +
      ∑ q ∈ Finset.range w.poolCount, out q := Finset.sum_add_distrib

/-- No address is outstanding twice. -/
theorem Sound.nodup_all (h : w.Sound out) :
    ((∑ q ∈ Finset.range w.poolCount, out q).map Prod.fst).Nodup := by
  refine Multiset.nodup_of_le (Multiset.map_le_map ?_) h.nodup
  rw [total_split]
  exact Multiset.le_add_left _ _

/-- A buffer that is outstanding is stored nowhere. -/
theorem Sound.not_stored (h : w.Sound out) (he : e < w.poolCount) (hbuf : (buf, c) ∈ out e)
    (hq : q < w.poolCount) : (buf, c') ∉ (w.pools q).stored := by
  intro hstored
  have hnodup := h.nodup
  rw [total_split, Multiset.map_add, Multiset.nodup_add] at hnodup
  have hstored' : (buf, c') ∈ ∑ q ∈ Finset.range w.poolCount, (w.pools q).stored :=
    Multiset.mem_sum.mpr ⟨q, Finset.mem_range.mpr hq, hstored⟩
  have hout' : (buf, c) ∈ ∑ q ∈ Finset.range w.poolCount, out q :=
    Multiset.mem_sum.mpr ⟨e, Finset.mem_range.mpr he, hbuf⟩
  have h₁ := Multiset.mem_map_of_mem Prod.fst hstored'
  have h₂ := Multiset.mem_map_of_mem Prod.fst hout'
  exact Multiset.disjoint_left.mp hnodup.2.2 h₁ h₂

/-- A buffer that is outstanding from one pool is not outstanding from another. -/
theorem Sound.not_outstanding (h : w.Sound out) (he : e < w.poolCount) (hbuf : (buf, c) ∈ out e)
    (hq : q < w.poolCount) (hqe : q ≠ e) : (buf, c') ∉ out q := by
  intro hout
  have hnodup := h.nodup
  rw [total_eq w out he, Multiset.map_add, Multiset.nodup_add] at hnodup
  have hothers : (buf, c') ∈ w.others out e :=
    Multiset.mem_sum.mpr ⟨q, Finset.mem_erase.mpr ⟨hqe, Finset.mem_range.mpr hq⟩,
      Multiset.mem_add.mpr (.inr hout)⟩
  have h₁ := Multiset.mem_map_of_mem Prod.fst
    (Multiset.mem_add.mpr (.inr hbuf) : (buf, c) ∈ (w.pools e).stored + out e)
  have h₂ := Multiset.mem_map_of_mem Prod.fst hothers
  exact Multiset.disjoint_left.mp hnodup.2.2 h₁ h₂

/-- A buffer in the heap has one class. -/
theorem class_unique (hc : (buf, classToSize c) ∈ w.heap.blocks)
    (hc' : (buf, classToSize c') ∈ w.heap.blocks) : c' = c := by
  have hsize := Heap.size_unique hc' hc
  rw [← sizeToClass_classToSize c', hsize, sizeToClass_classToSize]

/-- What the pools store is in the heap. -/
theorem Sound.stored_mem_heap (h : w.Sound out) (hq : q < w.poolCount) {b : Buffer}
    (hb : b ∈ (w.pools q).stored) : (b.1, classToSize b.2) ∈ w.heap.blocks := by
  rw [h.heap]
  exact Multiset.mem_map_of_mem (fun b : Buffer => (b.1, classToSize b.2))
    (mem_total hq (Multiset.mem_add.mpr (.inl hb)))

end BufferWorld

/-! ## Where a freed buffer goes -/

namespace PoolHeap

variable {s : PoolHeap} {cache : Option ℕ} {c : SizeClass} {buf : UInt64}

theorem free_heap_le (s : PoolHeap) (buf : UInt64) : (s.free buf).heap.blocks ≤ s.heap.blocks :=
  Multiset.filter_le _ _

theorem storeCache_heap_le (s : PoolHeap) (i : ℕ) (c : SizeClass) (buf : UInt64) :
    (s.storeCache i c buf).heap.blocks ≤ s.heap.blocks := by
  unfold storeCache
  split_ifs
  · exact s.free_heap_le buf
  · exact le_refl _

theorem storeShard_heap_le (s : PoolHeap) (cache : Option ℕ) (c : SizeClass) (n : ℕ)
    (buf : UInt64) : (s.storeShard cache c n buf).heap.blocks ≤ s.heap.blocks := by
  unfold storeShard
  dsimp only
  split
  · exact le_refl _
  · exact Multiset.filter_le _ _

theorem cacheFlush_heap_le (s : PoolHeap) (i : ℕ) (c : SizeClass) (n : ℕ) :
    (s.cacheFlush i c n).2.heap.blocks ≤ s.heap.blocks := Heap.freeAll_le _ _

/-- A free takes no block from the heap. -/
theorem freeInto_heap_le (s : PoolHeap) (cache : Option ℕ) (c : SizeClass) (buf : UInt64) :
    (s.freeInto cache c buf).heap.blocks ≤ s.heap.blocks := by
  unfold freeInto
  cases cache with
  | none =>
      dsimp only
      split_ifs
      · exact s.free_heap_le buf
      · exact s.storeShard_heap_le none c _ buf
  | some i =>
      dsimp only
      split_ifs
      · exact s.storeCache_heap_le i c buf
      · exact s.free_heap_le buf
      · exact (storeCache_heap_le _ i c buf).trans (s.cacheFlush_heap_le i c _)
      · exact (storeShard_heap_le _ (some i) c _ buf).trans (s.cacheFlush_heap_le i c _)

end PoolHeap

namespace BufferWorld

variable {w w' : BufferWorld} {out : Outstanding} {t q e : ℕ} {a : Answers} {buf : UInt64}
  {c c' : SizeClass}

/-- **A freed buffer** is stored under its own class in its own pool, or nowhere. -/
theorem Sound.freed_class {size : ℕ} (h : w.Sound out) (he : e < w.poolCount) (hsize : 0 < size)
    (hmem : (buf, sizeToClass size) ∈ out e) (hq : q < w.poolCount)
    (hstored : (buf, c') ∈ ((w.bufferPoolFree t e buf size a).pools q).stored) :
    q = e ∧ c' = sizeToClass size := by
  have hfree := h.bufferPoolFree (t := t) (a := a) he hsize hmem
  have hbuf : buf ≠ 0 := by
    rintro rfl
    exact w.heap.nonnull (Multiset.mem_map_of_mem Prod.fst (h.mem_heap he hmem))
  revert hstored hfree
  unfold BufferWorld.bufferPoolFree
  rw [if_neg hbuf, if_neg (ne_of_gt hsize)]
  split_ifs with hdestroyed
  · intro hstored _
    have hpools : (w.onPool e (·.free buf)).pools = w.pools := Function.update_eq_self _ _
    rw [hpools] at hstored
    exact absurd hstored (h.not_stored he hmem hq)
  · cases hget : w.getThreadCache t e a with
    | mk cache w₁ =>
        dsimp only
        intro hstored hfree
        obtain ⟨h₁, hfetched⟩ := h.getThreadCache he hget
        have he₁ : e < w₁.poolCount := hfetched.poolCount ▸ he
        have hq₁ : q < w₁.poolCount := hfetched.poolCount ▸ hq
        by_cases hqe : q = e
        · subst hqe
          refine ⟨rfl, class_unique (h₁.mem_heap he₁ hmem) ?_⟩
          refine Multiset.mem_of_le ?_ (hfree.1.stored_mem_heap hq₁ hstored)
          exact PoolHeap.freeInto_heap_le _ _ _ _
        · rw [BufferWorld.onPool, withPool_of_ne hqe] at hstored
          exact absurd hstored (h₁.not_stored he₁ hmem hq₁)

end BufferWorld

/-! ## The size map -/

/-- The size map holds exactly these buffers. -/
def BufSizeMap.Records (map : BufSizeMap) (m : Multiset Buffer) : Prop :=
  ∃ k r, map.Refines k r ∧ ∀ key c, r.lookup key = some c ↔ (key, c) ∈ m

namespace BufSizeMap.Records

variable {map : BufSizeMap} {m : Multiset Buffer} {buf : UInt64} {c : SizeClass}

theorem init : bufSizeMapInit.Records 0 := by
  refine ⟨10, ∅, BufSizeMap.refines_init, fun key c => ?_⟩
  rw [Finmap.lookup_empty]
  exact ⟨fun h => (Option.some_ne_none _ h.symm).elim, fun h => absurd h (Multiset.notMem_zero _)⟩

/-- A new buffer is recorded, or nothing changes. -/
theorem insert (h : map.Records m) (hnew : buf ∉ m.map Prod.fst) (c : SizeClass) (calloc : Bool) :
    ∃ r map', map.insert calloc buf c = some (r, map') ∧
      (r = 0 ∧ map'.Records ((buf, c) ::ₘ m) ∨ r ≠ 0 ∧ map'.Records m) := by
  obtain ⟨k, ref, href, hmem⟩ := h
  obtain ⟨r, map', k', ref', heq, href', hstep⟩ := href.insert buf c calloc
  refine ⟨r, map', heq, ?_⟩
  rcases hstep with ⟨-, hr, href₁⟩ | ⟨-, hr, href₁⟩
  · refine .inl ⟨hr, k', ref', href', fun key c' => ?_⟩
    rw [href₁, Multiset.mem_cons]
    by_cases hkey : key = buf
    · subst hkey
      rw [Finmap.lookup_insert]
      constructor
      · intro hc
        exact .inl (by rw [Option.some.inj hc])
      · rintro (hc | hold)
        · rw [(Prod.mk.inj hc).2]
        · exact absurd (Multiset.mem_map_of_mem Prod.fst hold) hnew
    · rw [Finmap.lookup_insert_of_ne _ hkey, hmem]
      exact ⟨.inr, fun hc => hc.resolve_left fun heq => hkey (Prod.mk.inj heq).1⟩
  · refine .inr ⟨?_, k', ref', href', ?_⟩
    · rw [show r = -1 from hr]
      decide
    · rw [href₁]
      exact hmem

/-- A recorded buffer is deleted, and the class it has is returned. -/
theorem remove (h : map.Records m) (hbuf : (buf, c) ∈ m) :
    ∃ map', map.remove buf = ((c : ℤ), map') ∧
      map'.Records (m.filter fun b => b.1 ≠ buf) := by
  obtain ⟨k, ref, href, hmem⟩ := h
  obtain ⟨r, map', ref', heq, href', hr, href₁⟩ := href.remove buf
  dsimp only at hr href₁
  rw [(hmem buf c).mpr hbuf] at hr
  refine ⟨map', heq.trans (by rw [hr]; rfl), k, ref', href', fun key c' => ?_⟩
  rw [href₁, Multiset.mem_filter]
  by_cases hkey : key = buf
  · subst hkey
    rw [Finmap.lookup_erase]
    exact ⟨fun h => (Option.some_ne_none _ h.symm).elim, fun h => absurd rfl h.2⟩
  · rw [Finmap.lookup_erase_ne hkey, hmem]
    exact ⟨fun h => ⟨h, hkey⟩, fun h => h.1⟩

theorem contains_iff (h : map.Records m) (key : UInt64) (n : ℕ) :
    map.Contains key n ↔ ∃ c : SizeClass, (key, c) ∈ m ∧ n = c := by
  obtain ⟨k, ref, href, hmem⟩ := h
  rw [href.contains_iff]
  exact exists_congr fun c => and_congr_left fun _ => hmem key c

end BufSizeMap.Records

/-! ## What the calls keep -/

/-- The pools are sound, and the size map of a live engine holds what is outstanding from it. -/
structure BufferEngines.Sound (s : BufferEngines) (out : Outstanding) : Prop where
  world : s.world.Sound out
  maps : ∀ e, s.world.Live e → (s.maps e).Records (out e)

theorem BufferWorld.bufferPoolAlloc_size {w w' : BufferWorld} {t q size : ℕ} {a : Answers}
    {buf : UInt64} (hr : w.bufferPoolAlloc t q size a = (some buf, w')) :
    size ≤ BUFFER_POOL_MAX_SIZE := by
  unfold BufferWorld.bufferPoolAlloc at hr
  split_ifs at hr with hsize
  · cases hr
  · exact not_lt.mp fun hlt => hsize (.inr hlt)

namespace BufferEngines

variable {s s' : BufferEngines} {out : Outstanding} {t e : ℕ} {a : Answers} {buf : UInt64}
  {c : SizeClass}

theorem live_iff {w w' : BufferWorld} (h : BufferWorld.SameLife w w') (e : ℕ) :
    w'.Live e ↔ w.Live e := by
  unfold BufferWorld.Live
  rw [h.poolCount, h.destroyed]

/-- Only the map of one engine and what is outstanding from it change. -/
theorem Sound.put {world : BufferWorld} {map : BufSizeMap} {m : Multiset Buffer}
    (h : s.Sound out) (hw : world.Sound (Function.update out e m))
    (hlife : BufferWorld.SameLife s.world world) (hmap : map.Records m) :
    BufferEngines.Sound { world := world, maps := Function.update s.maps e map }
      (Function.update out e m) := by
  refine ⟨hw, fun e' he' => ?_⟩
  dsimp only
  by_cases hee : e' = e
  · rw [hee, Function.update_self, Function.update_self]
    exact hmap
  · rw [Function.update_of_ne hee, Function.update_of_ne hee]
    exact h.maps e' ((live_iff hlife e').mp he')

/-- **`aura_buffer_alloc`** completes. A buffer it returns is a block of its class, and is recorded;
if there is none, nothing is. -/
theorem Sound.auraBufferAlloc (h : s.Sound out) (hlive : s.world.Live e) (t size : ℕ)
    (a a' : Answers) (calloc : Bool) :
    ∃ r s', s.auraBufferAlloc t e size a a' calloc = some (r, s') ∧
      s'.Sound (out.allocated e size r) ∧
      ∀ buf ∈ r, (buf, classToSize (sizeToClass size)) ∈ s'.world.heap.blocks ∧
        size ≤ classToSize (sizeToClass size) ∧
        ∀ e' < s.world.poolCount, ∀ c, (buf, c) ∉ out e' := by
  unfold BufferEngines.auraBufferAlloc
  split_ifs with hsize
  · exact ⟨none, s, rfl, h, fun buf hbuf => (Option.not_mem_none _ hbuf).elim⟩
  cases halloc : s.world.bufferPoolAlloc t e size a with
  | mk r world =>
      obtain ⟨hw, hlife⟩ := h.world.bufferPoolAlloc hlive.1 halloc
      have he : e < world.poolCount := hlife.poolCount ▸ hlive.1
      cases r with
      | none =>
          refine ⟨none, { s with world }, rfl, ⟨hw, fun e' he' => ?_⟩,
            fun buf hbuf => (Option.not_mem_none _ hbuf).elim⟩
          exact h.maps e' ((live_iff hlife e').mp he')
      | some buf =>
          have hmem : (buf, sizeToClass size) ∈ out.allocated e size (some buf) e := by
            rw [Outstanding.allocated, Function.update_self]
            exact Multiset.mem_cons_self _ _
          have hnew : buf ∉ (out e).map Prod.fst := by
            have hnodup := hw.nodup_out he
            rw [Outstanding.allocated, Function.update_self, Multiset.map_cons,
              Multiset.nodup_cons] at hnodup
            exact hnodup.1
          obtain ⟨r, map, heq, hr⟩ := (h.maps e hlive).insert hnew (sizeToClass size) calloc
          dsimp only
          rw [heq]
          rcases hr with ⟨hr, hmap⟩ | ⟨hr, hmap⟩
          · refine ⟨some buf, _, by rw [Option.map_some, if_neg (not_not.mpr hr)]; rfl,
              h.put hw hlife hmap, fun buf' hbuf => ?_⟩
            cases hbuf
            refine ⟨hw.mem_heap he hmem, le_classToSize (BufferWorld.bufferPoolAlloc_size halloc),
              fun e' he' c hc => ?_⟩
            by_cases hee : e' = e
            · subst hee
              exact hnew (Multiset.mem_map_of_mem Prod.fst hc)
            · have hc' : (buf, c) ∈ out.allocated e size (some buf) e' := by
                rw [Outstanding.allocated, Function.update_of_ne hee]
                exact hc
              exact hw.not_outstanding he hmem (hlife.poolCount ▸ he') hee hc'
          · obtain ⟨hfree, hlife'⟩ := hw.bufferPoolFree (t := t) (a := a') he
              (Nat.pos_of_ne_zero hsize) hmem
            rw [Outstanding.freed, Outstanding.allocated, Function.update_self,
              Multiset.erase_cons_head, Function.update_idem] at hfree
            refine ⟨none, _, by rw [Option.map_some, if_pos hr], ?_,
              fun buf hbuf => (Option.not_mem_none _ hbuf).elim⟩
            have hput := h.put hfree (hlife.trans hlife') hmap
            rw [Function.update_eq_self] at hput
            exact hput

/-- **`aura_buffer_free`** of an outstanding buffer frees it under the class it was allocated
for. -/
theorem Sound.auraBufferFree (h : s.Sound out) (hlive : s.world.Live e) (hbuf : (buf, c) ∈ out e) :
    (s.auraBufferFree t e buf a).Sound
        (Function.update out e ((out e).filter fun b => b.1 ≠ buf)) ∧
      (s.auraBufferFree t e buf a).world = s.world.bufferPoolFree t e buf (classToSize c) a := by
  have hnonnull : buf ≠ 0 := by
    rintro rfl
    exact s.world.heap.nonnull
      (Multiset.mem_map_of_mem Prod.fst (h.world.mem_heap hlive.1 hbuf))
  obtain ⟨map, heq, hmap⟩ := (h.maps e hlive).remove hbuf
  have hfree : s.auraBufferFree t e buf a =
      { world := s.world.bufferPoolFree t e buf (classToSize c) a
        maps := Function.update s.maps e map } := by
    unfold BufferEngines.auraBufferFree
    rw [if_neg hnonnull, heq]
    dsimp only
    rw [if_neg (Int.not_lt.mpr (Int.natCast_nonneg _))]
    rfl
  have hmem : (buf, sizeToClass (classToSize c)) ∈ out e := by
    rw [sizeToClass_classToSize]
    exact hbuf
  obtain ⟨hw, hlife⟩ := h.world.bufferPoolFree (t := t) (a := a) hlive.1 (classToSize_pos c) hmem
  rw [hfree]
  refine ⟨h.put ?_ hlife hmap, rfl⟩
  obtain ⟨rest, hrest⟩ := Multiset.exists_cons_of_mem hbuf
  have hnodup := h.world.nodup_out hlive.1
  rw [hrest] at hnodup
  rw [Outstanding.freed, sizeToClass_classToSize] at hw
  rw [hrest, Heap.filter_cons hnodup]
  rw [hrest, Multiset.erase_cons_head] at hw
  exact hw

/-- A new engine has an empty map. -/
theorem Sound.create (h : s.Sound out) (cpus : ℤ) : (s.create cpus).Sound out := by
  refine ⟨h.world.init cpus, fun e he => ?_⟩
  obtain ⟨he, hdestroyed⟩ := he
  by_cases hee : e = s.world.poolCount
  · subst hee
    rw [h.world.fresh _ (le_refl _)]
    change (Function.update s.maps _ _ _).Records _
    rw [Function.update_self]
    exact .init
  · change (Function.update s.maps _ _ _).Records _
    rw [Function.update_of_ne hee]
    have hlt : e < s.world.poolCount := lt_of_le_of_ne (Nat.lt_succ_iff.mp he) hee
    refine h.maps e ⟨hlt, ?_⟩
    change (Function.update s.world.pools _ _ _).destroyed = false at hdestroyed
    rwa [Function.update_of_ne hee] at hdestroyed

theorem Sound.exitThread (h : s.Sound out) (t : ℕ) :
    BufferEngines.Sound { s with world := s.world.exitThread t } out := by
  obtain ⟨hw, hlife⟩ := h.world.exitThread t
  exact ⟨hw, fun e he => h.maps e ((live_iff hlife e).mp he)⟩

/-- The other engines keep their maps when one is destroyed. -/
theorem Sound.destroy (h : s.Sound out) (hlive : s.world.Live e) (t : ℕ) :
    (s.destroy t e).Sound out := by
  obtain ⟨hw, hd⟩ := h.world.bufferPoolDestroy hlive.1 t
  refine ⟨hw, fun e' he' => ?_⟩
  obtain ⟨he', hdestroyed⟩ := he'
  change e' < (s.world.bufferPoolDestroy t e).poolCount at he'
  change ((s.world.bufferPoolDestroy t e).pools e').destroyed = false at hdestroyed
  have hee : e' ≠ e := by
    rintro rfl
    exact Bool.false_ne_true (hdestroyed.symm.trans hd.destroyed)
  change (Function.update s.maps e _ e').Records _
  rw [Function.update_of_ne hee]
  rw [hd.others e' hee] at hdestroyed
  exact h.maps e' ⟨hd.poolCount ▸ he', hdestroyed⟩

end BufferEngines

/-- **Every valid operation completes**, and keeps the pools and the maps. -/
theorem EngineBufferOp.sound {op : EngineBufferOp} {s : BufferEngines × Outstanding}
    (h : s.1.Sound s.2) (hvalid : op.Valid s.1 s.2) :
    ∃ s', op.apply s = some s' ∧ s'.1.Sound s'.2 := by
  cases op with
  | create cpus => exact ⟨_, rfl, h.create cpus⟩
  | alloc t e size a a' calloc =>
      obtain ⟨r, s', heq, h', -⟩ := h.auraBufferAlloc hvalid t size a a' calloc
      refine ⟨(s', s.2.allocated e size r), ?_, h'⟩
      unfold EngineBufferOp.apply
      dsimp only
      rw [heq]
      rfl
  | free t e buf a =>
      obtain ⟨hlive, c, hbuf⟩ := hvalid
      exact ⟨_, rfl, (h.auraBufferFree hlive hbuf).1⟩
  | exit t => exact ⟨_, rfl, h.exitThread t⟩
  | destroy t e => exact ⟨_, rfl, h.destroy hvalid t⟩

theorem engineBufferSystem_sound {s : BufferEngines × Outstanding}
    (h : Reachable engineBufferSystem s) : s.1.Sound s.2 := by
  refine Reachable.invariant (I := fun s => s.1.Sound s.2) ?_ ?_ h
  · rintro s rfl
    exact ⟨poolSystem_sound (s := ({ pools := fun _ => {} }, fun _ => 0)) (.of_init rfl),
      fun e he => absurd he.1 (Nat.not_lt_zero e)⟩
  · rintro s op s' hs ⟨hvalid, heq⟩
    obtain ⟨s₁, heq₁, hs₁⟩ := EngineBufferOp.sound hs hvalid
    obtain rfl := Option.some.inj (heq.symm.trans heq₁)
    exact hs₁

/-- **Safety of the buffer pools.** In every reachable state: no address is outstanding twice; the
size map of a live engine holds exactly what is outstanding from it, with the classes; every valid
operation completes; an allocation from a live engine returns a block that was not outstanding, of
a class that is large enough; and a freed buffer is stored under its own class in its own pool, or
is stored nowhere and its block is returned to the heap. -/
theorem buffer_pool_safety {s : BufferEngines × Outstanding} (h : Reachable engineBufferSystem s) :
    ((∑ e ∈ Finset.range s.1.world.poolCount, s.2 e).map Prod.fst).Nodup ∧
      (∀ e, s.1.world.Live e → ∀ key n,
        (s.1.maps e).Contains key n ↔ ∃ c : SizeClass, (key, c) ∈ s.2 e ∧ n = c) ∧
      (∀ op : EngineBufferOp, op.Valid s.1 s.2 → ∃ s', op.apply s = some s') ∧
      (∀ t e size a a' calloc buf s', s.1.world.Live e →
        s.1.auraBufferAlloc t e size a a' calloc = some (some buf, s') →
        (buf, classToSize (sizeToClass size)) ∈ s'.world.heap.blocks ∧
          size ≤ classToSize (sizeToClass size) ∧
          ∀ e' < s.1.world.poolCount, ∀ c, (buf, c) ∉ s.2 e') ∧
      ∀ t e buf c a, s.1.world.Live e → (buf, c) ∈ s.2 e →
        (∀ q < s.1.world.poolCount, ∀ c',
          (buf, c') ∈ ((s.1.auraBufferFree t e buf a).world.pools q).stored → q = e ∧ c' = c) ∧
        ((buf, c) ∈ ((s.1.auraBufferFree t e buf a).world.pools e).stored ∨
          ∀ n, (buf, n) ∉ (s.1.auraBufferFree t e buf a).world.heap.blocks) := by
  have hs := engineBufferSystem_sound h
  refine ⟨?_, fun e he => (hs.maps e he).contains_iff, fun op hvalid => ?_,
    fun t e size a a' calloc buf s' hlive heq => ?_, fun t e buf c a hlive hbuf => ?_⟩
  · exact hs.world.nodup_all
  · obtain ⟨s', heq, -⟩ := EngineBufferOp.sound hs hvalid
    exact ⟨s', heq⟩
  · obtain ⟨r, s₁, heq₁, -, hspec⟩ := hs.auraBufferAlloc hlive t size a a' calloc
    obtain ⟨rfl, rfl⟩ := Prod.mk.inj (Option.some.inj (heq.symm.trans heq₁))
    exact hspec buf rfl
  · obtain ⟨hfree, hworld⟩ := hs.auraBufferFree (t := t) (a := a) hlive hbuf
    have hmem : (buf, sizeToClass (classToSize c)) ∈ s.2 e := by
      rw [sizeToClass_classToSize]
      exact hbuf
    have hclass {q : ℕ} (hq : q < s.1.world.poolCount) {c' : SizeClass}
        (hstored : (buf, c') ∈ ((s.1.auraBufferFree t e buf a).world.pools q).stored) :
        q = e ∧ c' = c := by
      rw [hworld] at hstored
      have h' := hs.world.freed_class hlive.1 (classToSize_pos c) hmem hq hstored
      rwa [sizeToClass_classToSize] at h'
    refine ⟨fun q hq c' => hclass hq, ?_⟩
    refine or_iff_not_imp_left.mpr fun hno n hn => ?_
    have hlife := (hs.world.bufferPoolFree (t := t) (a := a) hlive.1 (classToSize_pos c) hmem).2
    rw [hfree.world.heap] at hn
    obtain ⟨⟨buf', c'⟩, hb, hpair⟩ := Multiset.mem_map.mp hn
    obtain rfl : buf' = buf := (Prod.mk.inj hpair).1
    obtain ⟨q, hq, hb⟩ := Multiset.mem_sum.mp hb
    rw [hworld, Finset.mem_range, hlife.poolCount] at hq
    rcases Multiset.mem_add.mp hb with hb | hb
    · obtain ⟨rfl, rfl⟩ := hclass hq hb
      exact hno hb
    · by_cases hqe : q = e
      · subst hqe
        rw [Function.update_self, Multiset.mem_filter] at hb
        exact hb.2 rfl
      · rw [Function.update_of_ne hqe] at hb
        exact hs.world.not_outstanding hlive.1 hbuf hq hqe hb

/-- One engine, before any call. -/
def oneEngine : BufferEngines × Outstanding :=
  (BufferEngines.create { world := { pools := fun _ => {} }, maps := fun _ => bufSizeMapInit } 4,
    fun _ => 0)

theorem oneEngine_reachable : Reachable engineBufferSystem oneEngine := by
  have hinit : Reachable engineBufferSystem
      ({ world := { pools := fun _ => {} }, maps := fun _ => bufSizeMapInit }, fun _ => 0) :=
    .of_init rfl
  exact hinit.step (l := .create 4) ⟨trivial, rfl⟩

/-- The allocation of 5000 bytes by thread 0, when the heap has one block. -/
def allocOne : EngineBufferOp :=
  .alloc 0 0 5000 { offers := fun k => if k = 0 then some 4096 else none } {} true

/-- The size map holds the buffer with the class of 8192 bytes. -/
theorem buffer_pool_safety_one_buffer :
    ∃ s, allocOne.apply oneEngine = some s ∧ (s.1.maps 0).Contains 4096 1 := by
  have hlive : oneEngine.1.world.Live 0 := ⟨Nat.one_pos, rfl⟩
  obtain ⟨s, heq⟩ := (buffer_pool_safety oneEngine_reachable).2.2.1 allocOne hlive
  have hs : Reachable engineBufferSystem s := oneEngine_reachable.step (l := allocOne) ⟨hlive, heq⟩
  have hfacts : (allocOne.apply oneEngine).map (fun s => decide (s.1.world.poolCount = 1 ∧
      (s.1.world.pools 0).destroyed = false ∧ ((4096, 1) : Buffer) ∈ s.2 0)) = some true := by
    decide +kernel
  rw [heq] at hfacts
  obtain ⟨hcount, hlive', hmem⟩ := of_decide_eq_true (Option.some.inj hfacts)
  refine ⟨s, heq, ((buffer_pool_safety hs).2.1 0 ⟨?_, hlive'⟩ 4096 1).mpr ⟨1, hmem, rfl⟩⟩
  rw [hcount]
  exact Nat.one_pos

end Aura
