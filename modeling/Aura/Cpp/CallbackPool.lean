import Mathlib.Data.Finset.Basic
import Mathlib.Data.Int.Bitwise
import Aura.Lib.IndexList
import Aura.Lib.System

/-!
# The callback pool of the C++ bindings

`CallbackPool` of `callback_storage.hpp`: shards of callback contexts with a free list threaded
through them by indices of type `int`. The constructor takes the size of the shards, and an
exhausted shard grows. A stored callable is a number.

* `callbackPool_freeLists`: the free lists and the contexts in use, over every run from a size that
  the constructor handles and as long as no shard outgrows the index type.
* `callbackPool_freeLists_iff`: the sizes that the constructor and the growth handle.
-/

namespace Aura

open Lib

/-- `kShardCount`. -/
abbrev kShardCount : ℕ := 8
/-- `kCallbackInUse`. -/
abbrev kCallbackInUse : ℤ := -2

/-- `static_cast<int>` of a value of type `size_t`. -/
@[irreducible] def staticCastInt (n : ℕ) : ℤ := (n : ℤ).bmod (2 ^ 32)

/-- `CallbackContext`. -/
structure CallbackContext where
  callback : Option ℕ := none
  onComplete : Option ℕ := none
  engine : Option ℕ := none
  request : Option ℕ := none
  nextFree : ℤ := kCallbackInUse
  poolIndex : ℤ := -1
  shardIndex : ℤ := -1
deriving DecidableEq

/-- `CallbackPool::Shard`: a deque of `size` contexts. -/
structure Shard where
  contexts : ℕ → CallbackContext := fun _ => {}
  size : ℕ := 0
  freeHead : ℤ := -1

/-- The contexts of a shard, with one of them changed. -/
def Shard.setContext (shard : Shard) (i : ℕ) (ctx : CallbackContext) : Shard :=
  { shard with contexts := Function.update shard.contexts i ctx }

/-- `CallbackPool`. -/
structure CallbackPool where
  engine : Option ℕ
  shards : ℕ → Shard := fun _ => {}

/-- The address of a context: its shard and its place there. -/
abbrev ContextPtr := ℕ × ℕ

namespace CallbackPool

variable (pool : CallbackPool)

def setShard (shardIdx : ℕ) (shard : Shard) : CallbackPool :=
  { pool with shards := Function.update pool.shards shardIdx shard }

@[simp] theorem setShard_self (shardIdx : ℕ) (shard : Shard) :
    (pool.setShard shardIdx shard).shards shardIdx = shard := Function.update_self _ _ _

theorem setShard_of_ne {s shardIdx : ℕ} (h : s ≠ shardIdx) (shard : Shard) :
    (pool.setShard shardIdx shard).shards s = pool.shards s := Function.update_of_ne h _ _

/-- The loop of `init_shard` and `grow_shard` over `n` slots from `first` on: each slot points to
the next. -/
def initSlots (engine : Option ℕ) (shardIdx first : ℕ) (contexts : ℕ → CallbackContext) :
    ℕ → ℕ → CallbackContext
  | 0 => contexts
  | n + 1 =>
      let contexts := initSlots engine shardIdx first contexts n
      let i := first + n
      Function.update contexts i { contexts i with
        engine
        poolIndex := staticCastInt i
        shardIndex := staticCastInt shardIdx
        nextFree := staticCastInt (i + 1) }

/-- `init_shard`. -/
def initShard (shardIdx initialSize : ℕ) : CallbackPool :=
  let shard := pool.shards shardIdx
  if initialSize = 0 then pool.setShard shardIdx { shard with freeHead := -1 }
  else
    let contexts := initSlots pool.engine shardIdx 0 shard.contexts initialSize
    let last := initialSize - 1
    pool.setShard shardIdx {
      contexts := Function.update contexts last { contexts last with nextFree := -1 }
      size := initialSize
      freeHead := 0 }

/-- The constructor. -/
def init (engine : Option ℕ) (initialSizePerShard : ℕ) : CallbackPool :=
  (List.range kShardCount).foldl (fun pool s => pool.initShard s initialSizePerShard) { engine }

/-- `grow_shard`. -/
def growShard (shardIdx : ℕ) : ContextPtr × CallbackPool :=
  let shard := pool.shards shardIdx
  let oldSize := shard.size
  let newSize := if oldSize = 0 then 16 else oldSize * 2
  let contexts := initSlots pool.engine shardIdx oldSize shard.contexts (newSize - oldSize)
  let last := newSize - 1
  let contexts := Function.update contexts last { contexts last with nextFree := -1 }
  ((shardIdx, oldSize), pool.setShard shardIdx {
    contexts := Function.update contexts oldSize
      { contexts oldSize with nextFree := kCallbackInUse }
    size := newSize
    freeHead := staticCastInt (oldSize + 1) })

/-- `allocate`, by a thread whose `get_shard_index` is `shardIdx`. -/
def allocate (shardIdx : ℕ) : ContextPtr × CallbackPool :=
  let shard := pool.shards shardIdx
  if shard.freeHead ≥ 0 then
    let idx := shard.freeHead.toNat
    let ctx := shard.contexts idx
    ((shardIdx, idx), pool.setShard shardIdx
      (({ shard with freeHead := ctx.nextFree } : Shard).setContext idx
        { ctx with nextFree := kCallbackInUse }))
  else pool.growShard shardIdx

/-- `release`. The stored index finds the shard, and `ctx` the context. -/
def release (ctx : Option ContextPtr) : CallbackPool :=
  match ctx with
  | none => pool
  | some (s, i) =>
      let context := (pool.shards s).contexts i
      if context.shardIndex < 0 then pool
      else
        let shardIdx := context.shardIndex.toNat
        let shard := pool.shards shardIdx
        if context.nextFree ≠ kCallbackInUse then pool
        else
          let pool := pool.setShard s ((pool.shards s).setContext i { context with
            callback := none
            onComplete := none
            request := none
            nextFree := shard.freeHead })
          pool.setShard shardIdx { pool.shards shardIdx with freeHead := context.poolIndex }

end CallbackPool

/-! ## Runs -/

/-- A call of some thread. -/
inductive CallbackPoolOp
  | allocate (shardIdx : ℕ)
  | release (ctx : Option ContextPtr)

/-- The pool, with the contexts that were handed out and not released since. -/
abbrev PoolState := CallbackPool × Finset ContextPtr

/-- The shard index is one of the shards, and a released context is one in the storage: it was
handed out once, maybe long ago. -/
def CallbackPoolOp.Valid (op : CallbackPoolOp) (s : PoolState) : Prop :=
  match op with
  | .allocate shardIdx => shardIdx < kShardCount
  | .release none => True
  | .release (some p) => p.1 < kShardCount ∧ p.2 < (s.1.shards p.1).size

def CallbackPoolOp.apply (op : CallbackPoolOp) (s : PoolState) : PoolState :=
  match op with
  | .allocate shardIdx =>
      let r := s.1.allocate shardIdx
      (r.2, insert r.1 s.2)
  | .release ctx => (s.1.release ctx, ctx.elim s.2 s.2.erase)

/-- A pool from its constructor on. -/
def callbackPoolSystem (engine : Option ℕ) (initialSizePerShard : ℕ) :
    System PoolState CallbackPoolOp where
  init s := s = (CallbackPool.init engine initialSizePerShard, ∅)
  step s op s' := op.Valid s ∧ s' = op.apply s

/-! ## The property -/

/-- The links of a shard. -/
def Shard.next (shard : Shard) (i : ℕ) : ℤ := (shard.contexts i).nextFree

/-- The free list of a shard is a finite chain of indices in range, without a repetition and ending
in -1, of exactly the contexts that are not in use. -/
def Shard.FreeList (shard : Shard) (inUse : ℕ → Prop) : Prop :=
  ∃ l, Linked shard.next shard.freeHead l ∧ l.Nodup ∧ (∀ i ∈ l, i < shard.size) ∧
    ∀ i < shard.size, i ∈ l ↔ ¬ inUse i

/-- Every free list is right, and an allocation returns a context inside the storage of its shard
that is not in use. -/
def PoolState.Safe (s : PoolState) : Prop :=
  ∀ k < kShardCount, (s.1.shards k).FreeList (fun i => (k, i) ∈ s.2) ∧
    (s.1.allocate k).1.1 = k ∧
    (s.1.allocate k).1.2 < ((s.1.allocate k).2.shards k).size ∧
    (s.1.allocate k).1 ∉ s.2

/-- The indices of a shard are values of type `int` when it grows. -/
def GrowthFits (s : PoolState) (op : CallbackPoolOp) : Prop :=
  match op with
  | .allocate shardIdx => (s.1.shards shardIdx).freeHead < 0 →
      (s.1.shards shardIdx).size * 2 ≤ 2 ^ 31
  | .release _ => True

/-! ## The slots after a loop -/

theorem staticCastInt_eq {n : ℕ} (h : n < 2 ^ 31) : staticCastInt n = n := by
  unfold staticCastInt
  rw [Int.bmod_def]
  omega

namespace CallbackPool

/-- A slot on the free list, linked to the one after it. -/
def freshSlot (engine : Option ℕ) (shardIdx i : ℕ) (ctx : CallbackContext) : CallbackContext :=
  { ctx with
    engine
    poolIndex := staticCastInt i
    shardIndex := staticCastInt shardIdx
    nextFree := staticCastInt (i + 1) }

theorem initSlots_apply (engine : Option ℕ) (shardIdx first : ℕ) (contexts : ℕ → CallbackContext)
    (n i : ℕ) : initSlots engine shardIdx first contexts n i =
      if first ≤ i ∧ i < first + n then freshSlot engine shardIdx i (contexts i)
      else contexts i := by
  induction n with
  | zero => rw [if_neg (by omega), initSlots]
  | succ n ih =>
      rw [initSlots]
      by_cases hi : i = first + n
      · subst hi
        rw [Function.update_self, ih, if_neg (by omega), if_pos (by omega)]
        rfl
      · rw [Function.update_of_ne hi, ih]
        by_cases hlt : first ≤ i ∧ i < first + n
        · rw [if_pos hlt, if_pos (by omega)]
        · rw [if_neg hlt, if_neg (by omega)]

end CallbackPool

/-! ## What every call keeps -/

/-- A shard whose free list is right, whose contexts know where they are, and whose indices fit in
an `int`. A shard with one context cannot grow. -/
structure Shard.Good (k : ℕ) (shard : Shard) (inUse : ℕ → Prop) : Prop where
  freeList : shard.FreeList inUse
  place : ∀ i < shard.size, (shard.contexts i).poolIndex = i ∧ (shard.contexts i).shardIndex = k
  mark : ∀ i < shard.size, inUse i ↔ shard.next i = kCallbackInUse
  bounded : ∀ i, inUse i → i < shard.size
  ne_one : shard.size ≠ 1
  fits : shard.size ≤ 2 ^ 31

namespace Shard.Good

variable {k : ℕ} {shard : Shard} {inUse u : ℕ → Prop}

/-- The head of the free list is taken. -/
theorem pop (h : shard.Good k inUse) {i : ℕ} (hi : shard.freeHead = i)
    (huse : ∀ j, u j ↔ j = i ∨ inUse j) :
    i < shard.size ∧ ¬ inUse i ∧
      Shard.Good k (({ shard with freeHead := shard.next i } : Shard).setContext i
        { shard.contexts i with nextFree := kCallbackInUse }) u := by
  obtain ⟨l, hlinked, hnodup, hrange, hmem⟩ := h.freeList
  rw [hi] at hlinked
  obtain ⟨l', rfl, hlinked'⟩ := hlinked.pop hnodup kCallbackInUse
  obtain ⟨hnot, hnodup'⟩ := List.nodup_cons.mp hnodup
  have hlt := hrange i List.mem_cons_self
  have hfree := (hmem i hlt).mp List.mem_cons_self
  have hctx (j : ℕ) : (Function.update shard.contexts i
      { shard.contexts i with nextFree := kCallbackInUse } j).nextFree =
        Function.update shard.next i kCallbackInUse j := by
    by_cases hj : j = i
    · rw [hj, Function.update_self, Function.update_self]
    · rw [Function.update_of_ne hj, Function.update_of_ne hj, Shard.next]
  refine ⟨hlt, hfree, ⟨l', hlinked'.congr fun j _ => hctx j, hnodup', fun j hj =>
    hrange j (List.mem_cons_of_mem i hj), fun j hj => ?_⟩, fun j hj => ?_, fun j hj => ?_,
    fun j hj => ?_, h.ne_one, h.fits⟩
  · rw [huse]
    have hj' := hmem j hj
    rw [List.mem_cons] at hj'
    constructor
    · intro hjl
      rintro (rfl | hin)
      · exact hnot hjl
      · exact hj'.mp (.inr hjl) hin
    · intro hno
      exact (hj'.mpr fun hin => hno (.inr hin)).resolve_left fun heq => hno (.inl heq)
  · change (Function.update shard.contexts i _ j).poolIndex = _ ∧
      (Function.update shard.contexts i _ j).shardIndex = _
    by_cases hji : j = i
    · rw [hji, Function.update_self]
      exact h.place i hlt
    · rw [Function.update_of_ne hji]
      exact h.place j hj
  · rw [huse]
    change _ ↔ (Function.update shard.contexts i _ j).nextFree = _
    rw [hctx]
    by_cases hji : j = i
    · rw [hji, Function.update_self]
      simp
    · rw [Function.update_of_ne hji, ← h.mark j hj]
      simp [hji]
  · rcases (huse j).mp hj with rfl | hj
    · exact hlt
    · exact h.bounded j hj

/-- A context in use is put back at the head. -/
theorem push (h : shard.Good k inUse) {i : ℕ} (hi : inUse i)
    (huse : ∀ j, u j ↔ inUse j ∧ j ≠ i) :
    Shard.Good k { (shard.setContext i { shard.contexts i with
      callback := none
      onComplete := none
      request := none
      nextFree := shard.freeHead }) with freeHead := (shard.contexts i).poolIndex } u := by
  obtain ⟨l, hlinked, hnodup, hrange, hmem⟩ := h.freeList
  have hlt := h.bounded i hi
  have hnot : i ∉ l := fun hil => (hmem i hlt).mp hil hi
  have hlive : (shard.freeHead : ℤ) ≠ kCallbackInUse := by
    cases l with
    | nil =>
        rw [show shard.freeHead = -1 from hlinked]
        decide
    | cons j l =>
        rw [hlinked.1]
        unfold kCallbackInUse
        omega
  have hctx (j : ℕ) : (Function.update shard.contexts i { shard.contexts i with
      callback := none
      onComplete := none
      request := none
      nextFree := shard.freeHead } j).nextFree = Function.update shard.next i shard.freeHead j := by
    by_cases hj : j = i
    · rw [hj, Function.update_self, Function.update_self]
    · rw [Function.update_of_ne hj, Function.update_of_ne hj, Shard.next]
  refine ⟨⟨i :: l, ?_, List.nodup_cons.mpr ⟨hnot, hnodup⟩, fun j hj => ?_, fun j hj => ?_⟩,
    fun j hj => ?_, fun j hj => ?_, fun j hj => h.bounded j ((huse j).mp hj).1, h.ne_one, h.fits⟩
  · change Linked _ (shard.contexts i).poolIndex _
    rw [(h.place i hlt).1]
    exact (hlinked.push hnot).congr fun j _ => hctx j
  · rcases List.mem_cons.mp hj with rfl | hj
    · exact hlt
    · exact hrange j hj
  · rw [huse, List.mem_cons, hmem j hj]
    tauto
  · change (Function.update shard.contexts i _ j).poolIndex = _ ∧
      (Function.update shard.contexts i _ j).shardIndex = _
    by_cases hji : j = i
    · rw [hji, Function.update_self]
      exact h.place i hlt
    · rw [Function.update_of_ne hji]
      exact h.place j hj
  · rw [huse]
    change _ ↔ (Function.update shard.contexts i _ j).nextFree = _
    rw [hctx]
    by_cases hji : j = i
    · rw [hji, Function.update_self]
      simp [hlive]
    · rw [Function.update_of_ne hji, ← h.mark j hj]
      simp [hji]

end Shard.Good

/-- The slots of a loop once the last one marks the end of the list. -/
theorem CallbackPool.slots_apply (engine : Option ℕ) (shardIdx first : ℕ)
    (contexts : ℕ → CallbackContext) {n : ℕ} (hn : 0 < n) (i : ℕ) :
    Function.update (initSlots engine shardIdx first contexts n) (first + n - 1)
        { initSlots engine shardIdx first contexts n (first + n - 1) with nextFree := -1 } i =
      if first ≤ i ∧ i < first + n then
        { freshSlot engine shardIdx i (contexts i) with
          nextFree := if i + 1 = first + n then -1 else staticCastInt (i + 1) }
      else contexts i := by
  by_cases hi : i = first + n - 1
  · have hin : first ≤ first + n - 1 ∧ first + n - 1 < first + n := by omega
    have hlast : first + n - 1 + 1 = first + n := by omega
    subst hi
    rw [Function.update_self, initSlots_apply, if_pos hin, if_pos hin, if_pos hlast]
  · rw [Function.update_of_ne hi, initSlots_apply]
    by_cases hin : first ≤ i ∧ i < first + n
    · have hlast : i + 1 ≠ first + n := by omega
      rw [if_pos hin, if_pos hin, if_neg hlast, freshSlot]
    · rw [if_neg hin, if_neg hin]

/-- The contexts of a new shard. -/
theorem CallbackPool.initShard_slots {p : CallbackPool} {k n : ℕ} (hnew : p.shards k = {})
    (hn : 0 < n) :
    ((p.initShard k n).shards k).size = n ∧ ((p.initShard k n).shards k).freeHead = 0 ∧
      ∀ i < n, ((p.initShard k n).shards k).contexts i =
        { freshSlot p.engine k i {} with
          nextFree := if i + 1 = n then -1 else staticCastInt (i + 1) } := by
  unfold initShard
  rw [if_neg (ne_of_gt hn)]
  dsimp only
  rw [setShard_self, hnew]
  refine ⟨rfl, rfl, fun i hi => ?_⟩
  have hslot := slots_apply p.engine k 0 (fun _ => {}) hn i
  rw [Nat.zero_add, if_pos ⟨Nat.zero_le i, hi⟩] at hslot
  exact hslot

namespace Shard.Good

variable {k : ℕ} {shard : Shard} {inUse u : ℕ → Prop}

/-- A shard whose contexts are in use up to `f` and linked from there on. -/
theorem of_links {f : ℕ} (hfirst : f < shard.size) (hhead : shard.freeHead = f)
    (hnext : ∀ i, f ≤ i → i < shard.size →
      shard.next i = if i + 1 = shard.size then -1 else (i : ℤ) + 1)
    (hmark : ∀ i < f, shard.next i = kCallbackInUse) (huse : ∀ i, inUse i ↔ i < f)
    (hplace : ∀ i < shard.size,
      (shard.contexts i).poolIndex = i ∧ (shard.contexts i).shardIndex = k)
    (hne : shard.size ≠ 1) (hfits : shard.size ≤ 2 ^ 31) : shard.Good k inUse := by
  have hlinked : Linked shard.next f (List.range' f (shard.size - 1 - f + 1)) := by
    refine Linked.range f (shard.size - 1 - f) (fun i hi hlt => ?_) ?_
    · rw [hnext i hi (by omega), if_neg (by omega)]
    · rw [hnext _ (by omega) (by omega), if_pos (by omega)]
  refine ⟨⟨_, hhead ▸ hlinked, List.nodup_range', fun i hi => ?_, fun i hi => ?_⟩, hplace,
    fun i hi => ?_, fun i hi => ?_, hne, hfits⟩
  · rw [List.mem_range'_1] at hi
    omega
  · rw [List.mem_range'_1, huse]
    omega
  · rw [huse]
    constructor
    · exact hmark i
    · intro hmarked
      by_contra hge
      rw [hnext i (by omega) hi] at hmarked
      unfold kCallbackInUse at hmarked
      split_ifs at hmarked <;> omega
  · have hlt := (huse i).mp hi
    omega

/-- A new shard is one free list. -/
theorem init {p : CallbackPool} (hnew : p.shards k = {}) (hk : k < kShardCount) {n : ℕ}
    (hn : n ≠ 1) (hfits : n ≤ 2 ^ 31) :
    Shard.Good k ((p.initShard k n).shards k) fun _ => False := by
  by_cases hzero : n = 0
  · unfold CallbackPool.initShard
    rw [if_pos hzero, CallbackPool.setShard_self, hnew]
    exact ⟨⟨[], rfl, List.nodup_nil, fun i hi => absurd hi List.not_mem_nil,
      fun i hi => absurd hi (Nat.not_lt_zero i)⟩, fun i hi => absurd hi (Nat.not_lt_zero i),
      fun i hi => absurd hi (Nat.not_lt_zero i), fun i hi => hi.elim, Nat.zero_ne_one,
      Nat.zero_le _⟩
  · have hpos := Nat.pos_of_ne_zero hzero
    obtain ⟨hsize, hhead, hslot⟩ := CallbackPool.initShard_slots hnew hpos
    refine of_links (f := 0) (by rw [hsize]; exact hpos) hhead (fun i _ hi => ?_)
      (fun i hi => absurd hi (Nat.not_lt_zero i)) (fun i => ?_) (fun i hi => ?_)
      (by rw [hsize]; exact hn) (by rw [hsize]; exact hfits)
    · rw [hsize] at hi ⊢
      rw [Shard.next, hslot i hi]
      dsimp only
      split_ifs with hlast
      · rfl
      · exact_mod_cast staticCastInt_eq (n := i + 1) (by omega)
    · exact ⟨fun h => h.elim, fun h => absurd h (Nat.not_lt_zero i)⟩
    · rw [hsize] at hi
      rw [hslot i hi]
      change staticCastInt i = i ∧ staticCastInt k = k
      unfold kShardCount at hk
      exact ⟨staticCastInt_eq (by omega), staticCastInt_eq (by omega)⟩

/-- An exhausted shard grows: its first new context is in use and the others are free. -/
theorem grow {pool : CallbackPool} (h : (pool.shards k).Good k inUse) (hk : k < kShardCount)
    (hempty : (pool.shards k).freeHead < 0) (hfits : (pool.shards k).size * 2 ≤ 2 ^ 31)
    (huse : ∀ j, u j ↔ j = (pool.shards k).size ∨ inUse j) :
    ((pool.growShard k).2.shards k).Good k u := by
  obtain ⟨l, hlinked, -, -, hmem⟩ := h.freeList
  obtain rfl := hlinked.eq_nil hempty
  have hall (i : ℕ) (hi : i < (pool.shards k).size) : inUse i :=
    not_not.mp fun hno => List.not_mem_nil ((hmem i hi).mpr hno)
  have hsize := h.ne_one
  unfold CallbackPool.growShard
  dsimp only
  rw [CallbackPool.setShard_self]
  set old := (pool.shards k).size with hold
  set n := if old = 0 then 16 else old * 2 with hn
  have hnew : old + 2 ≤ n ∧ n ≤ 2 ^ 31 ∧ n ≠ 1 := by
    rw [hn]
    split_ifs <;> omega
  have hslot := CallbackPool.slots_apply pool.engine k old (pool.shards k).contexts
    (n := n - old) (by omega)
  rw [show old + (n - old) = n by omega] at hslot
  have hnext (i : ℕ) (hi : i ≠ old) : Shard.next {
      contexts := Function.update (Function.update
        (CallbackPool.initSlots pool.engine k old (pool.shards k).contexts (n - old)) (n - 1)
        { CallbackPool.initSlots pool.engine k old (pool.shards k).contexts (n - old) (n - 1) with
          nextFree := -1 }) old
        { Function.update
          (CallbackPool.initSlots pool.engine k old (pool.shards k).contexts (n - old)) (n - 1)
          { CallbackPool.initSlots pool.engine k old (pool.shards k).contexts (n - old) (n - 1) with
            nextFree := -1 } old with nextFree := kCallbackInUse }
      size := n
      freeHead := staticCastInt (old + 1) } i =
      (if old ≤ i ∧ i < n then
        { CallbackPool.freshSlot pool.engine k i ((pool.shards k).contexts i) with
          nextFree := if i + 1 = n then -1 else staticCastInt (i + 1) }
      else (pool.shards k).contexts i).nextFree := by
    rw [Shard.next]
    dsimp only
    rw [Function.update_of_ne hi, hslot]
  have hhead : staticCastInt (old + 1) = (old + 1 : ℕ) := staticCastInt_eq (by omega)
  refine of_links (f := old + 1) (Nat.lt_of_succ_le hnew.1) hhead (fun i hi hlt => ?_)
    (fun i hi => ?_) (fun i => ?_) (fun i hi => ?_) hnew.2.2 hnew.2.1
  · change i < n at hlt
    rw [hnext i (by omega), if_pos (by omega)]
    dsimp only
    split_ifs with hlast
    · rfl
    · exact_mod_cast staticCastInt_eq (n := i + 1) (by omega)
  · by_cases hi' : i = old
    · rw [Shard.next, hi']
      dsimp only
      rw [Function.update_self]
    · have hlt : i < old := by omega
      rw [hnext i hi', if_neg (by omega)]
      exact (h.mark i hlt).mp (hall i hlt)
  · rw [huse]
    constructor
    · rintro (rfl | hin)
      · exact Nat.lt_succ_self _
      · exact Nat.lt_succ_of_lt (h.bounded i hin)
    · intro hlt
      rcases Nat.lt_succ_iff_lt_or_eq.mp hlt with hlt | heq
      · exact .inr (hall i hlt)
      · exact .inl heq
  · change i < n at hi
    dsimp only
    have hcast : staticCastInt i = i ∧ staticCastInt k = k := by
      unfold kShardCount at hk
      exact ⟨staticCastInt_eq (by omega), staticCastInt_eq (by omega)⟩
    by_cases hio : i = old
    · rw [hio] at hcast ⊢
      rw [Function.update_self, hslot, if_pos (by omega)]
      exact hcast
    · rw [Function.update_of_ne hio, hslot]
      by_cases hin : old ≤ i ∧ i < n
      · rw [if_pos hin]
        exact hcast
      · have hlt : i < old := not_le.mp fun hge => hin ⟨hge, hi⟩
        rw [if_neg hin]
        exact h.place i hlt

end Shard.Good

/-! ## Every call -/

namespace CallbackPool

variable {pool : CallbackPool} {k : ℕ}

/-- The pool and the contexts in use fit together in every shard. -/
def Good (s : PoolState) : Prop :=
  ∀ k < kShardCount, (s.1.shards k).Good k fun i => (k, i) ∈ s.2

theorem initShard_of_ne {s : ℕ} (hs : s ≠ k) (n : ℕ) :
    (pool.initShard k n).shards s = pool.shards s := by
  unfold initShard
  split_ifs <;> exact setShard_of_ne _ hs _

theorem initShard_engine (n : ℕ) : (pool.initShard k n).engine = pool.engine := by
  unfold initShard
  split_ifs <;> rfl

/-- A new shard depends on nothing but the engine. -/
theorem initShard_congr {pool' : CallbackPool} (hengine : pool.engine = pool'.engine)
    (hshard : pool.shards k = pool'.shards k) (n : ℕ) :
    (pool.initShard k n).shards k = (pool'.initShard k n).shards k := by
  unfold initShard
  rw [hengine, hshard]
  split_ifs <;> rw [setShard_self, setShard_self]

/-- The constructor makes every shard in the same way. -/
theorem init_shards (engine : Option ℕ) (n : ℕ) (hk : k < kShardCount) :
    (init engine n).shards k = (initShard { engine } k n).shards k := by
  have hinits (m : ℕ) : ((List.range m).foldl (fun pool s => pool.initShard s n)
      ({ engine } : CallbackPool)).engine = engine ∧
      ∀ k, ((List.range m).foldl (fun pool s => pool.initShard s n)
        ({ engine } : CallbackPool)).shards k =
          if k < m then (initShard { engine } k n).shards k else {} := by
    induction m with
    | zero => exact ⟨rfl, fun k => (if_neg (Nat.not_lt_zero k)).symm⟩
    | succ m ih =>
        obtain ⟨hengine, hshards⟩ := ih
        rw [List.range_succ, List.foldl_append, List.foldl_cons, List.foldl_nil]
        refine ⟨(initShard_engine n).trans hengine, fun k => ?_⟩
        by_cases hkm : k = m
        · subst hkm
          rw [if_pos (Nat.lt_succ_self k)]
          refine initShard_congr hengine ?_ n
          rw [hshards, if_neg (Nat.lt_irrefl k)]
        · rw [initShard_of_ne hkm, hshards]
          exact if_congr (by omega) rfl rfl
  have hall := (hinits kShardCount).2 k
  rw [if_pos hk] at hall
  exact hall

/-- The constructor makes every shard one free list. -/
theorem good_init (engine : Option ℕ) {n : ℕ} (hn : n ≠ 1) (hfits : n ≤ 2 ^ 31) :
    Good (init engine n, ∅) := by
  intro k hk
  dsimp only
  rw [init_shards engine n hk]
  have hgood := Shard.Good.init (p := { engine }) (k := k) rfl hk hn hfits
  simp only [Finset.notMem_empty]
  exact hgood

theorem allocate_of_ne {s : ℕ} (hs : s ≠ k) :
    (pool.allocate k).2.shards s = pool.shards s := by
  unfold allocate growShard
  dsimp only
  split_ifs <;> exact setShard_of_ne _ hs _

/-- **An allocation** returns a context inside its shard that was not in use. -/
theorem Good.allocate {s : PoolState} (h : Good s) (hk : k < kShardCount)
    (hfits : (s.1.shards k).freeHead < 0 → (s.1.shards k).size * 2 ≤ 2 ^ 31) :
    Good ((CallbackPoolOp.allocate k).apply s) ∧ (s.1.allocate k).1.1 = k ∧
      (s.1.allocate k).1.2 < ((s.1.allocate k).2.shards k).size ∧ (s.1.allocate k).1 ∉ s.2 := by
  have hgood := h k hk
  have hstep : (s.1.allocate k).1.1 = k ∧
      ((s.1.allocate k).2.shards k).Good k (fun i => (k, i) ∈ insert (s.1.allocate k).1 s.2) ∧
      (s.1.allocate k).1.2 < ((s.1.allocate k).2.shards k).size ∧
      (s.1.allocate k).1 ∉ s.2 := by
    unfold CallbackPool.allocate
    dsimp only
    split_ifs with hhead
    · obtain ⟨i, hi⟩ := Int.eq_ofNat_of_zero_le hhead
      dsimp only
      rw [setShard_self, hi, Int.toNat_natCast]
      obtain ⟨hlt, hfree, hgood'⟩ := hgood.pop hi
        (u := fun j => (k, j) ∈ insert (k, i) s.2) fun j => by
          rw [Finset.mem_insert, Prod.mk.injEq, and_iff_right rfl]
      exact ⟨rfl, hgood', hlt, hfree⟩
    · have hneg := not_le.mp hhead
      have hgrow := hgood.grow (u := fun j => (k, j) ∈ insert (k, (s.1.shards k).size) s.2)
        hk hneg (hfits hneg) fun j => by
          rw [Finset.mem_insert, Prod.mk.injEq, and_iff_right rfl]
      refine ⟨rfl, hgrow, hgrow.bounded _ (Finset.mem_insert_self _ _), fun hin => ?_⟩
      exact Nat.lt_irrefl _ (hgood.bounded _ hin)
  obtain ⟨hfst, hown, hlt, hnot⟩ := hstep
  refine ⟨fun k' hk' => ?_, hfst, hlt, hnot⟩
  by_cases hkk : k' = k
  · subst hkk
    exact hown
  · change ((s.1.allocate k).2.shards k').Good k' fun i => (k', i) ∈ insert (s.1.allocate k).1 s.2
    rw [allocate_of_ne hkk]
    have hother := h k' hk'
    have huse : (fun i => (k', i) ∈ insert (s.1.allocate k).1 s.2) = fun i => (k', i) ∈ s.2 := by
      funext i
      rw [Finset.mem_insert, eq_iff_iff]
      refine or_iff_right fun heq => hkk ?_
      rw [← hfst, ← heq]
    rw [huse]
    exact hother

/-- **A release** takes its context out of use; one that is not in use stays as it is. -/
theorem Good.release {s : PoolState} (h : Good s) {ctx : Option ContextPtr}
    (hvalid : (CallbackPoolOp.release ctx).Valid s) :
    Good ((CallbackPoolOp.release ctx).apply s) := by
  cases ctx with
  | none => exact h
  | some p =>
      obtain ⟨k, i⟩ := p
      obtain ⟨hk, hi⟩ := hvalid
      have hgood := h k hk
      have hshard := (hgood.place i hi).2
      have hmark := hgood.mark i hi
      unfold Shard.next at hmark
      have hnonneg : ¬ ((s.1.shards k).contexts i).shardIndex < 0 := by
        rw [hshard]
        omega
      have hindex : ((s.1.shards k).contexts i).shardIndex.toNat = k := by
        rw [hshard]
        exact Int.toNat_natCast k
      change Good (s.1.release (some (k, i)), s.2.erase (k, i))
      unfold CallbackPool.release
      dsimp only
      rw [if_neg hnonneg, hindex, setShard_self]
      by_cases hin : (k, i) ∈ s.2
      · rw [if_neg (not_not.mpr (hmark.mp hin))]
        intro k' hk'
        by_cases hkk : k' = k
        · subst hkk
          dsimp only
          rw [setShard_self]
          exact hgood.push (i := i) hin fun j => by
            rw [Finset.mem_erase, ne_eq, Prod.mk.injEq, and_iff_right rfl, and_comm]
        · dsimp only
          rw [setShard_of_ne _ hkk, setShard_of_ne _ hkk]
          have huse : (fun j => (k', j) ∈ s.2.erase (k, i)) = fun j => (k', j) ∈ s.2 := by
            funext j
            rw [Finset.mem_erase, eq_iff_iff]
            exact and_iff_right fun heq => hkk (Prod.mk.inj heq).1
          rw [huse]
          exact h k' hk'
      · rw [if_pos fun hmarked => hin (hmark.mpr hmarked), Finset.erase_eq_of_notMem hin]
        exact h

/-- What callers rely on holds where the pool is good, whether or not the next growth fits. -/
theorem Good.safe {s : PoolState} (h : Good s) : s.Safe := by
  intro k hk
  have hgood := h k hk
  refine ⟨hgood.freeList, ?_⟩
  by_cases hhead : (s.1.shards k).freeHead < 0
  · unfold CallbackPool.allocate
    rw [if_neg (by omega)]
    have hgrow : (s.1.growShard k).1 = (k, (s.1.shards k).size) := rfl
    have hsize : ((s.1.growShard k).2.shards k).size =
        if (s.1.shards k).size = 0 then 16 else (s.1.shards k).size * 2 := by
      unfold CallbackPool.growShard
      dsimp only
      rw [setShard_self]
    rw [hgrow, hsize]
    refine ⟨rfl, ?_, fun hin => Nat.lt_irrefl _ (hgood.bounded _ hin)⟩
    dsimp only
    split_ifs <;> omega
  · exact (h.allocate hk fun hneg => absurd hneg hhead).2

/-- A call keeps the pool good. -/
theorem Good.step {s : PoolState} (h : Good s) {op : CallbackPoolOp} (hfits : GrowthFits s op)
    (hvalid : op.Valid s) : Good (op.apply s) := by
  cases op with
  | allocate k => exact (h.allocate hvalid hfits).1
  | release ctx => exact h.release hvalid

end CallbackPool

/-! ## The result -/

/-- From a size that the constructor handles, the free lists are right in every run in which no
shard outgrows the index type. -/
theorem callbackPool_freeLists {engine : Option ℕ} {n : ℕ} (hn : n ≠ 1) (hfits : n ≤ 2 ^ 31)
    {s : PoolState} (h : Reachable ((callbackPoolSystem engine n).restrict GrowthFits) s) :
    CallbackPool.Good s := by
  refine Reachable.invariant (I := CallbackPool.Good) ?_ ?_ h
  · rintro s rfl
    exact CallbackPool.good_init engine hn hfits
  · rintro s op s' hs ⟨hgrow, hvalid, rfl⟩
    exact hs.step hgrow hvalid

/-- A shard with one context, after two allocations: the head of the free list is behind the last
context. -/
theorem grownFromOne (engine : Option ℕ) :
    ∃ s, Reachable ((callbackPoolSystem engine 1).restrict GrowthFits) s ∧
      (s.1.shards 0).freeHead = 2 ∧ (s.1.shards 0).size = 2 := by
  have hnew := CallbackPool.init_shards engine 1 (k := 0) (by decide)
  obtain ⟨hsize, hhead, hslot⟩ :=
    CallbackPool.initShard_slots (p := { engine }) (k := 0) (n := 1) rfl Nat.one_pos
  rw [← hnew] at hsize hhead hslot
  set s₀ : PoolState := (CallbackPool.init engine 1, ∅) with hs₀
  have hsteps (s : PoolState) (h : Reachable ((callbackPoolSystem engine 1).restrict GrowthFits) s)
      (hfits : (s.1.shards 0).size * 2 ≤ 2 ^ 31) :
      Reachable ((callbackPoolSystem engine 1).restrict GrowthFits)
        ((CallbackPoolOp.allocate 0).apply s) :=
    h.step (l := .allocate 0) ⟨fun _ => hfits, (by decide : 0 < kShardCount), rfl⟩
  have h₀ : Reachable ((callbackPoolSystem engine 1).restrict GrowthFits) s₀ := .of_init rfl
  have h₁ := hsteps s₀ h₀ (by rw [hsize]; decide)
  have hshard₁ : (((CallbackPoolOp.allocate 0).apply s₀).1.shards 0).freeHead = -1 ∧
      (((CallbackPoolOp.allocate 0).apply s₀).1.shards 0).size = 1 := by
    change ((s₀.1.allocate 0).2.shards 0).freeHead = -1 ∧ ((s₀.1.allocate 0).2.shards 0).size = 1
    unfold CallbackPool.allocate
    dsimp only
    rw [hhead, if_pos (le_refl _), CallbackPool.setShard_self, Int.toNat_zero]
    refine ⟨?_, hsize⟩
    change ((s₀.1.shards 0).contexts 0).nextFree = -1
    rw [hslot 0 Nat.one_pos]
    rfl
  have h₂ := hsteps _ h₁ (by rw [hshard₁.2]; decide)
  refine ⟨_, h₂, ?_⟩
  generalize (CallbackPoolOp.allocate 0).apply s₀ = s at hshard₁
  change ((s.1.allocate 0).2.shards 0).freeHead = 2 ∧ ((s.1.allocate 0).2.shards 0).size = 2
  unfold CallbackPool.allocate
  dsimp only
  rw [hshard₁.1, if_neg (by decide)]
  unfold CallbackPool.growShard
  dsimp only
  rw [CallbackPool.setShard_self, hshard₁.2]
  exact ⟨staticCastInt_eq (n := 2) (by decide), rfl⟩

/-- A free list that starts behind the last context is wrong. -/
theorem Shard.not_freeList {shard : Shard} {inUse : ℕ → Prop} {i : ℕ} (hhead : shard.freeHead = i)
    (hi : shard.size ≤ i) : ¬ shard.FreeList inUse := by
  rintro ⟨l, hlinked, -, hrange, -⟩
  rw [hhead] at hlinked
  cases l with
  | nil => exact absurd hlinked (by unfold Linked; omega)
  | cons j l =>
      obtain rfl : i = j := by exact_mod_cast hlinked.1
      exact absurd (hrange i List.mem_cons_self) (not_lt.mpr hi)

/-- A pool with one context a shard breaks with the second allocation from a shard. -/
theorem callbackPool_one_per_shard :
    ∃ s, Reachable (callbackPoolSystem none 1) s ∧ ¬ s.Safe := by
  obtain ⟨s, ⟨s₀, ls, h₀, hrun⟩, hhead, hsize⟩ := grownFromOne none
  refine ⟨s, ⟨s₀, ls, h₀, hrun.of_restrict⟩, fun hsafe => ?_⟩
  exact Shard.not_freeList (i := 2) hhead (le_of_eq hsize) (hsafe 0 (by decide)).1

/-- With more contexts than an `int` can number, the first free list of a shard does not end. -/
theorem init_not_freeList {engine : Option ℕ} {n : ℕ} (hn : 2 ^ 31 < n) {inUse : ℕ → Prop} :
    ¬ ((CallbackPool.init engine n).shards 0).FreeList inUse := by
  rintro ⟨l, hlinked, -, -, -⟩
  obtain ⟨hsize, hhead, hslot⟩ :=
    CallbackPool.initShard_slots (p := { engine }) (k := 0) (n := n) rfl (by omega)
  rw [CallbackPool.init_shards engine n (by decide), hhead] at hlinked
  have hnext (i : ℕ) (hi : i < 2 ^ 31) : ((CallbackPool.initShard { engine } 0 n).shards 0).next i =
      staticCastInt (i + 1) := by
    rw [Shard.next, hslot i (by omega)]
    exact if_neg (by omega)
  obtain ⟨l', hl'⟩ := hlinked.suffix (f := 0) (n := 2 ^ 31 - 1) fun i _ hi => by
    rw [hnext i (by omega)]
    exact_mod_cast staticCastInt_eq (n := i + 1) (by omega)
  have hlast : staticCastInt (2 ^ 31) = -2 ^ 31 := by
    unfold staticCastInt
    rw [Int.bmod_def]
    omega
  cases l' with
  | nil => exact absurd hl' (by unfold Linked; omega)
  | cons j l' =>
      obtain ⟨hj, htail⟩ := hl'
      obtain rfl : j = 2 ^ 31 - 1 := by omega
      rw [hnext _ (by decide), show 2 ^ 31 - 1 + 1 = 2 ^ 31 from rfl, hlast] at htail
      have hnil := htail.eq_nil (by decide)
      rw [hnil] at htail
      exact absurd htail (by unfold Linked; decide)

/-- **The sizes that the callback pool handles.** The free lists are right in every reachable
state, as long as no shard outgrows the index type, exactly when the constructor was called with a
size other than 1 that the index type can number. -/
theorem callbackPool_freeLists_iff (engine : Option ℕ) (n : ℕ) :
    (∀ s, Reachable ((callbackPoolSystem engine n).restrict GrowthFits) s → s.Safe) ↔
      n ≠ 1 ∧ n ≤ 2 ^ 31 := by
  constructor
  · intro hall
    refine ⟨?_, ?_⟩
    · rintro rfl
      obtain ⟨s, hs, hhead, hsize⟩ := grownFromOne engine
      exact Shard.not_freeList (i := 2) hhead (le_of_eq hsize) (hall s hs 0 (by decide)).1
    · by_contra hn
      exact init_not_freeList (not_le.mp hn) (hall _ (.of_init rfl) 0 (by decide)).1
  · rintro ⟨hn, hfits⟩ s hs
    exact (callbackPool_freeLists hn hfits hs).safe

end Aura
