import Aura.Lib.IndexList
import Aura.Lib.System

/-!
# The context pool of BFFIO

`io_ctx_pool_t` of `workload.c`: the callback contexts of one worker, with a lock-free free list
threaded through them. Only the worker takes contexts; whoever runs a callback puts one back.

* `IoCtxPool.step` — the atomic loads, stores and compare-and-swaps of `io_ctx_pool_get` and
  `io_ctx_pool_put` as single steps, for one call of `get` at a time and any number of calls of
  `put`.
* `contextPool_lossless` — in every state of every run the free list is a chain, and each slot is on
  it once, or held once, or being put back by one call. -/

namespace Aura

open Lib

/-! ## The pool and its calls -/

/-- `io_ctx_pool_t`, with the fields of its slots that the pool uses. -/
structure IoCtxPool where
  capacity : ℕ
  poolIdx : ℕ → ℕ
  nextFree : ℕ → ℤ
  freeHead : ℤ

/-- `io_ctx_pool_init`, once its slots are allocated. -/
def ioCtxPoolInit (capacity : ℕ) : IoCtxPool where
  capacity := capacity
  poolIdx i := i
  nextFree i := i - 1
  freeHead := capacity - 1

/-- Where a call of `io_ctx_pool_get` stands: no call; `idx` was read from `free_head`; its link was
read. -/
inductive GetPc
  | idle
  | loaded (idx : ℕ)
  | linked (idx : ℕ) (next : ℤ)
deriving DecidableEq

/-- The test of the loop of `io_ctx_pool_get` on a value of `free_head`: the call returns `NULL` for
a negative one. -/
def GetPc.test (head : ℤ) : GetPc := if 0 ≤ head then .loaded head.toNat else .idle

/-- A call of `io_ctx_pool_put` after its first load; `stored` tells whether `next_free` holds
`oldHead`. -/
structure PutCall where
  ctx : ℕ
  idx : ℕ
  oldHead : ℤ
  stored : Bool := false
deriving DecidableEq

/-- The pool, the calls in progress, and the slots held by operations. -/
structure ContextPool where
  pool : IoCtxPool
  get : GetPc := .idle
  puts : List PutCall := []
  held : List ℕ := []

/-- The atomic steps. A compare-and-swap may fail spuriously; `k` numbers the calls of `put`. -/
inductive ContextStep
  | getHead
  | getNext
  | getSwap (spurious : Bool)
  | putHead (ctx : ℕ)
  | putNext (k : ℕ)
  | putSwap (k : ℕ) (spurious : Bool)

namespace ContextPool

variable (s : ContextPool)

/-- The compare-and-swap of `io_ctx_pool_get`: the slot is handed out, or the call goes on with what
it found. -/
def getSwap (idx : ℕ) (next : ℤ) (spurious : Bool) : ContextPool :=
  if s.pool.freeHead = idx ∧ spurious = false then
    { s with pool := { s.pool with freeHead := next }, get := .idle, held := idx :: s.held }
  else { s with get := GetPc.test s.pool.freeHead }

/-- The first load of `io_ctx_pool_put`. -/
def putHead (ctx : ℕ) : ContextPool :=
  { s with
    held := s.held.erase ctx
    puts := s.puts ++ [{ ctx, idx := s.pool.poolIdx ctx, oldHead := s.pool.freeHead }] }

/-- The store of `io_ctx_pool_put`. -/
def putNext (k : ℕ) (c : PutCall) : ContextPool :=
  { s with
    pool := { s.pool with nextFree := Function.update s.pool.nextFree c.ctx c.oldHead }
    puts := s.puts.set k { c with stored := true } }

/-- The compare-and-swap of `io_ctx_pool_put`. -/
def putSwap (k : ℕ) (c : PutCall) (spurious : Bool) : ContextPool :=
  if s.pool.freeHead = c.oldHead ∧ spurious = false then
    { s with pool := { s.pool with freeHead := c.idx }, puts := s.puts.eraseIdx k }
  else { s with puts := s.puts.set k { c with oldHead := s.pool.freeHead, stored := false } }

/-- One step. Only held slots are put back. -/
def step : ContextStep → Option ContextPool
  | .getHead => if s.get = .idle then some { s with get := GetPc.test s.pool.freeHead } else none
  | .getNext =>
      match s.get with
      | .loaded idx => some { s with get := .linked idx (s.pool.nextFree idx) }
      | _ => none
  | .getSwap spurious =>
      match s.get with
      | .linked idx next => some (s.getSwap idx next spurious)
      | _ => none
  | .putHead ctx => if ctx ∈ s.held then some (s.putHead ctx) else none
  | .putNext k =>
      match s.puts[k]? with
      | some c => if c.stored then none else some (s.putNext k c)
      | none => none
  | .putSwap k spurious =>
      match s.puts[k]? with
      | some c => if c.stored then some (s.putSwap k c spurious) else none
      | none => none

end ContextPool

/-- The pool of a worker with `capacity` contexts, all of them free at first. -/
def contextPoolSystem (capacity : ℕ) : System ContextPool ContextStep :=
  System.ofFn (fun s => s = { pool := ioCtxPoolInit capacity }) ContextPool.step

/-! ## The invariant -/

namespace ContextPool

variable {s s' : ContextPool} {n : ℕ} {free : List ℕ}

/-- What a call of `get` has read is still so: the slot is free, and its link is the one that was
read. Only this call could take the slot. -/
def GetOk (next : ℕ → ℤ) (free : List ℕ) : GetPc → Prop
  | .idle => True
  | .loaded idx => idx ∈ free
  | .linked idx n => idx ∈ free ∧ next idx = n

/-- **The invariant** of a pool with `n` slots and the free list `free`. -/
structure Inv (n : ℕ) (s : ContextPool) (free : List ℕ) : Prop where
  poolIdx : ∀ i, s.pool.poolIdx i = i
  chain : Linked s.pool.nextFree s.pool.freeHead free
  slots : (free ++ (s.held ++ s.puts.map (·.ctx))).Perm (List.range n)
  get : GetOk s.pool.nextFree free s.get
  puts : ∀ c ∈ s.puts, c.idx = c.ctx ∧ (c.stored = true → s.pool.nextFree c.ctx = c.oldHead)

/-- An element of a list, and what is before and after it. -/
theorem exists_split {α : Type} {l : List α} {k : ℕ} {c : α} (h : l[k]? = some c) :
    ∃ pre post, l = pre ++ c :: post ∧ (∀ x, l.set k x = pre ++ x :: post) ∧
      l.eraseIdx k = pre ++ post := by
  obtain ⟨hlt, rfl⟩ := List.getElem?_eq_some_iff.mp h
  refine ⟨l.take k, l.drop (k + 1), ?_, fun x => ?_, List.eraseIdx_eq_take_drop_succ l k⟩
  · rw [List.getElem_cons_drop, List.take_append_drop]
  · rw [List.set_eq_take_append_cons_drop, if_pos hlt]

/-- What the test of the loop lets through is the head of the free list. -/
theorem getOk_test (h : Linked s.pool.nextFree s.pool.freeHead free) :
    GetOk s.pool.nextFree free (GetPc.test s.pool.freeHead) := by
  unfold GetPc.test
  split_ifs with hhead
  · cases free with
    | nil =>
        have hend : s.pool.freeHead = -1 := h
        omega
    | cons i l =>
        obtain ⟨heq, -⟩ := h
        have hidx : s.pool.freeHead.toNat = i := by omega
        rw [hidx]
        exact List.mem_cons_self
  · trivial

namespace Inv

variable (h : Inv n s free)

include h

theorem nodup : (free ++ (s.held ++ s.puts.map (·.ctx))).Nodup :=
  h.slots.nodup_iff.mpr List.nodup_range

/-- A slot that is being put back is not free. -/
theorem not_free_of_put {c : PutCall} (hc : c ∈ s.puts) : c.ctx ∉ free := by
  intro hfree
  have hput : c.ctx ∈ s.held ++ s.puts.map (·.ctx) :=
    List.mem_append_right _ (List.mem_map_of_mem hc)
  exact (List.nodup_append.mp h.nodup).2.2 _ hfree _ hput rfl

/-- **A slot is taken** from the head of the free list. -/
theorem getSwap {idx : ℕ} {next : ℤ} (hget : s.get = .linked idx next) (spurious : Bool) :
    ∃ free', Inv n (s.getSwap idx next spurious) free' := by
  have hok := h.get
  rw [hget] at hok
  unfold ContextPool.getSwap
  by_cases hswap : s.pool.freeHead = idx ∧ spurious = false
  · rw [if_pos hswap]
    have hchain := h.chain
    cases free with
    | nil => exact absurd hok.1 List.not_mem_nil
    | cons i l =>
        obtain ⟨hhead, htail⟩ := hchain
        obtain rfl : idx = i := by
          rw [hswap.1] at hhead
          exact_mod_cast hhead
        rw [hok.2] at htail
        refine ⟨l, h.poolIdx, htail, ?_, trivial, h.puts⟩
        exact List.perm_middle.trans h.slots
  · rw [if_neg hswap]
    exact ⟨free, h.poolIdx, h.chain, h.slots, getOk_test h.chain, h.puts⟩

/-- A held slot is about to be put back. -/
theorem putHead {ctx : ℕ} (hctx : ctx ∈ s.held) : Inv n (s.putHead ctx) free := by
  refine ⟨h.poolIdx, h.chain, ?_, h.get, fun c hc => ?_⟩
  · refine List.Perm.trans (List.Perm.append_left free ?_) h.slots
    have hheld := (List.perm_cons_erase hctx).symm
    unfold ContextPool.putHead
    dsimp only
    rw [List.map_append, List.map_singleton, ← List.append_assoc]
    refine (List.perm_append_singleton _ _).trans ?_
    exact hheld.append_right (s.puts.map (·.ctx))
  · rcases List.mem_append.mp hc with hold | hnew
    · exact h.puts c hold
    · rw [List.mem_singleton] at hnew
      subst hnew
      exact ⟨h.poolIdx ctx, fun hno => absurd hno Bool.false_ne_true⟩

/-- Different calls put back different slots. -/
theorem ctx_ne {pre post : List PutCall} {c d : PutCall} (hsplit : s.puts = pre ++ c :: post)
    (hd : d ∈ pre ++ post) : d.ctx ≠ c.ctx := by
  have hnodup : (s.puts.map (·.ctx)).Nodup :=
    (List.nodup_append.mp (List.nodup_append.mp h.nodup).2.1).2.1
  rw [hsplit, List.map_append, List.map_cons, List.nodup_middle, ← List.map_append,
    List.nodup_cons] at hnodup
  intro heq
  rw [← heq] at hnodup
  exact hnodup.1 (List.mem_map_of_mem hd)

/-- The link of a slot that is being put back is written. -/
theorem putNext {k : ℕ} {c : PutCall} (hk : s.puts[k]? = some c) : Inv n (s.putNext k c) free := by
  obtain ⟨pre, post, hsplit, hset, -⟩ := exists_split hk
  have hmem : c ∈ s.puts := List.mem_of_getElem? hk
  have hfree := h.not_free_of_put hmem
  unfold ContextPool.putNext
  rw [hset]
  refine ⟨h.poolIdx, h.chain.update hfree _, ?_, ?_, fun d hd => ?_⟩
  · have hmap : (pre ++ { c with stored := true } :: post).map (·.ctx) = s.puts.map (·.ctx) := by
      rw [hsplit, List.map_append, List.map_append, List.map_cons, List.map_cons]
    rw [hmap]
    exact h.slots
  · have hget := h.get
    revert hget
    dsimp only
    cases s.get with
    | idle => exact id
    | loaded idx => exact id
    | linked idx next =>
        rintro ⟨hidx, hnext⟩
        refine ⟨hidx, ?_⟩
        rw [Function.update_of_ne, hnext]
        rintro rfl
        exact hfree hidx
  · dsimp only at hd ⊢
    rw [List.mem_append, List.mem_cons, or_left_comm, ← List.mem_append] at hd
    rcases hd with rfl | hother
    · exact ⟨(h.puts c hmem).1, fun _ => Function.update_self _ _ _⟩
    · have hold : d ∈ s.puts := by
        rw [hsplit, List.mem_append, List.mem_cons, or_left_comm, ← List.mem_append]
        exact Or.inr hother
      rw [Function.update_of_ne (h.ctx_ne hsplit hother)]
      exact h.puts d hold

/-- **A slot is put back** at the head of the free list. -/
theorem putSwap {k : ℕ} {c : PutCall} (hk : s.puts[k]? = some c) (hstored : c.stored = true)
    (spurious : Bool) : ∃ free', Inv n (s.putSwap k c spurious) free' := by
  obtain ⟨pre, post, hsplit, hset, herase⟩ := exists_split hk
  have hmem : c ∈ s.puts := List.mem_of_getElem? hk
  have hold {d : PutCall} (hd : d ∈ pre ++ post) : d ∈ s.puts := by
    rw [hsplit, List.mem_append, List.mem_cons, or_left_comm, ← List.mem_append]
    exact Or.inr hd
  obtain ⟨hidx, hlink⟩ := h.puts c hmem
  unfold ContextPool.putSwap
  by_cases hswap : s.pool.freeHead = c.oldHead ∧ spurious = false
  · rw [if_pos hswap, herase, hidx]
    refine ⟨c.ctx :: free, h.poolIdx, ⟨rfl, ?_⟩, ?_, ?_, fun d hd => h.puts d (hold hd)⟩
    · dsimp only
      rw [hlink hstored, ← hswap.1]
      exact h.chain
    · refine List.Perm.trans ?_ h.slots
      rw [hsplit, List.map_append, List.map_append, List.map_cons, List.cons_append]
      refine List.Perm.trans ?_ (List.Perm.append_left free
        (List.Perm.append_left s.held List.perm_middle.symm))
      exact List.perm_middle.symm.trans (List.Perm.append_left free List.perm_middle.symm)
    · have hget := h.get
      revert hget
      dsimp only
      cases s.get with
      | idle => exact id
      | loaded idx => exact fun hidx => List.mem_cons_of_mem _ hidx
      | linked idx next => exact fun hok => ⟨List.mem_cons_of_mem _ hok.1, hok.2⟩
  · rw [if_neg hswap, hset]
    refine ⟨free, h.poolIdx, h.chain, ?_, h.get, fun d hd => ?_⟩
    · have hmap : (pre ++ { c with oldHead := s.pool.freeHead, stored := false } :: post).map
          (·.ctx) = s.puts.map (·.ctx) := by
        rw [hsplit, List.map_append, List.map_append, List.map_cons, List.map_cons]
      rw [hmap]
      exact h.slots
    · rw [List.mem_append, List.mem_cons, or_left_comm, ← List.mem_append] at hd
      rcases hd with rfl | hother
      · exact ⟨hidx, fun hno => absurd hno Bool.false_ne_true⟩
      · exact h.puts d (hold hother)

end Inv

/-! ## Runs -/

/-- At first the links lead from the last slot down to the first. -/
theorem linked_init (n : ℕ) :
    Linked (fun i => (i : ℤ) - 1) ((n : ℤ) - 1) (List.range n).reverse := by
  induction n with
  | zero => rfl
  | succ n ih =>
      rw [List.range_succ, List.reverse_append]
      exact ⟨by push_cast; omega, ih⟩

theorem inv_init (n : ℕ) :
    Inv n { pool := ioCtxPoolInit n } (List.range n).reverse := by
  refine ⟨fun _ => rfl, linked_init n, ?_, trivial, fun c hc => absurd hc List.not_mem_nil⟩
  rw [List.map_nil, List.append_nil, List.append_nil]
  exact List.reverse_perm _

/-- **Every step keeps the invariant.** -/
theorem step_inv {a : ContextStep} (h : Inv n s free) (hs : s.step a = some s') :
    ∃ free', Inv n s' free' := by
  cases a with
  | getHead =>
      unfold step at hs
      split_ifs at hs
      cases hs
      exact ⟨free, h.poolIdx, h.chain, h.slots, getOk_test h.chain, h.puts⟩
  | getNext =>
      simp only [step] at hs
      cases hget : s.get with
      | idle => simp [hget] at hs
      | linked idx next => simp [hget] at hs
      | loaded idx =>
          have hok := h.get
          rw [hget] at hs hok
          cases hs
          exact ⟨free, h.poolIdx, h.chain, h.slots, ⟨hok, rfl⟩, h.puts⟩
  | getSwap spurious =>
      simp only [step] at hs
      cases hget : s.get with
      | idle => simp [hget] at hs
      | loaded idx => simp [hget] at hs
      | linked idx next =>
          rw [hget] at hs
          cases hs
          exact h.getSwap hget spurious
  | putHead ctx =>
      obtain ⟨hctx, rfl⟩ : ctx ∈ s.held ∧ s.putHead ctx = s' := by simpa [step] using hs
      exact ⟨free, h.putHead hctx⟩
  | putNext k =>
      simp only [step] at hs
      cases hk : s.puts[k]? with
      | none => simp [hk] at hs
      | some c =>
          rw [hk] at hs
          dsimp only at hs
          split_ifs at hs
          cases hs
          exact ⟨free, h.putNext hk⟩
  | putSwap k spurious =>
      simp only [step] at hs
      cases hk : s.puts[k]? with
      | none => simp [hk] at hs
      | some c =>
          rw [hk] at hs
          dsimp only at hs
          split_ifs at hs with hstored
          cases hs
          exact h.putSwap hk hstored spurious

end ContextPool

/-- **No slot is lost or handed out twice.** In every state that the pool can reach, with one call
of `get` and any number of calls of `put` interleaved by their atomic steps, the links from
`free_head` lead through a list of free slots to the end mark, and this list, the held slots and the
slots that are being put back hold every slot of the pool exactly once. -/
theorem contextPool_lossless {n : ℕ} {s : ContextPool}
    (h : Reachable (contextPoolSystem n) s) :
    ∃ free : List ℕ, Linked s.pool.nextFree s.pool.freeHead free ∧
      free.Nodup ∧ (∀ i ∈ free, i < n) ∧
      (free ++ (s.held ++ s.puts.map (·.ctx))).Perm (List.range n) := by
  obtain ⟨free, hinv⟩ := h.invariant (I := fun s => ∃ free, ContextPool.Inv n s free)
    (fun s hs => ⟨_, hs ▸ ContextPool.inv_init n⟩)
    (fun _ _ _ hi hstep => hi.elim fun _ hi => ContextPool.step_inv hi hstep)
  refine ⟨free, hinv.chain, (List.nodup_append.mp hinv.nodup).1, fun i hi => ?_, hinv.slots⟩
  exact List.mem_range.mp (hinv.slots.subset (List.mem_append_left _ hi))

/-- A slot is put back while the next one is being taken: the swap fails, and the call starts over.
-/
theorem contextPool_lossless_retry : ∃ s, execute ContextPool.step { pool := ioCtxPoolInit 2 }
    [.getHead, .getNext, .getSwap false, .getHead, .getNext, .putHead 1, .putNext 0,
      .putSwap 0 false, .getSwap false] = some s ∧ s.get = .loaded 1 ∧ s.held = [] ∧
    ∃ free : List ℕ, Linked s.pool.nextFree s.pool.freeHead free ∧
      (free ++ (s.held ++ s.puts.map (·.ctx))).Perm (List.range 2) := by
  have hrun : (execute ContextPool.step { pool := ioCtxPoolInit 2 }
    [.getHead, .getNext, .getSwap false, .getHead, .getNext, .putHead 1, .putNext 0,
      .putSwap 0 false, .getSwap false]).isSome := by decide
  have hs := (Option.some_get hrun).symm
  have hreach : Reachable (contextPoolSystem 2) _ := Reachable.of_execute rfl hs
  obtain ⟨free, hlinked, -, -, hslots⟩ := contextPool_lossless hreach
  exact ⟨_, hs, rfl, rfl, free, hlinked, hslots⟩

end Aura
