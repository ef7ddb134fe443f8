import Mathlib.Data.Finset.Card
import Mathlib.Data.Finset.Range
import Mathlib.Logic.Function.Basic
import Aura.Lib.Probing
import Aura.Lib.System

/-!
# The visited set of atree

`visited_insert` under its name, one atomic operation at a time: a load, a compare-and-swap or a
store of a bucket is a step, with the local computation and the key reads that follow it, and so is
the plain write of the key. `InsertPc` is the place of a call between two of them.

`VisitedRun` are any number of calls on one set, and `visitedSystem` their interleavings. The
threads do not appear: a thread makes its calls one after the other, which is one of the orders.

* `Inserts` is the condition under which no pair is admitted twice; `visited_twice` is a run that
  does without. -/

namespace Aura

open Lib

/-- `devino_t`. -/
structure DevIno where
  dev : UInt64
  ino : UInt64
deriving DecidableEq

/-- `visited_hash`. -/
def visitedHash (key : DevIno) : UInt64 :=
  ((((14695981039346656037 : UInt64) ^^^ key.dev) * 1099511628211) ^^^ key.ino) * 1099511628211

/-- `VISITED_PENDING`: the slot is claimed, its key not written yet. -/
def visitedPending : UInt64 := 1

/-- `visited_tag`: neither 0, the empty slot, nor `VISITED_PENDING`. -/
def visitedTag (key : DevIno) : UInt64 :=
  if visitedHash key ≤ visitedPending then visitedHash key + 2 else visitedHash key

/-- `VISITED_INIT_CAP`. -/
def visitedInitCap : ℕ := 2 ^ 20

/-- `VISITED_LOAD_MAX`, in percent. -/
def visitedLoadMax : ℕ := 70

/-- `visited_set_t`. -/
structure VisitedSet where
  buckets : ℕ → UInt64
  keys : ℕ → DevIno
  cap : ℕ
  count : ℕ

/-- `visited_init`. -/
def visitedInit : VisitedSet where
  buckets _ := 0
  keys _ := ⟨0, 0⟩
  cap := visitedInitCap
  count := 0

namespace VisitedSet

/-- `visited_hash(dev, ino) & mask`. -/
def home (vs : VisitedSet) (key : DevIno) : ℕ := (visitedHash key).toNat &&& (vs.cap - 1)

/-- `(idx + 1) & mask`. -/
def next (vs : VisitedSet) (idx : ℕ) : ℕ := (idx + 1) &&& (vs.cap - 1)

/-- The load check: no further pair is taken. -/
def full (vs : VisitedSet) : Bool := decide (visitedLoadMax ≤ vs.count * 100 / vs.cap)

/-- `cur == tag && vs->keys[idx].dev == dev && vs->keys[idx].ino == ino`. -/
def holds (vs : VisitedSet) (key : DevIno) (idx : ℕ) : Bool :=
  decide (vs.buckets idx = visitedTag key ∧ vs.keys idx = key)

/-- A store to a bucket. -/
def store (vs : VisitedSet) (idx : ℕ) (tag : UInt64) : VisitedSet :=
  { vs with buckets := Function.update vs.buckets idx tag }

end VisitedSet

/-- The place of a call of `visited_insert` between two atomic operations. -/
inductive InsertPc
  /-- The load of the count. -/
  | start
  /-- The load of the bucket `idx`, in round `i` of the loop. -/
  | probe (i idx : ℕ)
  /-- The compare-and-swap, after the bucket was found empty. -/
  | claim (i idx : ℕ)
  /-- The write of the key. -/
  | writeKey (idx : ℕ)
  /-- The store of the tag. -/
  | publish (idx : ℕ)
  /-- The load of the bucket `j` in the race check. -/
  | rescan (idx j : ℕ)
  /-- The store of 0 after a duplicate was found. -/
  | release (idx : ℕ)
  /-- It returned true; the pair is in the slot `idx`. -/
  | inserted (idx : ℕ)
  /-- It returned false. -/
  | refused
deriving DecidableEq

namespace VisitedSet

/-- The loop body after a bucket that is not empty: the pair is present, or the next slot is probed.
-/
def passOrRefuse (vs : VisitedSet) (key : DevIno) (i idx : ℕ) : InsertPc :=
  if vs.buckets idx = visitedPending then .probe (i + 1) (vs.next idx)
  else if vs.holds key idx then .refused
  else .probe (i + 1) (vs.next idx)

/-- One step of `visited_insert`. -/
def insertStep (vs : VisitedSet) (key : DevIno) : InsertPc → Option (VisitedSet × InsertPc)
  | .start => some (vs, if vs.full then .refused else .probe 0 (vs.home key))
  | .probe i idx =>
      if i < vs.cap then
        if vs.buckets idx = 0 then some (vs, .claim i idx)
        else some (vs, vs.passOrRefuse key i idx)
      else some (vs, .refused)
  | .claim i idx =>
      if vs.buckets idx = 0 then some (vs.store idx visitedPending, .writeKey idx)
      else some (vs, vs.passOrRefuse key i idx)
  | .writeKey idx => some ({ vs with keys := Function.update vs.keys idx key }, .publish idx)
  | .publish idx => some (vs.store idx (visitedTag key), .rescan idx (vs.home key))
  | .rescan idx j =>
      if j = idx then some ({ vs with count := vs.count + 1 }, .inserted idx)
      else if vs.holds key j then some (vs, .release idx)
      else some (vs, .rescan idx (vs.next j))
  | .release idx => some (vs.store idx 0, .refused)
  | .inserted _ | .refused => none

end VisitedSet

/-! ## Calls -/

/-- Calls on one set, each with its place. -/
structure VisitedRun where
  set : VisitedSet := visitedInit
  pc : ℕ → InsertPc := fun _ => .start

namespace VisitedRun

/-- The call `c` of `n` takes a step. -/
def step (n : ℕ) (key : ℕ → DevIno) (s : VisitedRun) (c : ℕ) : Option VisitedRun :=
  if c < n then
    (s.set.insertStep (key c) (s.pc c)).map fun r =>
      { set := r.1, pc := Function.update s.pc c r.2 }
  else none

end VisitedRun

/-- `n` calls, the call `c` with the pair `key c`. -/
def visitedSystem (n : ℕ) (key : ℕ → DevIno) : System VisitedRun ℕ :=
  System.ofFn (fun s => s = {}) (VisitedRun.step n key)

namespace InsertPc

/-- The slot that the call has claimed, until it gives it back. -/
def slot? : InsertPc → Option ℕ
  | writeKey idx | publish idx | rescan idx _ | release idx | inserted idx => some idx
  | start | probe _ _ | claim _ _ | refused => none

/-- The slot up to which the call has made its race check. -/
def checked? : InsertPc → Option ℕ
  | rescan _ j => some j
  | inserted idx => some idx
  | start | probe _ _ | claim _ _ | writeKey _ | publish _ | release _ | refused => none

/-- The slot that the call has claimed, until it stores its tag. -/
def pending? : InsertPc → Option ℕ
  | writeKey idx | publish idx => some idx
  | start | probe _ _ | claim _ _ | rescan _ _ | release _ | inserted _ | refused => none

/-- What the call returned, once it is over. -/
def result : InsertPc → Option Bool
  | inserted _ => some true
  | refused => some false
  | start | probe _ _ | claim _ _ | writeKey _ | publish _ | rescan _ _ | release _ => none

end InsertPc

namespace VisitedRun

/-- Which slot comes first in the search for a pair. -/
def rank (key : DevIno) (idx : ℕ) : ℕ :=
  Probing.dist visitedInitCap (visitedInit.home key) idx

/-- **The condition on a step.** A call finds an empty slot before it has been through all of them;
it claims one that no other call for the pair has checked already; and in its race check it comes to
no slot that another call has claimed for the pair and not published. -/
def Inserts (n : ℕ) (key : ℕ → DevIno) (s : VisitedRun) (c : ℕ) : Prop :=
  match s.pc c with
  | .probe i _ => i < s.set.cap
  | .claim _ idx =>
      s.set.buckets idx = 0 → ∀ c' < n, key c' = key c → ∀ j ∈ (s.pc c').checked?,
        rank (key c) j ≤ rank (key c) idx
  | .rescan idx j => j ≠ idx → ∀ c' < n, key c' = key c → (s.pc c').pending? ≠ some j
  | _ => True

end VisitedRun

/-- Two calls with one pair both return true: the second passes the slot of the first while its key
is written, takes the next one, and has made its race check before the first stores its tag. -/
theorem visited_twice :
    ∃ s, Reachable (visitedSystem 2 fun _ => ⟨1, 2⟩) s ∧
      (s.pc 0).result = some true ∧ (s.pc 1).result = some true := by
  have hrun : (execute (VisitedRun.step 2 fun _ => ⟨1, 2⟩) {}
      [0, 0, 0, 1, 1, 1, 1, 1, 1, 1, 1, 0, 0, 0]).isSome = true := by decide
  obtain ⟨s, hs⟩ := Option.isSome_iff_exists.mp hrun
  refine ⟨s, Reachable.of_execute rfl hs, ?_, ?_⟩
  · obtain rfl := Option.some.inj hs
    decide
  · obtain rfl := Option.some.inj hs
    decide

end Aura
