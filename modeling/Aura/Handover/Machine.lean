import Aura.Lib.System
import Mathlib.Algebra.Order.Ring.Int
import Mathlib.Logic.Function.Basic

/-!
# The ring lock of several threads

In `AURA_SELECT_THREAD_LOCAL` mode a thread claims a ring at its first submission. As long as it is
the only one there, `single_thread` is set, and the lock of the ring is a count (`st_users`);
submissions do without it. The second thread that claims the ring clears the flag, waits until the
count is zero, and from then on the lock is a mutex.

Every atomic load, store and read-modify-write and every operation on the mutex is one step here.

* `LockState.advance` — the next of them, for a thread that is in the middle of a function.
* `LockState.submitEnd`, `LockState.submitAbort` — how a submission releases what it has acquired.
* `lockSystem` — all threads, in any order.
-/

namespace Aura

open Lib

/-! ## Threads and rings -/

/-- What `ring_lock` is called for. -/
inductive LockUse
  /-- For anything but a submission: a flush, a poll, a wait. -/
  | other
  /-- By `submit_begin`. -/
  | submission
  /-- By `submit_end`, at the tail of a chain. -/
  | chainEnd
deriving DecidableEq

/-- The steps of `ring_lock`: the load of `single_thread`; the increment of `st_users`; the second
load; the decrement; the mutex. -/
inductive LockStage
  | load
  | bump
  | recheck
  | back
  | mutex
deriving DecidableEq

/-- Where a thread is. -/
inductive Spot
  /-- In no function of the library, or in a callback. -/
  | idle
  /-- In `select_ring_thread_local`, before the increment of `owner_count`. -/
  | addOwner (i : ℕ)
  /-- There, as the first owner, before the store to `single_thread`. -/
  | storeFirst (i : ℕ)
  /-- The same as a later owner. -/
  | storeShared (i : ℕ)
  /-- Before the test of `st_users`. -/
  | waitUsers (i : ℕ)
  /-- Before the test of `st_cq_users`. -/
  | waitCqUsers (i : ℕ)
  /-- In `submit_begin`, before `ring_is_sole_owner`. -/
  | entered (i : ℕ)
  /-- Between `submit_begin` and `submit_end` on the path without the lock. -/
  | fast (i : ℕ)
  /-- In `submit_end` on that path. -/
  | fastEnd (i : ℕ)
  | lock (stage : LockStage) (i : ℕ) (use : LockUse)
  /-- After `ring_lock`, with what it returned. -/
  | held (i : ℕ) (use : LockUse) (st : Bool)
  /-- Before `ring_unlock`; `again` if a poll and another `ring_lock` follow. -/
  | unlock (i : ℕ) (st : Bool) (again : Bool)
deriving DecidableEq

/-- A thread with its thread-local variables. -/
structure LockThread where
  spot : Spot := .idle
  /-- The rings of the submissions that are polling to make room, the innermost first. The thread
  may be in a callback meanwhile. -/
  suspended : List ℕ := []
  /-- `tls_owned_ring`. -/
  ownedRing : Option ℕ := none
  /-- `tls_link_ring`. -/
  linkRing : Option ℕ := none
  /-- `tls_last_ring`. -/
  lastRing : Option ℕ := none
deriving DecidableEq

/-- The fields of `ring_ctx_t` that the lock is made of. -/
structure RingWords (T : Type*) where
  ownerCount : ℤ := 0
  singleThread : Bool
  stUsers : ℤ := 0
  stCqUsers : ℤ := 0
  /-- The mutex. -/
  lock : Option T := none
  needsEnable : Bool

/-- The rings and the threads. -/
structure LockState (T : Type*) where
  /-- `next_ring`. -/
  nextRing : ℕ
  rings : ℕ → RingWords T
  threads : T → LockThread
  /-- How often a thread has acquired the lock of a ring less how often it has released it: `true`
  is for the count `st_users`, `false` for the mutex. -/
  net : T → ℕ → Bool → ℤ

/-! ## Functions -/

namespace LockState

variable {T : Type*} [DecidableEq T] (s : LockState T) (t : T) (i : ℕ)

/-- A thread moves on. -/
def setThread (x : LockThread) : LockState T := { s with threads := Function.update s.threads t x }

/-- A ring changes. -/
def setRing (r : RingWords T) : LockState T := { s with rings := Function.update s.rings i r }

/-- An entry of the ledger. -/
def enter (st : Bool) (d : ℤ) : LockState T :=
  { s with
    net := fun u j k => s.net u j k + if u = t ∧ j = i ∧ k = st then d else 0 }

/-- The step of `ring_lock` that acquires. -/
def acquire (st : Bool) : LockState T :=
  let r := s.rings i
  (s.setRing i
    (if st then { r with stUsers := r.stUsers + 1 } else { r with lock := some t })).enter t i st 1

/-- The step of `ring_unlock` (and the decrement in `ring_lock`). -/
def release (st : Bool) : LockState T :=
  let r := s.rings i
  (s.setRing i
    (if st then { r with stUsers := r.stUsers - 1 } else { r with lock := none })).enter t i st (-1)

@[simp] theorem rings_setThread (x : LockThread) : (s.setThread t x).rings = s.rings := rfl

@[simp] theorem net_setThread (x : LockThread) : (s.setThread t x).net = s.net := rfl

@[simp] theorem threads_setThread_self (x : LockThread) : (s.setThread t x).threads t = x :=
  Function.update_self _ _ _

@[simp] theorem threads_setThread_of_ne {u : T} (h : u ≠ t) (x : LockThread) :
    (s.setThread t x).threads u = s.threads u := Function.update_of_ne h _ _

omit [DecidableEq T] in
@[simp] theorem rings_setRing_self (r : RingWords T) : (s.setRing i r).rings i = r :=
  Function.update_self _ _ _

omit [DecidableEq T] in
@[simp] theorem rings_setRing_of_ne {j : ℕ} (h : j ≠ i) (r : RingWords T) :
    (s.setRing i r).rings j = s.rings j := Function.update_of_ne h _ _

omit [DecidableEq T] in
@[simp] theorem threads_setRing (r : RingWords T) : (s.setRing i r).threads = s.threads := rfl

omit [DecidableEq T] in
@[simp] theorem net_setRing (r : RingWords T) : (s.setRing i r).net = s.net := rfl

@[simp] theorem threads_acquire (st : Bool) : (s.acquire t i st).threads = s.threads := rfl

@[simp] theorem threads_release (st : Bool) : (s.release t i st).threads = s.threads := rfl

/-- The thread goes to another spot. -/
def goto (spot : Spot) : LockState T := s.setThread t { s.threads t with spot }

/-- The claim is complete, and the submission goes on with the ring. -/
def claimed : LockState T :=
  s.setThread t { s.threads t with spot := .entered i, ownedRing := some i }

/-- `select_ring`, up to the first atomic operation on a ring; `n` is the number of rings. The only
ring of an engine is not claimed once it is enabled. -/
def selectRing (n : ℕ) : LockState T :=
  if n = 1 && !(s.rings 0).needsEnable then s.goto t (.entered 0)
  else
    match (s.threads t).ownedRing with
    | some i => s.goto t (.entered i)
    | none => { s with nextRing := (s.nextRing + 1) % 2 ^ 32 }.goto t (.addOwner (s.nextRing % n))

/-- The beginning of `submit_begin`: the ring of the chain, or one that is selected. -/
def submitBegin (n : ℕ) : LockState T :=
  match (s.threads t).linkRing with
  | some i => s.goto t (.entered i)
  | none => s.selectRing t n

/-- `submit_end`, up to its last atomic operation; `st` is the `lock_st` of the submission. -/
def submitEnd (st : Bool) : LockState T :=
  let x := { s.threads t with lastRing := some i }
  if (s.rings i).singleThread && x.linkRing.isNone then s.setThread t { x with spot := .fastEnd i }
  else if x.linkRing.isSome then
    if st then s.setThread t { x with spot := .lock .load i .chainEnd }
    else s.setThread t { x with spot := .unlock i false false, linkRing := none }
  else s.setThread t { x with spot := .unlock i st false }

/-- `submit_abort`, up to its last atomic operation. -/
def submitAbort (st : Bool) : LockState T :=
  s.setThread t { s.threads t with spot := .unlock i st false, linkRing := none }

/-- `aura_request_set_linked`. -/
def setLinked : LockState T :=
  let x := s.threads t
  s.setThread t { x with linkRing := if x.lastRing.isSome then x.lastRing else x.linkRing }

/-- A step of `ring_lock`. -/
def ringLock (use : LockUse) : LockStage → Option (LockState T)
  | .load =>
    some (s.goto t (.lock (if (s.rings i).singleThread then .bump else .mutex) i use))
  | .bump => some ((s.acquire t i true).goto t (.lock .recheck i use))
  | .recheck =>
    some (s.goto t (if (s.rings i).singleThread then .held i use true else .lock .back i use))
  | .back => some ((s.release t i true).goto t (.lock .mutex i use))
  | .mutex =>
    if (s.rings i).lock.isNone then some ((s.acquire t i false).goto t (.held i use false))
    else none

/-- `ring_unlock`. -/
def ringUnlock (st again : Bool) : LockState T :=
  let x := s.threads t
  (s.release t i st).setThread t
    { x with spot := .idle, suspended := if again then i :: x.suspended else x.suspended }

/-- **The next step** of the function that the thread is in. -/
def advance : Option (LockState T) :=
  match (s.threads t).spot with
  | .addOwner i =>
    let r := s.rings i
    some ((s.setRing i { r with ownerCount := r.ownerCount + 1 }).goto t
      (if r.ownerCount = 0 then .storeFirst i else .storeShared i))
  | .storeFirst i => some ((s.setRing i { s.rings i with singleThread := true }).claimed t i)
  | .storeShared i =>
    some ((s.setRing i { s.rings i with singleThread := false }).goto t (.waitUsers i))
  | .waitUsers i => if (s.rings i).stUsers > 0 then some s else some (s.goto t (.waitCqUsers i))
  | .waitCqUsers i => if (s.rings i).stCqUsers > 0 then some s else some (s.claimed t i)
  | .entered i =>
    some (s.goto t (if (s.rings i).singleThread && (s.threads t).linkRing.isNone then .fast i
      else .lock .load i .submission))
  | .fastEnd _ => some (s.goto t .idle)
  | .lock stage i use => s.ringLock t i use stage
  | .held i .chainEnd st =>
    some (s.setThread t { s.threads t with spot := .unlock i st false, linkRing := none })
  | .unlock i st again => some (s.ringUnlock t i st again)
  | _ => none

end LockState

/-! ## The system -/

/-- What a thread may do next. -/
inductive LockOp
  /-- It calls one of the functions that submit. -/
  | submit
  /-- It takes the next step of the function it is in. -/
  | advance
  /-- `ring_enable` succeeds. -/
  | enable
  /-- `submit_begin` fails: there is no room, no slot, or a fatal error. -/
  | refuse
  /-- There is no room: `submit_begin` unlocks the ring and polls it. -/
  | makeRoom
  /-- It goes on after that. -/
  | resume
  /-- `submit_end`. -/
  | finish
  /-- `submit_abort`. -/
  | abort
  /-- `aura_request_set_linked`. -/
  | link
  /-- It calls `ring_lock` for something else: in a poll, a wait, the retiring of requests. -/
  | ringLock (i : ℕ)
  /-- `ring_trylock` finds the mutex locked. -/
  | giveUp
  /-- `ring_unlock`. -/
  | ringUnlock
  /-- `ring_cq_lock` or `ring_cq_unlock` of any thread. -/
  | cqUsers (i : ℕ) (up : Bool)
deriving DecidableEq

namespace LockState

variable {T : Type*} [DecidableEq T]

/-- One step; `n` is the number of rings. -/
def step (n : ℕ) (s : LockState T) (l : T × LockOp) : Option (LockState T) :=
  let t := l.1
  match l.2, (s.threads t).spot with
  | .submit, .idle => some (s.submitBegin t n)
  | .advance, _ => s.advance t
  | .enable, .storeFirst i => some (s.setRing i { s.rings i with needsEnable := false })
  | .refuse, .fast _ => some (s.goto t .idle)
  | .refuse, .held i .submission st => some (s.goto t (.unlock i st false))
  | .makeRoom, .held i .submission st => some (s.goto t (.unlock i st true))
  | .resume, .idle =>
    match (s.threads t).suspended with
    | i :: rest =>
      some (s.setThread t
        { s.threads t with spot := .lock .load i .submission, suspended := rest })
    | [] => none
  | .finish, .fast i => some (s.submitEnd t i true)
  | .finish, .held i .submission st => some (s.submitEnd t i st)
  | .abort, .fast i => some (s.submitAbort t i true)
  | .abort, .held i .submission st => some (s.submitAbort t i st)
  | .link, .idle => some (s.setLinked t)
  | .ringLock i, .idle => some (s.goto t (.lock .load i .other))
  | .giveUp, .lock .mutex _ .other => some (s.goto t .idle)
  | .ringUnlock, .held i .other st => some (s.goto t (.unlock i st false))
  | .cqUsers i up, _ =>
    let r := s.rings i
    some (s.setRing i { r with stCqUsers := if up then r.stCqUsers + 1 else r.stCqUsers - 1 })
  | _, _ => none

/-- The state of an engine that no thread has used; `single` is the option `single_thread`. -/
def start (T : Type*) (single : Bool) (needsEnable : ℕ → Bool) (nextRing : ℕ) : LockState T where
  nextRing := nextRing
  rings i := { singleThread := single, needsEnable := needsEnable i }
  threads _ := {}
  net _ _ _ := 0

end LockState

/-- The threads `T` on an engine with `n` rings. -/
def lockSystem (T : Type*) [DecidableEq T] (n : ℕ) : System (LockState T) (T × LockOp) :=
  System.ofFn (fun s => ∃ single needsEnable nextRing,
    s = LockState.start T single needsEnable nextRing) (LockState.step n)

/-! ## What a step can do -/

/-- The spot is between `submit_begin` and `submit_end`, with `lock_st = st`. -/
def Spot.Submits (i : ℕ) (st : Bool) (x : Spot) : Prop :=
  (x = .fast i ∧ st = true) ∨ x = .held i .submission st

namespace LockState

variable {T : Type*} [DecidableEq T]

/-- The steps of the thread `t`, one for each branch. -/
inductive Move (n : ℕ) (s : LockState T) (t : T) : LockOp → LockState T → Prop
  | submitLinked (i : ℕ) (h : (s.threads t).spot = .idle)
      (hlink : (s.threads t).linkRing = some i) :
      Move n s t .submit (s.goto t (.entered i))
  | submitSingle (h : (s.threads t).spot = .idle) (hlink : (s.threads t).linkRing = none)
      (hn : n = 1) (henabled : (s.rings 0).needsEnable = false) :
      Move n s t .submit (s.goto t (.entered 0))
  | submitOwned (i : ℕ) (h : (s.threads t).spot = .idle) (hlink : (s.threads t).linkRing = none)
      (howned : (s.threads t).ownedRing = some i) : Move n s t .submit (s.goto t (.entered i))
  | submitClaim (next i : ℕ) (h : (s.threads t).spot = .idle)
      (hlink : (s.threads t).linkRing = none) (howned : (s.threads t).ownedRing = none) :
      Move n s t .submit ({ s with nextRing := next }.goto t (.addOwner i))
  | addOwner (i : ℕ) (h : (s.threads t).spot = .addOwner i) :
      Move n s t .advance
        ((s.setRing i { s.rings i with ownerCount := (s.rings i).ownerCount + 1 }).goto t
          (if (s.rings i).ownerCount = 0 then .storeFirst i else .storeShared i))
  | enable (i : ℕ) (h : (s.threads t).spot = .storeFirst i) :
      Move n s t .enable (s.setRing i { s.rings i with needsEnable := false })
  | storeFirst (i : ℕ) (h : (s.threads t).spot = .storeFirst i) :
      Move n s t .advance ((s.setRing i { s.rings i with singleThread := true }).claimed t i)
  | storeShared (i : ℕ) (h : (s.threads t).spot = .storeShared i) :
      Move n s t .advance
        ((s.setRing i { s.rings i with singleThread := false }).goto t (.waitUsers i))
  | spin : Move n s t .advance s
  | usersGone (i : ℕ) (h : (s.threads t).spot = .waitUsers i) (husers : (s.rings i).stUsers ≤ 0) :
      Move n s t .advance (s.goto t (.waitCqUsers i))
  | cqUsersGone (i : ℕ) (h : (s.threads t).spot = .waitCqUsers i) :
      Move n s t .advance (s.claimed t i)
  | enterFast (i : ℕ) (h : (s.threads t).spot = .entered i)
      (hsole : (s.rings i).singleThread = true) (hlink : (s.threads t).linkRing = none) :
      Move n s t .advance (s.goto t (.fast i))
  | enterLock (i : ℕ) (h : (s.threads t).spot = .entered i)
      (hlock : (s.threads t).linkRing = none → (s.rings i).singleThread = false) :
      Move n s t .advance (s.goto t (.lock .load i .submission))
  | load (i : ℕ) (use : LockUse) (h : (s.threads t).spot = .lock .load i use) :
      Move n s t .advance
        (s.goto t (.lock (if (s.rings i).singleThread then .bump else .mutex) i use))
  | bump (i : ℕ) (use : LockUse) (h : (s.threads t).spot = .lock .bump i use) :
      Move n s t .advance ((s.acquire t i true).goto t (.lock .recheck i use))
  | recheck (i : ℕ) (use : LockUse) (h : (s.threads t).spot = .lock .recheck i use)
      (hsingle : (s.rings i).singleThread = true) :
      Move n s t .advance (s.goto t (.held i use true))
  | recheckCleared (i : ℕ) (use : LockUse) (h : (s.threads t).spot = .lock .recheck i use)
      (hsingle : (s.rings i).singleThread = false) :
      Move n s t .advance (s.goto t (.lock .back i use))
  | back (i : ℕ) (use : LockUse) (h : (s.threads t).spot = .lock .back i use) :
      Move n s t .advance ((s.release t i true).goto t (.lock .mutex i use))
  | mutex (i : ℕ) (use : LockUse) (h : (s.threads t).spot = .lock .mutex i use)
      (hfree : (s.rings i).lock = none) :
      Move n s t .advance ((s.acquire t i false).goto t (.held i use false))
  | refuseFast (i : ℕ) (h : (s.threads t).spot = .fast i) : Move n s t .refuse (s.goto t .idle)
  | refuse (i : ℕ) (st : Bool) (h : (s.threads t).spot = .held i .submission st) :
      Move n s t .refuse (s.goto t (.unlock i st false))
  | makeRoom (i : ℕ) (st : Bool) (h : (s.threads t).spot = .held i .submission st) :
      Move n s t .makeRoom (s.goto t (.unlock i st true))
  | resume (i : ℕ) (rest : List ℕ) (h : (s.threads t).spot = .idle)
      (hsuspended : (s.threads t).suspended = i :: rest) :
      Move n s t .resume (s.setThread t
        { s.threads t with spot := .lock .load i .submission, suspended := rest })
  | finishFast (i : ℕ) (st : Bool) (h : (s.threads t).spot.Submits i st)
      (hsole : (s.rings i).singleThread = true) (hlink : (s.threads t).linkRing = none) :
      Move n s t .finish
        (s.setThread t { s.threads t with spot := .fastEnd i, lastRing := some i })
  | finishRelock (i : ℕ) (h : (s.threads t).spot.Submits i true)
      (hlink : (s.threads t).linkRing ≠ none) :
      Move n s t .finish
        (s.setThread t { s.threads t with spot := .lock .load i .chainEnd, lastRing := some i })
  | finishChain (i : ℕ) (h : (s.threads t).spot.Submits i false)
      (hlink : (s.threads t).linkRing ≠ none) :
      Move n s t .finish (s.setThread t
        { s.threads t with spot := .unlock i false false, lastRing := some i, linkRing := none })
  | finish (i : ℕ) (st : Bool) (h : (s.threads t).spot.Submits i st)
      (hsole : (s.rings i).singleThread = false) (hlink : (s.threads t).linkRing = none) :
      Move n s t .finish
        (s.setThread t { s.threads t with spot := .unlock i st false, lastRing := some i })
  | abort (i : ℕ) (st : Bool) (h : (s.threads t).spot.Submits i st) :
      Move n s t .abort (s.submitAbort t i st)
  | link (h : (s.threads t).spot = .idle) : Move n s t .link (s.setLinked t)
  | ringLock (i : ℕ) (h : (s.threads t).spot = .idle) :
      Move n s t (.ringLock i) (s.goto t (.lock .load i .other))
  | giveUp (i : ℕ) (h : (s.threads t).spot = .lock .mutex i .other) :
      Move n s t .giveUp (s.goto t .idle)
  | ringUnlock (i : ℕ) (st : Bool) (h : (s.threads t).spot = .held i .other st) :
      Move n s t .ringUnlock (s.goto t (.unlock i st false))
  | flushChain (i : ℕ) (st : Bool) (h : (s.threads t).spot = .held i .chainEnd st) :
      Move n s t .advance
        (s.setThread t { s.threads t with spot := .unlock i st false, linkRing := none })
  | unlock (i : ℕ) (st again : Bool) (h : (s.threads t).spot = .unlock i st again) :
      Move n s t .advance (s.ringUnlock t i st again)
  | fastEnd (i : ℕ) (h : (s.threads t).spot = .fastEnd i) : Move n s t .advance (s.goto t .idle)
  | cqUsers (i : ℕ) (up : Bool) (x : ℤ) :
      Move n s t (.cqUsers i up) (s.setRing i { s.rings i with stCqUsers := x })

variable {n : ℕ} {s s' : LockState T} {t : T}

theorem Move.of_submitBegin (h : (s.threads t).spot = .idle) :
    Move n s t .submit (s.submitBegin t n) := by
  cases hlink : (s.threads t).linkRing with
  | some i =>
      simp only [submitBegin, hlink]
      exact .submitLinked i h hlink
  | none =>
      simp only [submitBegin, hlink, selectRing]
      split_ifs with hsingle
      · rw [Bool.and_eq_true, decide_eq_true_iff, Bool.not_eq_true'] at hsingle
        exact .submitSingle h hlink hsingle.1 hsingle.2
      · cases howned : (s.threads t).ownedRing with
        | some i => exact .submitOwned i h hlink howned
        | none => exact .submitClaim _ _ h hlink howned

theorem Move.of_submitEnd {i : ℕ} {st : Bool} (h : (s.threads t).spot.Submits i st) :
    Move n s t .finish (s.submitEnd t i st) := by
  cases hlink : (s.threads t).linkRing with
  | some a =>
      have hne : (s.threads t).linkRing ≠ none := hlink ▸ Option.some_ne_none a
      cases st with
      | true => simpa [submitEnd, hlink] using Move.finishRelock i h hne
      | false => simpa [submitEnd, hlink] using Move.finishChain i h hne
  | none =>
      cases hsole : (s.rings i).singleThread with
      | true => simpa [submitEnd, hlink, hsole] using Move.finishFast i st h hsole hlink
      | false => simpa [submitEnd, hlink, hsole] using Move.finish i st h hsole hlink

theorem Move.of_ringLock {i : ℕ} {use : LockUse} {stage : LockStage}
    (hspot : (s.threads t).spot = .lock stage i use) (h : s.ringLock t i use stage = some s') :
    Move n s t .advance s' := by
  cases stage with
  | load =>
      cases h
      exact .load i use hspot
  | bump =>
      cases h
      exact .bump i use hspot
  | recheck =>
      cases h
      cases hsingle : (s.rings i).singleThread with
      | true => exact .recheck i use hspot hsingle
      | false => exact .recheckCleared i use hspot hsingle
  | back =>
      cases h
      exact .back i use hspot
  | mutex =>
      rw [LockState.ringLock] at h
      split_ifs at h with hfree
      cases h
      exact .mutex i use hspot (Option.isNone_iff_eq_none.1 hfree)

theorem Move.of_advance (h : s.advance t = some s') : Move n s t .advance s' := by
  cases hspot : (s.threads t).spot with
  | addOwner i =>
      simp only [advance, hspot, Option.some.injEq] at h
      exact h ▸ .addOwner i hspot
  | storeFirst i =>
      simp only [advance, hspot, Option.some.injEq] at h
      exact h ▸ .storeFirst i hspot
  | storeShared i =>
      simp only [advance, hspot, Option.some.injEq] at h
      exact h ▸ .storeShared i hspot
  | waitUsers i =>
      simp only [advance, hspot] at h
      split_ifs at h with husers
      · cases h
        exact .spin
      · cases h
        exact .usersGone i hspot (Int.not_lt.1 husers)
  | waitCqUsers i =>
      simp only [advance, hspot] at h
      split_ifs at h
      · cases h
        exact .spin
      · cases h
        exact .cqUsersGone i hspot
  | entered i =>
      simp only [advance, hspot, Option.some.injEq] at h
      subst h
      split_ifs with hfast
      · rw [Bool.and_eq_true, Option.isNone_iff_eq_none] at hfast
        exact .enterFast i hspot hfast.1 hfast.2
      · refine .enterLock i hspot fun hlink => ?_
        rw [hlink, Option.isNone_none, Bool.and_true, Bool.not_eq_true] at hfast
        exact hfast
  | fastEnd i =>
      simp only [advance, hspot, Option.some.injEq] at h
      exact h ▸ .fastEnd i hspot
  | lock stage i use =>
      simp only [advance, hspot] at h
      exact .of_ringLock hspot h
  | held i use st =>
      cases use with
      | chainEnd =>
          simp only [advance, hspot, Option.some.injEq] at h
          exact h ▸ .flushChain i st hspot
      | other => simp only [advance, hspot, reduceCtorEq] at h
      | submission => simp only [advance, hspot, reduceCtorEq] at h
  | unlock i st again =>
      simp only [advance, hspot, Option.some.injEq] at h
      exact h ▸ .unlock i st again hspot
  | idle => simp only [advance, hspot, reduceCtorEq] at h
  | fast i => simp only [advance, hspot, reduceCtorEq] at h

/-- Every step is one of these. -/
theorem move_of_step {op : LockOp} (h : step n s (t, op) = some s') : Move n s t op s' := by
  unfold step at h
  dsimp only at h
  split at h
  case h_1 hspot =>
    cases h
    exact .of_submitBegin hspot
  case h_2 => exact .of_advance h
  case h_3 i hspot =>
    cases h
    exact .enable i hspot
  case h_4 i hspot =>
    cases h
    exact .refuseFast i hspot
  case h_5 i st hspot =>
    cases h
    exact .refuse i st hspot
  case h_6 i st hspot =>
    cases h
    exact .makeRoom i st hspot
  case h_7 hspot =>
    split at h
    case h_1 i rest hsuspended =>
      cases h
      exact .resume i rest hspot hsuspended
    case h_2 => cases h
  case h_8 i hspot =>
    cases h
    exact .of_submitEnd (.inl ⟨hspot, rfl⟩)
  case h_9 i st hspot =>
    cases h
    exact .of_submitEnd (.inr hspot)
  case h_10 i hspot =>
    cases h
    exact .abort i true (.inl ⟨hspot, rfl⟩)
  case h_11 i st hspot =>
    cases h
    exact .abort i st (.inr hspot)
  case h_12 hspot =>
    cases h
    exact .link hspot
  case h_13 i hspot =>
    cases h
    exact .ringLock i hspot
  case h_14 i hspot =>
    cases h
    exact .giveUp i hspot
  case h_15 i st hspot =>
    cases h
    exact .ringUnlock i st hspot
  case h_16 i up =>
    cases h
    exact .cqUsers i up _
  case h_17 => cases h

end LockState

end Aura
