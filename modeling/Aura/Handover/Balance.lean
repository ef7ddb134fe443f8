import Aura.Handover.Machine
import Mathlib.Algebra.BigOperators.Ring.Finset
import Mathlib.Algebra.Ring.Int.Defs

/-!
# Every acquisition is released

The ledger of a thread says how often it has acquired the lock of a ring less how often it has
released it. It should agree with where the thread is; then `st_users` is the number of threads that
are between an acquisition and a release by the count, and the mutex is held by the one that is
between an acquisition and a release of it.

* `LockState.ReleasesInKind` — the condition on a step: a submission releases what it has acquired.
* `kept_move_iff` — a step keeps the agreement if and only if it meets the condition.
* **`lock_balanced_iff`** — all states of a run are balanced if and only if all its steps meet it.
* `chain_leaks` — after a chain of two operations `st_users` is one too high.
-/

namespace Aura

open Lib

/-- Is the lock of ring `i` held at this spot, by the count (`true`) or by the mutex (`false`)? -/
def Spot.holds (i : ℕ) (st : Bool) : Spot → Bool
  | .lock .recheck j _ => i == j && st == true
  | .lock .back j _ => i == j && st == true
  | .held j _ st' => i == j && st == st'
  | .unlock j st' _ => i == j && st == st'
  | _ => false

namespace LockState

variable {T : Type*} [DecidableEq T] {n : ℕ} {s s' : LockState T} {t : T} {i : ℕ} {st : Bool}

/-- The ledgers and the mutexes agree with where the threads are. -/
structure Kept (s : LockState T) : Prop where
  net : ∀ t i st, s.net t i st = if (s.threads t).spot.holds i st then 1 else 0
  mutex : ∀ i t, (s.rings i).lock = some t ↔ (s.threads t).spot.holds i false = true

/-- Each `st_users` is the sum of the ledgers. -/
def Counted [Fintype T] (s : LockState T) : Prop :=
  ∀ i, (s.rings i).stUsers = ∑ t, s.net t i true

/-- **The lock is balanced.** -/
structure Balanced [Fintype T] (s : LockState T) : Prop where
  /-- What a thread has acquired it has released once, in the same kind, but for what it holds. -/
  matched : ∀ t i st, s.net t i st = if (s.threads t).spot.holds i st then 1 else 0
  /-- `st_users` is the number of threads inside by the count. -/
  users : ∀ i, (s.rings i).stUsers =
    (Finset.univ.filter fun t => (s.threads t).spot.holds i true = true).card
  nonneg : ∀ i, 0 ≤ (s.rings i).stUsers
  mutex : ∀ i t, (s.rings i).lock = some t ↔ (s.threads t).spot.holds i false = true
  /-- When no thread is in a function of the library, nothing is held. -/
  quiet : (∀ t, (s.threads t).spot = .idle ∧ (s.threads t).suspended = []) →
    ∀ i, (s.rings i).stUsers = 0 ∧ (s.rings i).lock = none

/-- **The condition on a step**: a submission that went without the lock ends while the ring is
still the thread's own, and is not aborted; one that took the lock ends while the ring is not its
own, or, at the tail of a chain, holds the mutex. -/
def releasesInKind (s : LockState T) (l : T × LockOp) : Bool :=
  match l.2, (s.threads l.1).spot with
  | .finish, .fast i => (s.threads l.1).linkRing.isSome || (s.rings i).singleThread
  | .finish, .held i .submission st =>
    if (s.threads l.1).linkRing.isSome then !st else !(s.rings i).singleThread
  | .abort, .fast _ => false
  | _, _ => true

/-! ## Steps -/

theorem lock_acquire (j : ℕ) : ((s.acquire t i st).rings j).lock =
    if j = i ∧ st = false then some t else (s.rings j).lock := by
  change ((s.setRing i _).rings j).lock = _
  by_cases hj : j = i
  · subst hj
    cases st <;> simp
  · simp [hj]

theorem lock_release (j : ℕ) : ((s.release t i st).rings j).lock =
    if j = i ∧ st = false then none else (s.rings j).lock := by
  change ((s.setRing i _).rings j).lock = _
  by_cases hj : j = i
  · subst hj
    cases st <;> simp
  · simp [hj]

theorem Kept.spot (h : Kept s) (x : LockThread) :
    Kept (s.setThread t x) ↔ ∀ i st, x.spot.holds i st = (s.threads t).spot.holds i st := by
  constructor
  · intro h' i st
    have hnet := (h'.net t i st).symm.trans (h.net t i st)
    rw [threads_setThread_self] at hnet
    cases hx : x.spot.holds i st <;> cases hs : (s.threads t).spot.holds i st <;>
      simp [hx, hs] at hnet ⊢
  · intro hx
    have hspot : ∀ u j k, ((s.setThread t x).threads u).spot.holds j k =
        (s.threads u).spot.holds j k := by
      intro u j k
      by_cases hu : u = t
      · subst hu
        rw [threads_setThread_self, hx]
      · rw [threads_setThread_of_ne _ _ hu]
    constructor
    · intro u j k
      rw [net_setThread, h.net, hspot]
    · intro j u
      rw [rings_setThread, h.mutex, hspot]

omit [DecidableEq T] in
/-- Other fields of a ring do not matter. -/
theorem Kept.setRing (h : Kept s) {r : RingWords T} (hr : r.lock = (s.rings i).lock) :
    Kept (s.setRing i r) where
  net := h.net
  mutex j u := by
    by_cases hj : j = i
    · subst hj
      rw [rings_setRing_self, hr]
      exact h.mutex j u
    · rw [rings_setRing_of_ne _ _ hj]
      exact h.mutex j u

/-- The thread holds what it has acquired. -/
theorem Kept.acquire (h : Kept s) {x : LockThread}
    (hx : ∀ j k, x.spot.holds j k = ((s.threads t).spot.holds j k || (j == i && k == st)))
    (hnot : (s.threads t).spot.holds i st = false) (hfree : st = false → (s.rings i).lock = none) :
    Kept ((s.acquire t i st).setThread t x) := by
  constructor
  · intro u j k
    change s.net u j k + (if u = t ∧ j = i ∧ k = st then 1 else 0) = _
    rw [h.net]
    by_cases hu : u = t
    · subst hu
      rw [threads_setThread_self, hx]
      by_cases hjk : j = i ∧ k = st
      · obtain ⟨rfl, rfl⟩ := hjk
        simp [hnot]
      · have hother : (j == i && k == st) = false := by
          rw [← Bool.not_eq_true, Bool.and_eq_true, beq_iff_eq, beq_iff_eq]
          exact hjk
        have hentry : (if u = u ∧ j = i ∧ k = st then (1 : ℤ) else 0) = 0 := if_neg fun h => hjk h.2
        rw [hother, Bool.or_false, hentry, add_zero]
    · have hentry : (if u = t ∧ j = i ∧ k = st then (1 : ℤ) else 0) = 0 := if_neg fun h => hu h.1
      rw [threads_setThread_of_ne _ _ hu, hentry, add_zero]
      rfl
  · intro j u
    rw [rings_setThread, lock_acquire]
    by_cases hu : u = t
    · subst hu
      rw [threads_setThread_self, hx, Bool.or_eq_true, ← h.mutex]
      by_cases hj : j = i ∧ st = false
      · simp [hj]
      · simp [hj]
    · rw [threads_setThread_of_ne _ _ hu]
      refine Iff.trans ?_ (h.mutex j u)
      by_cases hj : j = i ∧ st = false
      · simp [hj, hfree hj.2, Ne.symm hu]
      · simp [hj]

/-- The thread no longer holds what it has released. -/
theorem Kept.release (h : Kept s) {x : LockThread}
    (hx : ∀ j k, x.spot.holds j k = ((s.threads t).spot.holds j k && !(j == i && k == st)))
    (hhold : (s.threads t).spot.holds i st = true) :
    Kept ((s.release t i st).setThread t x) := by
  constructor
  · intro u j k
    change s.net u j k + (if u = t ∧ j = i ∧ k = st then -1 else 0) = _
    rw [h.net]
    by_cases hu : u = t
    · subst hu
      rw [threads_setThread_self, hx]
      by_cases hjk : j = i ∧ k = st
      · obtain ⟨rfl, rfl⟩ := hjk
        simp [hhold]
      · have hother : (j == i && k == st) = false := by
          rw [← Bool.not_eq_true, Bool.and_eq_true, beq_iff_eq, beq_iff_eq]
          exact hjk
        have hentry : (if u = u ∧ j = i ∧ k = st then (-1 : ℤ) else 0) = 0 :=
          if_neg fun h => hjk h.2
        rw [hother, Bool.not_false, Bool.and_true, hentry, add_zero]
    · have hentry : (if u = t ∧ j = i ∧ k = st then (-1 : ℤ) else 0) = 0 := if_neg fun h => hu h.1
      rw [threads_setThread_of_ne _ _ hu, hentry, add_zero]
      rfl
  · intro j u
    rw [rings_setThread, lock_release]
    by_cases hu : u = t
    · subst hu
      rw [threads_setThread_self, hx, Bool.and_eq_true, ← h.mutex]
      by_cases hj : j = i ∧ st = false
      · simp [hj]
      · have hother : (j == i && false == st) = false := by
          rw [← Bool.not_eq_true, Bool.and_eq_true, beq_iff_eq, beq_iff_eq]
          exact fun h => hj ⟨h.1, h.2.symm⟩
        rw [if_neg hj, hother]
        simp
    · rw [threads_setThread_of_ne _ _ hu]
      refine Iff.trans ?_ (h.mutex j u)
      by_cases hj : j = i ∧ st = false
      · obtain ⟨rfl, rfl⟩ := hj
        have hlock : (s.rings j).lock = some t := (h.mutex j t).2 hhold
        simp [hlock, Ne.symm hu]
      · simp [hj]

/-- A thread moves to a spot where it holds the same. -/
theorem Kept.same (h : Kept s) {x : LockThread}
    (hx : ∀ j k, x.spot.holds j k = (s.threads t).spot.holds j k) {p : Prop} (hp : p) :
    Kept (s.setThread t x) ↔ p :=
  iff_of_true ((h.spot x).2 hx) hp

/-- A thread moves to a spot where it does not hold the same. -/
theorem Kept.other (h : Kept s) {x : LockThread} (j : ℕ) (k : Bool)
    (hx : x.spot.holds j k ≠ (s.threads t).spot.holds j k) {p : Prop} (hp : ¬ p) :
    Kept (s.setThread t x) ↔ p :=
  iff_of_false (fun h' => hx ((h.spot x).1 h' j k)) hp

/-- **A step keeps the agreement if and only if it meets the condition.** -/
theorem kept_move_iff {op : LockOp} (h : Kept s) (hmove : Move n s t op s') :
    Kept s' ↔ s.releasesInKind (t, op) = true := by
  cases hmove with
  | submitLinked i hspot => exact h.same (fun j k => by rw [hspot]; rfl) rfl
  | submitSingle hspot => exact h.same (fun j k => by rw [hspot]; rfl) rfl
  | submitOwned i hspot => exact h.same (fun j k => by rw [hspot]; rfl) rfl
  | submitClaim next i hspot =>
      have hnext : Kept { s with nextRing := next } := ⟨h.net, h.mutex⟩
      exact hnext.same (fun j k => by change _ = (s.threads t).spot.holds j k; rw [hspot]; rfl) rfl
  | addOwner i hspot =>
      have hring : Kept (s.setRing i
          { s.rings i with ownerCount := (s.rings i).ownerCount + 1 }) := h.setRing rfl
      refine hring.same (fun j k => ?_) rfl
      rw [threads_setRing, hspot]
      dsimp only
      split_ifs <;> rfl
  | enable i hspot => exact iff_of_true (h.setRing rfl) rfl
  | storeFirst i hspot =>
      have hring : Kept (s.setRing i { s.rings i with singleThread := true }) := h.setRing rfl
      exact hring.same (fun j k => by rw [threads_setRing, hspot]; rfl) rfl
  | storeShared i hspot =>
      have hring : Kept (s.setRing i { s.rings i with singleThread := false }) := h.setRing rfl
      exact hring.same (fun j k => by rw [threads_setRing, hspot]; rfl) rfl
  | spin => exact iff_of_true h rfl
  | usersGone i hspot => exact h.same (fun j k => by rw [hspot]; rfl) rfl
  | cqUsersGone i hspot => exact h.same (fun j k => by rw [hspot]; rfl) rfl
  | enterFast i hspot => exact h.same (fun j k => by rw [hspot]; rfl) rfl
  | enterLock i hspot => exact h.same (fun j k => by rw [hspot]; rfl) rfl
  | load i use hspot =>
      refine h.same (fun j k => ?_) rfl
      rw [hspot]
      dsimp only
      split_ifs <;> rfl
  | bump i use hspot =>
      refine iff_of_true (h.acquire (fun j k => ?_) ?_ fun hfalse => ?_) rfl
      · rw [hspot]
        rfl
      · rw [hspot]
        rfl
      · exact absurd hfalse.symm Bool.false_ne_true
  | recheck i use hspot => exact h.same (fun j k => by rw [hspot]; rfl) rfl
  | recheckCleared i use hspot => exact h.same (fun j k => by rw [hspot]; rfl) rfl
  | back i use hspot =>
      refine iff_of_true (h.release (fun j k => ?_) ?_) rfl
      · rw [hspot]
        exact (Bool.and_not_self _).symm
      · rw [hspot]
        simp [Spot.holds]
  | mutex i use hspot hfree =>
      refine iff_of_true (h.acquire (fun j k => ?_) ?_ fun _ => hfree) rfl
      · rw [hspot]
        rfl
      · rw [hspot]
        rfl
  | refuseFast i hspot => exact h.same (fun j k => by rw [hspot]; rfl) rfl
  | refuse i st hspot => exact h.same (fun j k => by rw [hspot]; rfl) rfl
  | makeRoom i st hspot => exact h.same (fun j k => by rw [hspot]; rfl) rfl
  | resume i rest hspot => exact h.same (fun j k => by rw [hspot]; rfl) rfl
  | finishFast i st hspot hsole hlink =>
      rcases hspot with ⟨hspot, -⟩ | hspot
      · refine h.same (fun j k => by rw [hspot]; rfl) ?_
        simp [releasesInKind, hspot, hsole]
      · refine h.other i st ?_ ?_
        · rw [hspot]
          simp [Spot.holds]
        · simp [releasesInKind, hspot, hlink, hsole]
  | finishRelock i hspot hlink =>
      rcases hspot with ⟨hspot, -⟩ | hspot
      · refine h.same (fun j k => by rw [hspot]; rfl) ?_
        simp [releasesInKind, hspot, Option.isSome_iff_ne_none.2 hlink]
      · refine h.other i true ?_ ?_
        · rw [hspot]
          simp [Spot.holds]
        · simp [releasesInKind, hspot, Option.isSome_iff_ne_none.2 hlink]
  | finishChain i hspot hlink =>
      rcases hspot with ⟨-, hfalse⟩ | hspot
      · exact absurd hfalse Bool.false_ne_true
      · refine h.same (fun j k => by rw [hspot]; rfl) ?_
        simp [releasesInKind, hspot, Option.isSome_iff_ne_none.2 hlink]
  | finish i st hspot hsole hlink =>
      rcases hspot with ⟨hspot, rfl⟩ | hspot
      · refine h.other i true ?_ ?_
        · rw [hspot]
          simp [Spot.holds]
        · simp [releasesInKind, hspot, hlink, hsole]
      · refine h.same (fun j k => by rw [hspot]; rfl) ?_
        simp [releasesInKind, hspot, hlink, hsole]
  | abort i st hspot =>
      rcases hspot with ⟨hspot, rfl⟩ | hspot
      · refine h.other i true ?_ ?_
        · rw [hspot]
          simp [Spot.holds]
        · simp [releasesInKind, hspot]
      · refine h.same (fun j k => by rw [hspot]; rfl) ?_
        simp [releasesInKind, hspot]
  | link hspot => exact h.same (fun j k => by rw [hspot]) rfl
  | ringLock i hspot => exact h.same (fun j k => by rw [hspot]; rfl) rfl
  | giveUp i hspot => exact h.same (fun j k => by rw [hspot]; rfl) rfl
  | ringUnlock i st hspot => exact h.same (fun j k => by rw [hspot]; rfl) rfl
  | flushChain i st hspot => exact h.same (fun j k => by rw [hspot]; rfl) rfl
  | unlock i st again hspot =>
      refine iff_of_true (h.release (fun j k => ?_) ?_) rfl
      · rw [hspot]
        exact (Bool.and_not_self _).symm
      · rw [hspot]
        simp [Spot.holds]
  | fastEnd i hspot => exact h.same (fun j k => by rw [hspot]; rfl) rfl
  | cqUsers i up x => exact iff_of_true (h.setRing rfl) rfl

/-! ## Counting -/

section

variable [Fintype T]

/-- An entry counts once. -/
theorem sum_enter (d : ℤ) (j : ℕ) : ∑ u, (s.enter t i st d).net u j true =
    ∑ u, s.net u j true + if j = i ∧ true = st then d else 0 := by
  have hsplit : ∀ u, (s.enter t i st d).net u j true =
      s.net u j true + if u = t then if j = i ∧ true = st then d else 0 else 0 := by
    intro u
    change s.net u j true + (if u = t ∧ j = i ∧ true = st then d else 0) = _
    rw [ite_and]
  rw [Finset.sum_congr rfl fun u _ => hsplit u, Finset.sum_add_distrib]
  simp

omit [DecidableEq T] in
theorem Counted.setRing (h : Counted s) {r : RingWords T}
    (hr : r.stUsers = (s.rings i).stUsers) : Counted (s.setRing i r) := by
  intro j
  by_cases hj : j = i
  · subst hj
    rw [rings_setRing_self, hr]
    exact h j
  · rw [rings_setRing_of_ne _ _ hj]
    exact h j

theorem Counted.acquire (h : Counted s) : Counted (s.acquire t i st) := by
  intro j
  refine Eq.trans ?_ (sum_enter 1 j).symm
  rw [net_setRing, ← h j]
  change ((s.setRing i _).rings j).stUsers = _
  by_cases hj : j = i
  · subst hj
    cases st <;> simp
  · simp [hj]

theorem Counted.release (h : Counted s) : Counted (s.release t i st) := by
  intro j
  refine Eq.trans ?_ (sum_enter (-1) j).symm
  rw [net_setRing, ← h j]
  change ((s.setRing i _).rings j).stUsers = _
  by_cases hj : j = i
  · subst hj
    cases st <;> simp [sub_eq_add_neg]
  · simp [hj]

/-- Every step keeps the count. -/
theorem Counted.move {op : LockOp} (h : Counted s) (hmove : Move n s t op s') : Counted s' := by
  cases hmove with
  | addOwner i => exact Counted.setRing (s := s) h rfl
  | enable i => exact h.setRing rfl
  | storeFirst i => exact Counted.setRing (s := s) h rfl
  | storeShared i => exact Counted.setRing (s := s) h rfl
  | bump i use => exact h.acquire
  | back i use => exact h.release
  | mutex i use => exact h.acquire
  | unlock i st again => exact h.release
  | cqUsers i up x => exact h.setRing rfl
  | _ => exact h

omit [DecidableEq T] in
/-- Where the ledgers and mutexes agree with the spots, the lock is balanced. -/
theorem Counted.balanced_iff (h : Counted s) : Balanced s ↔ Kept s := by
  constructor
  · intro hb
    exact ⟨hb.matched, hb.mutex⟩
  · intro hk
    have husers : ∀ i, (s.rings i).stUsers =
        (Finset.univ.filter fun t => (s.threads t).spot.holds i true = true).card := by
      intro i
      rw [h i, Finset.sum_congr rfl fun t _ => hk.net t i true, Finset.sum_boole]
    refine ⟨hk.net, husers, fun i => ?_, hk.mutex, fun hquiet i => ⟨?_, ?_⟩⟩
    · rw [husers]
      exact Int.natCast_nonneg _
    · rw [husers, Finset.filter_false_of_mem, Finset.card_empty]
      · rfl
      · intro t _
        rw [(hquiet t).1]
        exact Bool.false_ne_true
    · cases hlock : (s.rings i).lock with
      | none => rfl
      | some t =>
          have hholds := (hk.mutex i t).1 hlock
          rw [(hquiet t).1] at hholds
          exact absurd hholds Bool.false_ne_true

end

end LockState

/-! ## Runs -/

section

variable {T : Type*} [DecidableEq T] [Fintype T] {n : ℕ} {s s' : LockState T}
  {ls : List (T × LockOp)}

open LockState

theorem counted_init (h : (lockSystem T n).init s) : Counted s ∧ Kept s := by
  obtain ⟨single, needsEnable, nextRing, rfl⟩ := h
  refine ⟨fun i => ?_, fun t i st => rfl, fun i t => ?_⟩
  · exact Finset.sum_const_zero.symm
  · exact iff_of_false (fun h => Option.some_ne_none t h.symm) Bool.false_ne_true

/-- **`st_users` and the mutex are balanced** in every state of a run if and only if each submission
releases what it has acquired, in the kind in which it has acquired it. -/
theorem lock_balanced_iff (hinit : (lockSystem T n).init s) (hrun : Run (lockSystem T n) s ls s') :
    (∀ ms u, ms <+: ls → Run (lockSystem T n) s ms u → Balanced u) ↔
      Run ((lockSystem T n).restrict fun s l => s.releasesInKind l = true) s ls s' := by
  obtain ⟨hcounted, hkept⟩ := counted_init hinit
  refine Run.restrict_iff_of_prefix Counted System.ofFn_deterministic ?_ ?_ hrun hcounted
    (hcounted.balanced_iff.2 hkept)
  · intro s l s' hs hstep
    exact hs.move (move_of_step hstep)
  · intro s l s' hs hgood hstep
    rw [(hs.move (move_of_step hstep)).balanced_iff]
    exact kept_move_iff (hs.balanced_iff.1 hgood) (move_of_step hstep)

/-- A thread on an engine with one ring, which its first owner has to enable. -/
def soloStart : LockState Unit := LockState.start Unit false (fun _ => true) 0

/-- The claim of the ring and a submission without the lock. -/
def firstSubmission : List (Unit × LockOp) :=
  [((), .submit), ((), .advance), ((), .advance), ((), .advance), ((), .finish), ((), .advance)]

/-- A first submission is balanced throughout. -/
theorem first_submission_balanced : ∃ s', Run (lockSystem Unit 1) soloStart firstSubmission s' ∧
    ∀ ms u, ms <+: firstSubmission → Run (lockSystem Unit 1) soloStart ms u → Balanced u := by
  have hinit : (lockSystem Unit 1).init soloStart := ⟨false, fun _ => true, 0, rfl⟩
  have hexec : (execute
      (fun s l => if s.releasesInKind l = true then LockState.step 1 s l else none)
      soloStart firstSubmission).isSome = true := by decide
  obtain ⟨s', hs'⟩ := Option.isSome_iff_exists.1 hexec
  have hrun : Run ((lockSystem Unit 1).restrict fun s l => s.releasesInKind l = true) soloStart
      firstSubmission s' := Run.of_guarded hs'
  exact ⟨s', hrun.of_restrict, (lock_balanced_iff hinit hrun.of_restrict).2 hrun⟩

/-- The chain that follows: the first operation is linked, and the second ends it. -/
def secondChain : List (Unit × LockOp) :=
  [((), .link), ((), .submit), ((), .advance), ((), .advance), ((), .advance), ((), .advance),
    ((), .finish), ((), .advance), ((), .advance), ((), .advance), ((), .advance), ((), .advance)]

/-- After a chain of two operations no thread is in the library, and `st_users` is one. -/
theorem chain_leaks : ∃ s, Reachable (lockSystem Unit 1) s ∧
    (∀ t, (s.threads t).spot = .idle ∧ (s.threads t).suspended = []) ∧
    (s.rings 0).stUsers = 1 ∧ ¬ Balanced s := by
  have hexec : ((execute (LockState.step 1) soloStart (firstSubmission ++ secondChain)).any fun s =>
      s.threads () = { ownedRing := some 0, lastRing := some 0 } && (s.rings 0).stUsers = 1) =
      true := by decide
  obtain ⟨s, hs, hchecks⟩ := (Option.any_eq_true _ _).1 hexec
  rw [Bool.and_eq_true, decide_eq_true_iff, decide_eq_true_iff] at hchecks
  obtain ⟨hthread, husers⟩ := hchecks
  have hquiet : ∀ t, (s.threads t).spot = .idle ∧ (s.threads t).suspended = [] := by
    intro t
    rw [hthread]
    exact ⟨rfl, rfl⟩
  refine ⟨s, Reachable.of_execute ⟨false, fun _ => true, 0, rfl⟩ hs, hquiet, husers, fun hb => ?_⟩
  rw [(hb.quiet hquiet 0).1] at husers
  exact absurd husers (by decide)

end

end Aura
