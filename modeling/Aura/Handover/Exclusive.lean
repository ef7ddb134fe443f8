import Aura.Handover.Balance

/-!
# From one thread to several

A ring goes from its first owner, who submits without the lock, to a mutex shared by all its owners.
The second owner clears the flag and waits for `st_users`; the path without the lock does not count
there, and the first owner may set the flag again.

* `LockState.handsOver` — the condition on a step: nobody joins a ring before its first owner has
  set the flag, and nobody clears it while another thread submits without the lock.
* `LockState.Orderly` — the invariant of the runs whose steps all meet it.
* **`handover_exclusive`** — in them no two threads are in the critical section of one ring, and
  once two threads have claimed a ring its flag is clear for ever.
* `handover_overlaps` — without the condition two threads are.
-/

namespace Aura

open Lib

/-! ## Spots -/

namespace Spot

/-- The ring that the thread works with. -/
def ring : Spot → Option ℕ
  | entered i | fast i | fastEnd i | lock _ i _ | held i _ _ | unlock i _ _ => some i
  | _ => none

/-- The ring whose critical section the thread is in: with the lock, or without on the path of the
sole owner. -/
def inside : Spot → Option ℕ
  | fast i | fastEnd i | held i _ _ | unlock i _ _ => some i
  | _ => none

/-- The ring whose `owner_count` counts the thread, before the claim is complete. -/
def claims : Spot → Option ℕ
  | storeFirst i | storeShared i | waitUsers i | waitCqUsers i => some i
  | _ => none

/-- The ring on which the thread submits without the lock. -/
def lockless : Spot → Option ℕ
  | fast i | fastEnd i => some i
  | _ => none

/-- The ring whose users the thread waits for. -/
def waits : Spot → Option ℕ
  | waitUsers i | waitCqUsers i => some i
  | _ => none

/-- The ring on which the thread submits with the lock. -/
def locked : Spot → Option ℕ
  | lock _ i .submission | held i .submission _ | unlock i _ true => some i
  | _ => none

/-- The ring in whose critical section the thread is by the count. -/
def counted : Spot → Option ℕ
  | held i _ true | unlock i true _ => some i
  | _ => none

theorem holds_of_counted {x : Spot} {i : ℕ} (h : x.counted = some i) : x.holds i true = true := by
  unfold counted at h
  split at h <;> simp_all [holds]

theorem locked_lock (stage stage' : LockStage) (i : ℕ) (use : LockUse) :
    (lock stage i use).locked = (lock stage' i use).locked := by
  cases use <;> rfl

theorem locked_held (stage : LockStage) (i : ℕ) (use : LockUse) (st : Bool) :
    (held i use st).locked = (lock stage i use).locked := by
  cases use <;> rfl

theorem counted_unlock (i : ℕ) (use : LockUse) (st again : Bool) :
    (unlock i st again).counted = (held i use st).counted := by
  cases st <;> rfl

end Spot

namespace LockState

variable {T : Type*} [DecidableEq T] {n : ℕ} {s s' : LockState T} {t : T} {i : ℕ}

/-! ## The condition -/

/-- Claims, submissions and the lock of the claimed ring: no chains, no aborts, and no ring that the
thread has not claimed. -/
def inScope (n : ℕ) (s : LockState T) (l : T × LockOp) : Bool :=
  match l.2 with
  | .link | .abort => false
  | .ringLock i => (s.threads l.1).ownedRing = some i
  | .submit => !(n = 1 && !(s.rings 0).needsEnable) || (s.threads l.1).ownedRing = some 0
  | _ => true

/-- **The condition on a step.** -/
def handsOver [Fintype T] (s : LockState T) (l : T × LockOp) : Bool :=
  match l.2, (s.threads l.1).spot with
  | .advance, .addOwner i => decide (∀ u, (s.threads u).spot ≠ .storeFirst i)
  | .advance, .storeShared i => decide (∀ u, (s.threads u).spot.lockless ≠ some i)
  | _, _ => true

/-! ## The invariant -/

/-- What holds of one thread, given the flags of the rings. -/
structure ThreadOk (flag : ℕ → Bool) (x : LockThread) : Prop where
  link : x.linkRing = none
  ring : ∀ i, x.spot.ring = some i → x.ownedRing = some i
  suspended : ∀ i ∈ x.suspended, x.ownedRing = some i ∧ flag i = false
  claims : ∀ i, x.spot = .addOwner i ∨ x.spot.claims = some i → x.ownedRing = none
  lockless : ∀ i, x.spot.lockless = some i → flag i = true
  waits : ∀ i, x.spot.waits = some i → flag i = false
  locked : ∀ i, x.spot.locked = some i → flag i = false

/-- The thread is counted as an owner. -/
def Past (x : LockThread) (i : ℕ) : Prop := x.spot.claims = some i ∨ x.ownedRing = some i

/-- `single_thread` of a ring. -/
def flag (s : LockState T) (i : ℕ) : Bool := (s.rings i).singleThread

/-- **The hand-over is orderly.** -/
structure Orderly (s : LockState T) : Prop where
  thread : ∀ t, ThreadOk s.flag (s.threads t)
  nonneg : ∀ i, 0 ≤ (s.rings i).ownerCount
  owners : ∀ t i, Past (s.threads t) i → 0 < (s.rings i).ownerCount
  /-- The first owner is alone until it has set the flag. -/
  first : ∀ t i, (s.threads t).spot = .storeFirst i → ∀ u, Past (s.threads u) i → u = t
  shared : ∀ t u i, t ≠ u → (s.threads t).ownedRing = some i → (s.threads u).ownedRing = some i →
    s.flag i = false
  /-- Whoever was inside by the count has left. -/
  drained : ∀ t i, (s.threads t).spot = .waitCqUsers i ∨
    ((s.threads t).ownedRing = some i ∧ ∃ u, u ≠ t ∧ (s.threads u).ownedRing = some i) →
    ∀ v, (s.threads v).spot.counted ≠ some i

/-- A thread does not depend on the flags of rings that it has not claimed. -/
theorem ThreadOk.congr {flag flag' : ℕ → Bool} {x : LockThread} (h : ThreadOk flag x)
    (heq : ∀ i, Past x i → flag' i = flag i) : ThreadOk flag' x where
  link := h.link
  ring := h.ring
  suspended i hi := by
    obtain ⟨howned, hflag⟩ := h.suspended i hi
    exact ⟨howned, (heq i (.inr howned)).trans hflag⟩
  claims := h.claims
  lockless i hi := by
    have hring : x.spot.ring = some i := by
      unfold Spot.lockless at hi
      split at hi <;> simp_all [Spot.ring]
    exact (heq i (.inr (h.ring i hring))).trans (h.lockless i hi)
  waits i hi := by
    have hclaims : x.spot.claims = some i := by
      unfold Spot.waits at hi
      split at hi <;> simp_all [Spot.claims]
    exact (heq i (.inl hclaims)).trans (h.waits i hi)
  locked i hi := by
    have hring : x.spot.ring = some i := by
      unfold Spot.locked at hi
      split at hi <;> simp_all [Spot.ring]
    exact (heq i (.inr (h.ring i hring))).trans (h.locked i hi)

/-- **No two threads are in the critical section of one ring.** -/
theorem Orderly.exclusive (h : Orderly s) (hkept : Kept s) {u : T}
    (ht : (s.threads t).spot.inside = some i) (hu : (s.threads u).spot.inside = some i) :
    t = u := by
  by_contra hne
  have hring : ∀ v, (s.threads v).spot.inside = some i → (s.threads v).ownedRing = some i := by
    intro v hv
    apply (h.thread v).ring
    unfold Spot.inside at hv
    split at hv <;> simp_all [Spot.ring]
  have hflag := h.shared t u i hne (hring t ht) (hring u hu)
  have hcounted := h.drained t i (.inr ⟨hring t ht, u, Ne.symm hne, hring u hu⟩)
  -- So both hold the mutex.
  have hlock : ∀ v, (s.threads v).spot.inside = some i → (s.rings i).lock = some v := by
    intro v hv
    rw [hkept.mutex]
    have hno := hcounted v
    have hfast : (s.threads v).spot.lockless ≠ some i := by
      intro hfast
      exact absurd (hflag.symm.trans ((h.thread v).lockless i hfast)) Bool.false_ne_true
    cases hspot : (s.threads v).spot with
    | held j use st => cases st <;> simp_all [Spot.inside, Spot.counted, Spot.holds]
    | unlock j st again => cases st <;> simp_all [Spot.inside, Spot.counted, Spot.holds]
    | _ => simp_all [Spot.inside, Spot.lockless]
  exact hne (Option.some.inj ((hlock t ht).symm.trans (hlock u hu)))

/-! ## Steps of one thread on its ring -/

/-- The flags and the owners of the rings are the same. -/
structure SameOwners (s s' : LockState T) : Prop where
  flag : s'.flag = s.flag
  count : ∀ i, (s'.rings i).ownerCount = (s.rings i).ownerCount

omit [DecidableEq T] in
theorem SameOwners.refl (s : LockState T) : SameOwners s s := ⟨rfl, fun _ => rfl⟩

omit [DecidableEq T] in
theorem sameOwners_setRing {r : RingWords T} (hflag : r.singleThread = (s.rings i).singleThread)
    (hcount : r.ownerCount = (s.rings i).ownerCount) : SameOwners s (s.setRing i r) := by
  constructor
  · funext j
    by_cases hj : j = i
    · subst hj
      simpa [flag] using hflag
    · simp [flag, hj]
  · intro j
    by_cases hj : j = i
    · subst hj
      simpa using hcount
    · simp [hj]

theorem sameOwners_acquire (st : Bool) : SameOwners s (s.acquire t i st) := by
  have h : SameOwners s (s.setRing i
      (if st then { s.rings i with stUsers := (s.rings i).stUsers + 1 }
      else { s.rings i with lock := some t })) := by
    cases st with
    | true => exact sameOwners_setRing rfl rfl
    | false => exact sameOwners_setRing rfl rfl
  exact ⟨h.flag, h.count⟩

theorem sameOwners_release (st : Bool) : SameOwners s (s.release t i st) := by
  have h : SameOwners s (s.setRing i
      (if st then { s.rings i with stUsers := (s.rings i).stUsers - 1 }
      else { s.rings i with lock := none })) := by
    cases st with
    | true => exact sameOwners_setRing rfl rfl
    | false => exact sameOwners_setRing rfl rfl
  exact ⟨h.flag, h.count⟩

/-- **A thread moves on.** Every pair of owners it becomes part of finds the flag clear and nobody
inside by the count; it goes inside by the count only where the flag is set. -/
theorem Orderly.update (h : Orderly s) {x : LockThread}
    (hthreads : s'.threads = Function.update s.threads t x) (hx : ThreadOk s'.flag x)
    (hothers : ∀ u, u ≠ t → ThreadOk s'.flag (s.threads u))
    (hcount : ∀ j, (s.rings j).ownerCount ≤ (s'.rings j).ownerCount)
    (howners : ∀ j, Past x j → 0 < (s'.rings j).ownerCount)
    (hfirst : ∀ j, x.spot = .storeFirst j → ∀ u, u ≠ t → ¬ Past (s.threads u) j)
    (hjoin : ∀ j u, u ≠ t → (s.threads u).spot = .storeFirst j → ¬ Past x j)
    (hkeep : ∀ j u, u ≠ t → Past (s.threads u) j → s.flag j = false → s'.flag j = false)
    (hpair : ∀ j u, u ≠ t → x.ownedRing = some j → (s.threads u).ownedRing = some j →
      s'.flag j = false ∧ ∀ v, (s.threads v).spot.counted ≠ some j)
    (hgone : ∀ j, x.spot = .waitCqUsers j → ∀ v, (s.threads v).spot.counted ≠ some j)
    (hcounted : ∀ j, x.spot.counted = some j →
      (s.threads t).spot.counted = some j ∨ s'.flag j = true) : Orderly s' := by
  have hself : s'.threads t = x := by rw [hthreads, Function.update_self]
  have hother : ∀ u, u ≠ t → s'.threads u = s.threads u := by
    intro u hu
    rw [hthreads, Function.update_of_ne hu]
  have hthread : ∀ u, ThreadOk s'.flag (s'.threads u) := by
    intro u
    by_cases hu : u = t
    · rw [hu, hself]
      exact hx
    · rw [hother u hu]
      exact hothers u hu
  have hshared : ∀ u v j, u ≠ v → (s'.threads u).ownedRing = some j →
      (s'.threads v).ownedRing = some j → s'.flag j = false := by
    intro u v j hne hu hv
    by_cases hut : u = t
    · subst hut
      rw [hself] at hu
      rw [hother v (Ne.symm hne)] at hv
      exact (hpair j v (Ne.symm hne) hu hv).1
    · rw [hother u hut] at hu
      by_cases hvt : v = t
      · rw [hvt, hself] at hv
        exact (hpair j u hut hv hu).1
      · rw [hother v hvt] at hv
        exact hkeep j u hut (.inr hu) (h.shared u v j hne hu hv)
  refine ⟨hthread, fun j => (h.nonneg j).trans (hcount j), fun u j hp => ?_, fun u j hu v hv => ?_,
    hshared, fun u j hu v hv => ?_⟩
  · by_cases hut : u = t
    · rw [hut, hself] at hp
      exact howners j hp
    · rw [hother u hut] at hp
      exact (h.owners u j hp).trans_le (hcount j)
  · by_contra hne
    by_cases hut : u = t
    · subst hut
      rw [hself] at hu
      rw [hother v hne] at hv
      exact hfirst j hu v hne hv
    · rw [hother u hut] at hu
      by_cases hvt : v = t
      · rw [hvt, hself] at hv
        exact hjoin j u hut hu hv
      · rw [hother v hvt] at hv
        exact hne (h.first u j hu v hv)
  · have hclear : s'.flag j = false := by
      rcases hu with hu | ⟨hu, w, hw, hwj⟩
      · exact (hthread u).waits j (hu ▸ rfl)
      · exact hshared w u j hw hwj hu
    have hnone : ∀ v, (s.threads v).spot.counted ≠ some j := by
      by_cases hut : u = t
      · rw [hut, hself] at hu
        rcases hu with hu | ⟨hu, w, hw, hwj⟩
        · exact hgone j hu
        · rw [hother w hw] at hwj
          exact (hpair j w hw hu hwj).2
      · rw [hother u hut] at hu
        rcases hu with hu | ⟨hu, w, hw, hwj⟩
        · exact h.drained u j (.inl hu)
        · by_cases hwt : w = t
          · rw [hwt, hself] at hwj
            exact (hpair j u hut hwj hu).2
          · rw [hother w hwt] at hwj
            exact h.drained u j (.inr ⟨hu, w, hw, hwj⟩)
    by_cases hvt : v = t
    · rw [hvt, hself] at hv
      rcases hcounted j hv with hold | hset
      · exact hnone t hold
      · exact absurd (hclear.symm.trans hset) Bool.false_ne_true
    · rw [hother v hvt] at hv
      exact hnone v hv

/-- A thread moves on, but does not become an owner. -/
theorem Orderly.within (h : Orderly s) (hsame : SameOwners s s') (hthreads : s'.threads = s.threads)
    {x : LockThread} (hlink : x.linkRing = none) (howned : x.ownedRing = (s.threads t).ownedRing)
    (hring : ∀ i, x.spot.ring = some i → (s.threads t).ownedRing = some i)
    (hsuspended : ∀ i ∈ x.suspended, (s.threads t).ownedRing = some i ∧ s.flag i = false)
    (hadd : ∀ i, x.spot = .addOwner i → (s.threads t).ownedRing = none)
    (hclaims : x.spot.claims = none) (hlockless : ∀ i, x.spot.lockless = some i → s.flag i = true)
    (hlocked : ∀ i, x.spot.locked = some i → s.flag i = false)
    (hcounted : ∀ i, x.spot.counted = some i →
      (s.threads t).spot.counted = some i ∨ s.flag i = true) : Orderly (s'.setThread t x) := by
  have hflag : (s'.setThread t x).flag = s.flag := hsame.flag
  have hno : ∀ {j}, x.spot.claims ≠ some j := by
    intro j hj
    exact Option.some_ne_none j (hj.symm.trans hclaims)
  have hpast : ∀ j, Past x j → (s.threads t).ownedRing = some j := by
    rintro j (hj | hj)
    · exact absurd hj hno
    · exact howned ▸ hj
  refine h.update (t := t) (x := x) (hthreads ▸ rfl) ⟨hlink, howned ▸ hring, ?_, ?_, ?_, ?_, ?_⟩
    (fun u _ => hflag ▸ h.thread u) (fun j => (hsame.count j).ge) (fun j hp => ?_)
    (fun j hj => absurd (hj ▸ rfl) (hno (j := j))) (fun j u hu hj hp => ?_)
    (fun j u _ _ hj => hflag ▸ hj) (fun j u hu hxj huj => ?_)
    (fun j hj => absurd (hj ▸ rfl) (hno (j := j))) (hflag ▸ hcounted)
  · rw [hflag, howned]
    exact hsuspended
  · rintro j (hj | hj)
    · exact howned.trans (hadd j hj)
    · exact absurd hj hno
  · rw [hflag]
    exact hlockless
  · intro j hj
    have hj' : x.spot.claims = some j := by
      unfold Spot.waits at hj
      split at hj <;> simp_all [Spot.claims]
    exact absurd hj' hno
  · rw [hflag]
    exact hlocked
  · exact (h.owners t j (.inr (hpast j hp))).trans_eq (hsame.count j).symm
  · exact hu (h.first u j hj t (.inr (hpast j hp))).symm
  · rw [hflag]
    rw [howned] at hxj
    exact ⟨h.shared t u j hu.symm hxj huj, h.drained t j (.inr ⟨hxj, u, hu, huj⟩)⟩

omit [DecidableEq T] in
/-- Other fields of the rings do not matter. -/
theorem Orderly.still (h : Orderly s) (hsame : SameOwners s s')
    (hthreads : s'.threads = s.threads) : Orderly s' := by
  constructor
  · rw [hthreads, hsame.flag]
    exact h.thread
  · intro i
    rw [hsame.count]
    exact h.nonneg i
  · intro t i
    rw [hthreads, hsame.count]
    exact h.owners t i
  · rw [hthreads]
    exact h.first
  · rw [hthreads, hsame.flag]
    exact h.shared
  · rw [hthreads]
    exact h.drained

/-! ## Steps of a claim -/

/-- The thread has no ring yet. -/
theorem ThreadOk.not_suspended {flag : ℕ → Bool} {x : LockThread} (h : ThreadOk flag x)
    (howned : x.ownedRing = none) {i : ℕ} (hi : i ∈ x.suspended) {p : Prop} : p :=
  absurd (howned.symm.trans (h.suspended i hi).1) (Option.some_ne_none i).symm

/-- Clearing the flag of a ring does not matter to a thread that does not submit there without the
lock. -/
theorem ThreadOk.clear {flag : ℕ → Bool} {x : LockThread} (h : ThreadOk flag x)
    (hno : x.spot.lockless ≠ some i) : ThreadOk (Function.update flag i false) x := by
  have hfalse : ∀ j, flag j = false → Function.update flag i false j = false := by
    intro j hj
    by_cases hji : j = i
    · rw [hji, Function.update_self]
    · rw [Function.update_of_ne hji, hj]
  refine ⟨h.link, h.ring, fun j hj => ?_, h.claims, fun j hj => ?_, fun j hj => ?_, fun j hj => ?_⟩
  · exact ⟨(h.suspended j hj).1, hfalse j (h.suspended j hj).2⟩
  · have hji : j ≠ i := by
      rintro rfl
      exact hno hj
    rw [Function.update_of_ne hji]
    exact h.lockless j hj
  · exact hfalse j (h.waits j hj)
  · exact hfalse j (h.locked j hj)

omit [DecidableEq T] in
theorem flag_setRing (r : RingWords T) :
    (s.setRing i r).flag = Function.update s.flag i r.singleThread := by
  funext j
  by_cases hj : j = i
  · subst hj
    simp [flag]
  · simp [flag, hj]

omit [DecidableEq T] in
theorem count_setRing {r : RingWords T} (hr : r.ownerCount = (s.rings i).ownerCount) (j : ℕ) :
    ((s.setRing i r).rings j).ownerCount = (s.rings j).ownerCount := by
  by_cases hj : j = i
  · subst hj
    simpa using hr
  · simp [hj]

/-- A thread whose claim is complete is an owner of that ring only. -/
theorem past_claimed {x : LockThread} {j : ℕ}
    (h : Past { x with spot := .entered i, ownedRing := some i } j) : i = j := by
  rcases h with h | h
  · exact absurd h (Option.some_ne_none j).symm
  · exact Option.some.inj h

/-- A thread becomes an owner. -/
theorem Orderly.addOwner (h : Orderly s) (hspot : (s.threads t).spot = .addOwner i)
    (hnone : ∀ u, (s.threads u).spot ≠ .storeFirst i) :
    Orderly ((s.setRing i { s.rings i with ownerCount := (s.rings i).ownerCount + 1 }).goto t
      (if (s.rings i).ownerCount = 0 then .storeFirst i else .storeShared i)) := by
  have howned := (h.thread t).claims i (.inl hspot)
  have hcount : ∀ j, (s.rings j).ownerCount ≤ ((s.setRing i
      { s.rings i with ownerCount := (s.rings i).ownerCount + 1 }).rings j).ownerCount := by
    intro j
    by_cases hj : j = i
    · subst hj
      rw [rings_setRing_self]
      exact Int.le_add_one (le_refl _)
    · rw [rings_setRing_of_ne _ _ hj]
  have hflag : (s.setRing i
      { s.rings i with ownerCount := (s.rings i).ownerCount + 1 }).flag = s.flag := by
    rw [flag_setRing]
    exact Function.update_eq_self i s.flag
  generalize hy : (if (s.rings i).ownerCount = 0 then Spot.storeFirst i else .storeShared i) = y
  have hyCases : y = .storeFirst i ∧ (s.rings i).ownerCount = 0 ∨ y = .storeShared i := by
    rw [← hy]
    split_ifs with hzero
    · exact .inl ⟨rfl, hzero⟩
    · exact .inr rfl
  have hpast : ∀ j, Past { s.threads t with spot := y } j → i = j := by
    rintro j (hj | hj)
    · rcases hyCases with ⟨rfl, -⟩ | rfl
      · exact Option.some.inj hj
      · exact Option.some.inj hj
    · exact absurd (howned.symm.trans hj) (Option.some_ne_none j).symm
  refine h.update (t := t) (x := { s.threads t with spot := y }) rfl ?_
    (fun u _ => hflag ▸ h.thread u) hcount (fun j hj => ?_) (fun j hj u _ hu => ?_)
    (fun j u _ hu hj => ?_) (fun j _ _ _ hj => hflag ▸ hj) (fun j u _ hj => ?_) (fun j hj => ?_)
    fun j hj => ?_
  · have hthread := h.thread t
    rw [← hflag] at hthread
    rcases hyCases with ⟨rfl, -⟩ | rfl
    · exact ⟨hthread.link, nofun, hthread.suspended, fun _ _ => howned, nofun, nofun, nofun⟩
    · exact ⟨hthread.link, nofun, hthread.suspended, fun _ _ => howned, nofun, nofun, nofun⟩
  · obtain rfl := hpast j hj
    change 0 < ((s.setRing i _).rings i).ownerCount
    rw [rings_setRing_self]
    exact Int.lt_add_one_of_le (h.nonneg i)
  · rcases hyCases with ⟨rfl, hzero⟩ | rfl
    · obtain rfl : i = j := Spot.storeFirst.inj hj
      exact absurd (h.owners u i hu) (hzero ▸ Int.lt_irrefl 0)
    · exact Spot.noConfusion hj
  · obtain rfl := hpast j hj
    exact hnone u hu
  · exact absurd (howned.symm.trans hj) (Option.some_ne_none j).symm
  · rcases hyCases with ⟨rfl, -⟩ | rfl
    · exact Spot.noConfusion hj
    · exact Spot.noConfusion hj
  · rcases hyCases with ⟨rfl, -⟩ | rfl
    · exact absurd hj (Option.some_ne_none j).symm
    · exact absurd hj (Option.some_ne_none j).symm

/-- The first owner sets the flag. -/
theorem Orderly.storeFirst (h : Orderly s) (hspot : (s.threads t).spot = .storeFirst i) :
    Orderly ((s.setRing i { s.rings i with singleThread := true }).claimed t i) := by
  have howned := (h.thread t).claims i (.inr (hspot ▸ rfl))
  have hpast : Past (s.threads t) i := .inl (hspot ▸ rfl)
  have halone : ∀ u j, u ≠ t → Past (s.threads u) j → j ≠ i := by
    rintro u j hu hp rfl
    exact hu (h.first t j hspot u hp)
  have hflag : ∀ j, j ≠ i → (s.setRing i { s.rings i with singleThread := true }).flag j =
      s.flag j := by
    intro j hj
    rw [flag_setRing, Function.update_of_ne hj]
  have hcount := count_setRing (s := s) (i := i) (r := { s.rings i with singleThread := true }) rfl
  refine h.update (t := t) (x := { s.threads t with spot := .entered i, ownedRing := some i }) rfl
    ⟨(h.thread t).link, fun j hj => hj, fun j hj => (h.thread t).not_suspended howned hj,
      fun j hj => ?_, nofun, nofun, nofun⟩
    (fun u hu => (h.thread u).congr fun j hp => hflag j (halone u j hu hp)) (fun j => (hcount j).ge)
    (fun j hp => ?_) nofun (fun j u hu hj hp => ?_) (fun j u hu hp hj => ?_)
    (fun j u hu hj hp => ?_) nofun nofun
  · rcases hj with hj | hj
    · exact Spot.noConfusion hj
    · exact absurd hj (Option.some_ne_none j).symm
  · obtain rfl := past_claimed hp
    exact (h.owners t i hpast).trans_eq (hcount i).symm
  · obtain rfl := past_claimed hp
    exact hu (h.first u i hj t hpast).symm
  · exact (hflag j (halone u j hu hp)).trans hj
  · exact absurd (Option.some.inj hj).symm (halone u j hu (.inr hp))

/-- A later owner clears the flag. -/
theorem Orderly.storeShared (h : Orderly s) (hspot : (s.threads t).spot = .storeShared i)
    (hnone : ∀ u, (s.threads u).spot.lockless ≠ some i) :
    Orderly ((s.setRing i { s.rings i with singleThread := false }).goto t (.waitUsers i)) := by
  have howned := (h.thread t).claims i (.inr (hspot ▸ rfl))
  have hpast : Past (s.threads t) i := .inl (hspot ▸ rfl)
  have hflag := flag_setRing (s := s) (i := i) { s.rings i with singleThread := false }
  have hfalse : ∀ j, s.flag j = false → Function.update s.flag i false j = false := by
    intro j hj
    by_cases hji : j = i
    · rw [hji, Function.update_self]
    · rw [Function.update_of_ne hji, hj]
  have hcount := count_setRing (s := s) (i := i) (r := { s.rings i with singleThread := false }) rfl
  have hnew : ∀ j, Past { s.threads t with spot := .waitUsers i } j → i = j := by
    rintro j (hj | hj)
    · exact Option.some.inj hj
    · exact absurd (howned.symm.trans hj) (Option.some_ne_none j).symm
  refine h.update (t := t) (x := { s.threads t with spot := .waitUsers i }) rfl
    ⟨(h.thread t).link, nofun, fun j hj => (h.thread t).not_suspended howned hj, fun _ _ => howned,
      nofun, fun j hj => ?_, nofun⟩ (fun u _ => hflag ▸ (h.thread u).clear (hnone u))
    (fun j => (hcount j).ge) (fun j hp => ?_) nofun (fun j u hu hj hp => ?_)
    (fun j u _ _ hj => hflag ▸ hfalse j hj) (fun j u _ hj => ?_) nofun nofun
  · obtain rfl := Option.some.inj hj
    exact hflag ▸ Function.update_self i false s.flag
  · obtain rfl := hnew j hp
    exact (h.owners t i hpast).trans_eq (hcount i).symm
  · obtain rfl := hnew j hp
    exact hu (h.first u i hj t hpast).symm
  · exact absurd (howned.symm.trans hj) (Option.some_ne_none j).symm

/-- The count is zero. -/
theorem Orderly.usersGone (h : Orderly s) (hspot : (s.threads t).spot = .waitUsers i)
    (hgone : ∀ v, (s.threads v).spot.counted ≠ some i) : Orderly (s.goto t (.waitCqUsers i)) := by
  have howned := (h.thread t).claims i (.inr (hspot ▸ rfl))
  have hpast : Past (s.threads t) i := .inl (hspot ▸ rfl)
  have hnew : ∀ j, Past { s.threads t with spot := .waitCqUsers i } j → i = j := by
    rintro j (hj | hj)
    · exact Option.some.inj hj
    · exact absurd (howned.symm.trans hj) (Option.some_ne_none j).symm
  refine h.update (t := t) (x := { s.threads t with spot := .waitCqUsers i }) rfl
    ⟨(h.thread t).link, nofun, fun j hj => (h.thread t).not_suspended howned hj, fun _ _ => howned,
      nofun, fun j hj => ?_, nofun⟩ (fun u _ => h.thread u) (fun j => le_refl _) (fun j hp => ?_)
    nofun (fun j u hu hj hp => ?_) (fun _ _ _ _ hj => hj) (fun j u _ hj => ?_) (fun j hj => ?_)
    nofun
  · exact Option.some.inj hj ▸ (h.thread t).waits i (hspot ▸ rfl)
  · obtain rfl := hnew j hp
    exact h.owners t i hpast
  · obtain rfl := hnew j hp
    exact hu (h.first u i hj t hpast).symm
  · exact absurd (howned.symm.trans hj) (Option.some_ne_none j).symm
  · exact Spot.waitCqUsers.inj hj ▸ hgone

/-- A later owner has claimed the ring. -/
theorem Orderly.claimed (h : Orderly s) (hspot : (s.threads t).spot = .waitCqUsers i) :
    Orderly (s.claimed t i) := by
  have howned := (h.thread t).claims i (.inr (hspot ▸ rfl))
  have hpast : Past (s.threads t) i := .inl (hspot ▸ rfl)
  refine h.update (t := t) (x := { s.threads t with spot := .entered i, ownedRing := some i }) rfl
    ⟨(h.thread t).link, fun j hj => hj, fun j hj => (h.thread t).not_suspended howned hj,
      fun j hj => ?_, nofun, nofun, nofun⟩
    (fun u _ => h.thread u) (fun j => le_refl _) (fun j hp => ?_) nofun (fun j u hu hj hp => ?_)
    (fun _ _ _ _ hj => hj) (fun j u _ hj _ => ?_) nofun nofun
  · rcases hj with hj | hj
    · exact Spot.noConfusion hj
    · exact absurd hj (Option.some_ne_none j).symm
  · obtain rfl := past_claimed hp
    exact h.owners t i hpast
  · obtain rfl := past_claimed hp
    exact hu (h.first u i hj t hpast).symm
  · obtain rfl := Option.some.inj hj
    exact ⟨(h.thread t).waits i (hspot ▸ rfl), h.drained t i (.inl hspot)⟩

/-! ## Runs -/

omit [DecidableEq T] in
/-- A step within the condition releases what it has acquired. -/
theorem Orderly.releases {l : T × LockOp} (h : Orderly s) (hscope : inScope n s l = true) :
    s.releasesInKind l = true := by
  have hlink := (h.thread l.1).link
  unfold releasesInKind
  split
  case h_1 i _ hspot =>
    have hset : (s.rings i).singleThread = true := (h.thread l.1).lockless i (hspot ▸ rfl)
    rw [hset, Bool.or_true]
  case h_2 i st _ hspot =>
    have hclear : (s.rings i).singleThread = false := (h.thread l.1).locked i (hspot ▸ rfl)
    rw [hlink, hclear]
    rfl
  case h_3 hop _ =>
    rw [inScope, hop] at hscope
    exact hscope
  case h_4 => rfl

omit [DecidableEq T] in
theorem orderly_start (single : Bool) (needsEnable : ℕ → Bool) (nextRing : ℕ) :
    Orderly (start T single needsEnable nextRing) where
  thread _ := ⟨rfl, nofun, nofun, fun _ _ => rfl, nofun, nofun, nofun⟩
  nonneg _ := le_refl _
  owners _ _ := nofun
  first _ _ := nofun
  shared _ _ _ _ := nofun
  drained _ _ := nofun

/-- A thread keeps the ring that it owns. -/
theorem Orderly.owned_move {op : LockOp} (h : Orderly s) (hmove : Move n s t op s') {u : T}
    (hu : (s.threads u).ownedRing = some i) : (s'.threads u).ownedRing = some i := by
  have hkeep : ∀ {s₁ : LockState T} {x : LockThread}, s₁.threads = s.threads →
      x.ownedRing = (s.threads t).ownedRing →
      ((s₁.setThread t x).threads u).ownedRing = some i := by
    intro s₁ x hthreads hx
    by_cases hut : u = t
    · subst hut
      rw [threads_setThread_self, hx, hu]
    · rw [threads_setThread_of_ne _ _ hut, hthreads, hu]
  have hclaim : ∀ {s₁ : LockState T} {j : ℕ}, s₁.threads = s.threads →
      (s.threads t).ownedRing = none → ((s₁.claimed t j).threads u).ownedRing = some i := by
    intro s₁ j hthreads hnone
    have hut : u ≠ t := by
      rintro rfl
      exact Option.some_ne_none i (hu.symm.trans hnone)
    rw [LockState.claimed, threads_setThread_of_ne _ _ hut, hthreads, hu]
  cases hmove with
  | storeFirst j hspot => exact hclaim rfl ((h.thread t).claims j (.inr (hspot ▸ rfl)))
  | cqUsersGone j hspot => exact hclaim rfl ((h.thread t).claims j (.inr (hspot ▸ rfl)))
  | enable => exact hu
  | spin => exact hu
  | cqUsers => exact hu
  | _ => exact hkeep rfl rfl

section

variable [Fintype T]

/-- **Every step keeps the hand-over orderly.** -/
theorem Orderly.move {op : LockOp} (h : Orderly s) (hb : Balanced s) (hmove : Move n s t op s')
    (hscope : inScope n s (t, op) = true) (hok : handsOver s (t, op) = true) : Orderly s' := by
  have hlink : (s.threads t).linkRing = none := (h.thread t).link
  have hsuspended := (h.thread t).suspended
  have hring := (h.thread t).ring
  have hlocked := (h.thread t).locked
  cases hmove with
  | submitLinked i hspot hsome => exact absurd (hlink.symm.trans hsome) (Option.some_ne_none i).symm
  | submitSingle hspot _ hn henabled =>
      have howned : (s.threads t).ownedRing = some 0 := by
        simpa [inScope, hn, henabled] using hscope
      exact h.within (SameOwners.refl s) rfl hlink rfl (fun i hi => Option.some.inj hi ▸ howned)
        hsuspended nofun rfl nofun nofun nofun
  | submitOwned i hspot _ howned =>
      exact h.within (SameOwners.refl s) rfl hlink rfl (fun j hj => Option.some.inj hj ▸ howned)
        hsuspended nofun rfl nofun nofun nofun
  | submitClaim next i hspot _ howned =>
      have hsame : SameOwners s { s with nextRing := next } := ⟨rfl, fun _ => rfl⟩
      exact h.within hsame rfl hlink rfl nofun hsuspended (fun _ _ => howned) rfl nofun nofun nofun
  | addOwner i hspot =>
      refine h.addOwner hspot ?_
      simpa [handsOver, hspot] using hok
  | enable i hspot => exact h.still (sameOwners_setRing rfl rfl) rfl
  | storeFirst i hspot => exact h.storeFirst hspot
  | storeShared i hspot =>
      refine h.storeShared hspot ?_
      simpa [handsOver, hspot] using hok
  | spin => exact h
  | usersGone i hspot husers =>
      refine h.usersGone hspot fun v hv => ?_
      have hcard := hb.users i
      have hempty := Finset.card_eq_zero.1 (Int.natCast_nonpos_iff.1 (hcard ▸ husers))
      exact Finset.eq_empty_iff_forall_notMem.1 hempty v
        (Finset.mem_filter.2 ⟨Finset.mem_univ v, Spot.holds_of_counted hv⟩)
  | cqUsersGone i hspot => exact h.claimed hspot
  | enterFast i hspot hsole =>
      have howned := hring i (hspot ▸ rfl)
      exact h.within (SameOwners.refl s) rfl hlink rfl (fun j hj => Option.some.inj hj ▸ howned)
        hsuspended nofun rfl (fun j hj => Option.some.inj hj ▸ hsole) nofun nofun
  | enterLock i hspot hclear =>
      have howned := hring i (hspot ▸ rfl)
      exact h.within (SameOwners.refl s) rfl hlink rfl (fun j hj => Option.some.inj hj ▸ howned)
        hsuspended nofun rfl nofun (fun j hj => Option.some.inj hj ▸ hclear hlink) nofun
  | load i use hspot =>
      have howned := hring i (hspot ▸ rfl)
      refine h.within (SameOwners.refl s) rfl hlink rfl (fun j hj => Option.some.inj hj ▸ howned)
        hsuspended nofun rfl nofun (fun j hj => hlocked j ?_) nofun
      rw [hspot]
      exact (Spot.locked_lock _ _ i use).trans hj
  | bump i use hspot =>
      have howned := hring i (hspot ▸ rfl)
      refine h.within (sameOwners_acquire true) rfl hlink rfl
        (fun j hj => Option.some.inj hj ▸ howned) hsuspended nofun rfl nofun
        (fun j hj => hlocked j ?_) nofun
      rw [hspot]
      exact (Spot.locked_lock _ _ i use).trans hj
  | recheck i use hspot hsingle =>
      have howned := hring i (hspot ▸ rfl)
      refine h.within (SameOwners.refl s) rfl hlink rfl (fun j hj => Option.some.inj hj ▸ howned)
        hsuspended nofun rfl nofun (fun j hj => hlocked j ?_)
        fun j hj => .inr (Option.some.inj hj ▸ hsingle)
      rw [hspot]
      exact (Spot.locked_held _ i use true).symm.trans hj
  | recheckCleared i use hspot =>
      have howned := hring i (hspot ▸ rfl)
      refine h.within (SameOwners.refl s) rfl hlink rfl (fun j hj => Option.some.inj hj ▸ howned)
        hsuspended nofun rfl nofun (fun j hj => hlocked j ?_) nofun
      rw [hspot]
      exact (Spot.locked_lock _ _ i use).trans hj
  | back i use hspot =>
      have howned := hring i (hspot ▸ rfl)
      refine h.within (sameOwners_release true) rfl hlink rfl
        (fun j hj => Option.some.inj hj ▸ howned) hsuspended nofun rfl nofun
        (fun j hj => hlocked j ?_) nofun
      rw [hspot]
      exact (Spot.locked_lock _ _ i use).trans hj
  | mutex i use hspot =>
      have howned := hring i (hspot ▸ rfl)
      refine h.within (sameOwners_acquire false) rfl hlink rfl
        (fun j hj => Option.some.inj hj ▸ howned) hsuspended nofun rfl nofun
        (fun j hj => hlocked j ?_) nofun
      rw [hspot]
      exact (Spot.locked_held _ i use false).symm.trans hj
  | refuseFast i hspot =>
      exact h.within (SameOwners.refl s) rfl hlink rfl nofun hsuspended nofun rfl nofun nofun nofun
  | refuse i st hspot =>
      have howned := hring i (hspot ▸ rfl)
      refine h.within (SameOwners.refl s) rfl hlink rfl (fun j hj => Option.some.inj hj ▸ howned)
        hsuspended nofun rfl nofun nofun fun j hj => .inl ?_
      rw [hspot]
      exact (Spot.counted_unlock i _ st false).symm.trans hj
  | makeRoom i st hspot =>
      have howned := hring i (hspot ▸ rfl)
      refine h.within (SameOwners.refl s) rfl hlink rfl (fun j hj => Option.some.inj hj ▸ howned)
        hsuspended nofun rfl nofun (fun j hj => Option.some.inj hj ▸ hlocked i (hspot ▸ rfl))
        fun j hj => .inl ?_
      rw [hspot]
      exact (Spot.counted_unlock i _ st true).symm.trans hj
  | resume i rest hspot hrest =>
      rw [hrest, List.forall_mem_cons] at hsuspended
      obtain ⟨⟨howned, hflag⟩, hsuspended⟩ := hsuspended
      exact h.within (SameOwners.refl s) rfl hlink rfl (fun j hj => Option.some.inj hj ▸ howned)
        hsuspended nofun rfl nofun (fun j hj => Option.some.inj hj ▸ hflag) nofun
  | finishFast i st hspot hsole =>
      have howned : (s.threads t).ownedRing = some i := by
        rcases hspot with ⟨hspot, -⟩ | hspot
        · exact hring i (hspot ▸ rfl)
        · exact hring i (hspot ▸ rfl)
      exact h.within (SameOwners.refl s) rfl hlink rfl (fun j hj => Option.some.inj hj ▸ howned)
        hsuspended nofun rfl (fun j hj => Option.some.inj hj ▸ hsole) nofun nofun
  | finishRelock i _ hne => exact absurd hlink hne
  | finishChain i _ hne => exact absurd hlink hne
  | finish i st hspot hsole =>
      rcases hspot with ⟨hspot, -⟩ | hspot
      · have hset := (h.thread t).lockless i (hspot ▸ rfl)
        exact absurd (hsole.symm.trans hset) Bool.false_ne_true
      · have howned := hring i (hspot ▸ rfl)
        refine h.within (SameOwners.refl s) rfl hlink rfl (fun j hj => Option.some.inj hj ▸ howned)
          hsuspended nofun rfl nofun nofun fun j hj => .inl ?_
        rw [hspot]
        exact (Spot.counted_unlock i _ st false).symm.trans hj
  | abort => exact absurd hscope Bool.false_ne_true
  | link => exact absurd hscope Bool.false_ne_true
  | ringLock i hspot =>
      have howned : (s.threads t).ownedRing = some i := of_decide_eq_true hscope
      exact h.within (SameOwners.refl s) rfl hlink rfl (fun j hj => Option.some.inj hj ▸ howned)
        hsuspended nofun rfl nofun nofun nofun
  | giveUp i hspot =>
      exact h.within (SameOwners.refl s) rfl hlink rfl nofun hsuspended nofun rfl nofun nofun nofun
  | ringUnlock i st hspot =>
      have howned := hring i (hspot ▸ rfl)
      refine h.within (SameOwners.refl s) rfl hlink rfl (fun j hj => Option.some.inj hj ▸ howned)
        hsuspended nofun rfl nofun nofun fun j hj => .inl ?_
      rw [hspot]
      exact (Spot.counted_unlock i _ st false).symm.trans hj
  | flushChain i st hspot =>
      have howned := hring i (hspot ▸ rfl)
      refine h.within (SameOwners.refl s) rfl rfl rfl (fun j hj => Option.some.inj hj ▸ howned)
        hsuspended nofun rfl nofun nofun fun j hj => .inl ?_
      rw [hspot]
      exact (Spot.counted_unlock i _ st false).symm.trans hj
  | unlock i st again hspot =>
      have howned := hring i (hspot ▸ rfl)
      refine h.within (sameOwners_release st) rfl hlink rfl nofun ?_ nofun rfl nofun nofun nofun
      cases again with
      | true => exact List.forall_mem_cons.2 ⟨⟨howned, hlocked i (hspot ▸ rfl)⟩, hsuspended⟩
      | false => exact hsuspended
  | fastEnd i hspot =>
      exact h.within (SameOwners.refl s) rfl hlink rfl nofun hsuspended nofun rfl nofun nofun nofun
  | cqUsers i up x => exact h.still (sameOwners_setRing rfl rfl) rfl

end

end LockState

/-! ## Main result -/

section

variable {T : Type*} [DecidableEq T] [Fintype T] {n : ℕ} {s₀ s s' : LockState T}
  {ls ls' : List (T × LockOp)}

open LockState

/-- The runs of claims, locks and submissions whose steps all meet the condition. -/
def handoverSystem (T : Type*) [DecidableEq T] [Fintype T] (n : ℕ) :
    System (LockState T) (T × LockOp) :=
  (lockSystem T n).restrict fun s l => (inScope n s l && handsOver s l) = true

/-- What is kept along them. -/
theorem handover_step {l : T × LockOp} (hs : Orderly s ∧ Counted s ∧ Kept s)
    (hstep : (handoverSystem T n).step s l s') :
    (Orderly s' ∧ Counted s' ∧ Kept s') ∧
      ∀ u i, (s.threads u).ownedRing = some i → (s'.threads u).ownedRing = some i := by
  obtain ⟨horderly, hcounted, hkept⟩ := hs
  obtain ⟨hok, hstep⟩ := hstep
  obtain ⟨hscope, hhands⟩ := Bool.and_eq_true_iff.1 hok
  have hmove := move_of_step hstep
  refine ⟨⟨?_, hcounted.move hmove, ?_⟩, fun u i => horderly.owned_move hmove⟩
  · exact horderly.move (hcounted.balanced_iff.2 hkept) hmove hscope hhands
  · exact (kept_move_iff hkept hmove).2 (horderly.releases hscope)

theorem handover_init (h : (lockSystem T n).init s) : Orderly s ∧ Counted s ∧ Kept s := by
  refine ⟨?_, counted_init h⟩
  obtain ⟨single, needsEnable, nextRing, rfl⟩ := h
  exact orderly_start single needsEnable nextRing

/-- **No two threads are in the critical section of one ring, and a ring that two threads have
claimed stays a shared one**, in every run in which no thread joins a ring before its first owner
has set the flag, or clears the flag while another submits without the lock. -/
theorem handover_exclusive (hinit : (lockSystem T n).init s₀)
    (hrun : Run (handoverSystem T n) s₀ ls s) (hlater : Run (handoverSystem T n) s ls' s') :
    (∀ i t u, (s.threads t).spot.inside = some i → (s.threads u).spot.inside = some i → t = u) ∧
      ∀ i t u, t ≠ u → (s.threads t).ownedRing = some i → (s.threads u).ownedRing = some i →
        (s'.rings i).singleThread = false := by
  have hs : Orderly s ∧ Counted s ∧ Kept s := by
    refine hrun.invariant (I := fun s => Orderly s ∧ Counted s ∧ Kept s) ?_ (handover_init hinit)
    intro s l s' hs hstep
    exact (handover_step hs hstep).1
  refine ⟨fun i t u => hs.1.exclusive hs.2.2, fun i t u hne ht hu => ?_⟩
  have hs' : (Orderly s' ∧ Counted s' ∧ Kept s') ∧
      (s'.threads t).ownedRing = some i ∧ (s'.threads u).ownedRing = some i := by
    refine hlater.invariant (I := fun s => (Orderly s ∧ Counted s ∧ Kept s) ∧
      (s.threads t).ownedRing = some i ∧ (s.threads u).ownedRing = some i) ?_ ⟨hs, ht, hu⟩
    rintro s l s' ⟨hs, ht, hu⟩ hstep
    obtain ⟨hs', howned⟩ := handover_step hs hstep
    exact ⟨hs', howned t i ht, howned u i hu⟩
  exact hs'.1.1.shared t u i hne hs'.2.1 hs'.2.2

/-- Two threads on an engine with one ring, which cannot be enabled. -/
def pairStart : LockState Bool := LockState.start Bool false (fun _ => true) 0

/-- The first thread submits; then the second claims the ring. -/
def secondClaim : List (Bool × LockOp) :=
  [(false, .submit), (false, .advance), (false, .advance), (false, .advance), (false, .finish),
    (false, .advance), (true, .submit), (true, .advance), (true, .advance), (true, .advance),
    (true, .advance)]

/-- After that the ring is shared, and no two threads are inside. -/
theorem second_claim_shares : ∃ s, Run (handoverSystem Bool 1) pairStart secondClaim s ∧
    (∀ t u, (s.threads t).spot.inside = some 0 → (s.threads u).spot.inside = some 0 → t = u) ∧
    (s.rings 0).singleThread = false := by
  have hexec : ((execute (fun s l => if (inScope 1 s l && handsOver s l) = true then
      LockState.step 1 s l else none) pairStart secondClaim).any fun s =>
      (s.threads false).ownedRing = some 0 && (s.threads true).ownedRing = some 0) = true := by
    decide
  obtain ⟨s, hs, howned⟩ := (Option.any_eq_true _ _).1 hexec
  rw [Bool.and_eq_true, decide_eq_true_iff, decide_eq_true_iff] at howned
  have hrun : Run (handoverSystem Bool 1) pairStart secondClaim s := Run.of_guarded hs
  obtain ⟨hexclusive, hshared⟩ :=
    handover_exclusive ⟨false, fun _ => true, 0, rfl⟩ hrun (Run.nil s)
  exact ⟨s, hrun, hexclusive 0, hshared 0 false true Bool.false_ne_true howned.1 howned.2⟩

/-- Three threads on an engine with two rings. -/
def trioStart : LockState (Fin 3) := LockState.start (Fin 3) false (fun _ => true) 0

/-- Thread 0 submits without the lock. Meanwhile thread 1 claims the other ring, and thread 2 claims
the ring of thread 0, finds `st_users` zero and takes the mutex. -/
def overlap : List (Fin 3 × LockOp) :=
  [(0, .submit), (0, .advance), (0, .enable), (0, .advance), (0, .advance), (1, .submit),
    (2, .submit), (2, .advance), (2, .advance), (2, .advance), (2, .advance), (2, .advance),
    (2, .advance), (2, .advance)]

/-- **Two threads in the critical section of one ring.** -/
theorem handover_overlaps : ∃ s,
    Reachable ((lockSystem (Fin 3) 2).restrict fun s l => inScope 2 s l = true) s ∧
    (s.threads 0).spot.inside = some 0 ∧ (s.threads 2).spot.inside = some 0 := by
  have hexec : ((execute (fun s l => if inScope 2 s l = true then LockState.step 2 s l else none)
      trioStart overlap).any fun s =>
      (s.threads 0).spot.inside = some 0 && (s.threads 2).spot.inside = some 0) = true := by decide
  obtain ⟨s, hs, hinside⟩ := (Option.any_eq_true _ _).1 hexec
  rw [Bool.and_eq_true, decide_eq_true_iff, decide_eq_true_iff] at hinside
  exact ⟨s, Reachable.of_guarded ⟨false, fun _ => true, 0, rfl⟩ hs, hinside⟩

end

end Aura
