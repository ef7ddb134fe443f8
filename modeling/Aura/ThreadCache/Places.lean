import Aura.ThreadCache.Gates

/-!
# Where the caches are

A cache is on the list of its pool, or on the list that a thread has detached, or about to be put on
the list, and in one place only, until it is orphaned.

* `CacheState.Known` — no cache is known before it is created.
* `CacheState.Locked` — `cleanup_mutex` is held by the thread that is in a section of the cache.
* `CacheState.Places` — the places of the caches.
-/

namespace Aura

open Lib

/-! ## The caches at a spot -/

namespace CacheSpot

/-- The caches that the thread has pointers to, but for the thread-local ones. -/
def mentions : CacheSpot → List ℕ
  | fastDestroyed _ c | slowPool _ c | slowNull _ c | freeOrphan _ c | leaveLock _ c
  | leaveLoad _ c | leaveUnlockNull _ c | leaveEnter _ c _ | leaveCheck _ c _ | leaveClean _ c _ _
  | leaveUnlock _ c _ | leaveExit _ c _ => [c]
  | regPush _ c | regRecheck _ c | lateLock _ c | lateMark _ c | lateUnlock _ c | regDone _ c _ =>
    [c]
  | storeLock _ c _ | storeCheck _ c _ | storePush _ c _ | storeUnlock _ c => [c]
  | slowDestroyed _ cache | got _ cache | userEnter _ cache | userCheck _ cache
  | inShards _ cache => cache.toList
  | exitLock c | exitMark c | exitLoad c | exitEnter c _ | exitCheck c _ | exitBack c _
  | exitFlush c _ | exitLeave c _ | exitFree c | exitGone c | exitUnlock c _ | exitDrop c => [c]
  | procLock _ c rest | procClean _ c rest | procOrphan _ c rest | procUnlock _ c rest _
  | procDecide _ c rest _ => c :: rest
  | _ => []

/-- The cache whose `cleanup_mutex` the thread holds. -/
def locks : CacheSpot → Option ℕ
  | leaveLoad _ c | leaveUnlockNull _ c | leaveEnter _ c _ | leaveCheck _ c _ | leaveClean _ c _ _
  | leaveUnlock _ c _ => some c
  | lateMark _ c | lateUnlock _ c => some c
  | storeCheck _ c _ | storePush _ c _ | storeUnlock _ c => some c
  | exitMark c | exitLoad c | exitEnter c _ | exitCheck c _ | exitBack c _ | exitFlush c _
  | exitLeave c _ | exitFree c | exitGone c | exitUnlock c _ => some c
  | procClean _ c _ | procOrphan _ c _ | procUnlock _ c _ _ => some c
  | _ => none

/-- The caches of a pool that are not on its list: the one that is about to be put there, and those
on a detached list that still have their pool. -/
def pending : CacheSpot → List ℕ
  | regPush _ c => [c]
  | procLock _ c rest | procClean _ c rest | procOrphan _ c rest => c :: rest
  | procUnlock _ _ rest _ | procDecide _ _ rest _ => rest
  | _ => []

/-- The pool of these caches. -/
def place : CacheSpot → Option ℕ
  | regPush p _ | procLock p _ _ | procClean p _ _ | procOrphan p _ _ | procUnlock p _ _ _
  | procDecide p _ _ _ => some p
  | _ => none

/-- The cache that the thread has just orphaned. -/
def orphaned : CacheSpot → Option ℕ
  | procUnlock _ c _ _ | procDecide _ c _ _ => some c
  | _ => none

end CacheSpot

namespace CacheEffect

/-- The cache that changes; `n` is the number of caches. -/
def touches (n : ℕ) : CacheEffect → Option ℕ
  | create _ _ => some n
  | lock c | unlock c | markCleaned c | cleanup _ c _ | markExited c | free c | take c | store c _
  | refill _ c _ | flush _ c _ | orphan c => some c
  | _ => none

/-- What a thread has pending after a step, if it had `l`. -/
def pendingAfter (n : ℕ) (list : ℕ → List ℕ) (l : List ℕ) : CacheEffect → List ℕ
  | create _ _ => [n]
  | push _ _ => []
  | detach p => list p
  | orphan _ => l.tail
  | _ => l

/-- The pool of what a thread has pending after a step. -/
def placeAfter (o : Option ℕ) : CacheEffect → Option ℕ
  | create p _ | detach p => some p
  | _ => o

end CacheEffect

/-- The thread has a pointer to the cache. -/
def CacheThread.Knows (x : CacheThread) (c : ℕ) : Prop :=
  c ∈ x.spot.mentions ∨ x.tlsCache = some c ∨ x.tlsKey = some c

namespace CacheState

variable {T : Type*} {s s' : CacheState T} {t u : T} {x : CacheThread} {e : CacheEffect} {p c : ℕ}

/-! ## The caches after a step -/

theorem caches_setCache (w : CacheWords T) (d : ℕ) :
    (s.setCache c w).caches d = if d = c then w else s.caches d := Function.update_apply _ _ _ _

@[simp] theorem caches_setPool (w : PoolWords) (d : ℕ) :
    (s.setPool p w).caches d = s.caches d := rfl

@[simp] theorem caches_shardsGet (bs : List ℕ) (d : ℕ) :
    (s.shardsGet p bs).caches d = s.caches d := rfl

@[simp] theorem caches_keyInit (ok : Bool) (d : ℕ) : (s.keyInit ok).caches d = s.caches d := rfl

theorem caches_createCache (d : ℕ) : (s.createCache t p).caches d =
    if d = s.cacheCount then { pool := some p, ownerThread := some t } else s.caches d :=
  caches_setCache _ d

theorem caches_cleanupCache (pool : Option ℕ) (mode : CacheCleanupMode) (d : ℕ) :
    (s.cleanupCache pool c mode).caches d =
      if d = c ∧ (s.caches c).cleanedUp = false then
        { s.caches c with buffers := [], cleanedUp := true }
      else s.caches d := by
  unfold cleanupCache
  dsimp only
  split_ifs with hclean hd hd
  · exact absurd (hd.2.symm.trans hclean) Bool.false_ne_true
  · rfl
  · split
    · exact (caches_setCache _ d).trans (if_pos hd.1)
    · exact (caches_setCache _ d).trans (if_pos hd.1)
  · have hne : d ≠ c := fun heq => hd ⟨heq, Bool.eq_false_of_not_eq_true hclean⟩
    split
    · exact (caches_setCache _ d).trans (if_neg hne)
    · exact (caches_setCache _ d).trans (if_neg hne)

theorem caches_apply_of_ne (h : e.touches s.cacheCount ≠ some c) :
    (s.apply t e).caches c = s.caches c := by
  cases e <;> grind [apply, CacheEffect.touches, caches_setCache, caches_setPool, caches_shardsGet,
    caches_keyInit, caches_createCache, caches_cleanupCache, keyInit]

theorem pool_apply (c : ℕ) : ((s.apply t e).caches c).pool =
    match e with
    | .create p _ => if c = s.cacheCount then some p else (s.caches c).pool
    | .orphan d => if c = d then none else (s.caches c).pool
    | _ => (s.caches c).pool := by
  cases e <;> grind [apply, caches_setCache, caches_setPool, caches_shardsGet, caches_keyInit,
    caches_createCache, caches_cleanupCache, keyInit]

theorem ownerThread_apply (c : ℕ) : ((s.apply t e).caches c).ownerThread =
    match e with
    | .create _ _ => if c = s.cacheCount then some t else (s.caches c).ownerThread
    | _ => (s.caches c).ownerThread := by
  cases e <;> grind [apply, caches_setCache, caches_setPool, caches_shardsGet, caches_keyInit,
    caches_createCache, caches_cleanupCache, keyInit]

theorem cleanupMutex_apply (c : ℕ) : ((s.apply t e).caches c).cleanupMutex =
    match e with
    | .create _ _ => if c = s.cacheCount then none else (s.caches c).cleanupMutex
    | .lock d => if c = d then some t else (s.caches c).cleanupMutex
    | .unlock d => if c = d then none else (s.caches c).cleanupMutex
    | _ => (s.caches c).cleanupMutex := by
  cases e <;> grind [apply, caches_setCache, caches_setPool, caches_shardsGet, caches_keyInit,
    caches_createCache, caches_cleanupCache, keyInit]

theorem cacheCount_apply : (s.apply t e).cacheCount =
    match e with
    | .create _ _ => s.cacheCount + 1
    | _ => s.cacheCount := by
  cases e with
  | cleanup pool d mode =>
      unfold apply cleanupCache
      cases mode <;> cases pool <;> dsimp only <;> split_ifs <;> rfl
  | _ => rfl

/-! ## No cache is known before it is created -/

@[simp] theorem mentions_nextCache (rest : List ℕ) : (nextCache p rest).mentions = rest := by
  cases rest <;> rfl

@[simp] theorem locks_nextCache (rest : List ℕ) : (nextCache p rest).locks = none := by
  cases rest <;> rfl

@[simp] theorem pending_nextCache (rest : List ℕ) : (nextCache p rest).pending = rest := by
  cases rest <;> rfl

@[simp] theorem orphaned_nextCache (rest : List ℕ) : (nextCache p rest).orphaned = none := by
  cases rest <;> rfl

/-- A new pointer comes from a place where the cache is known. -/
theorem Goes.mentions {a b : CacheSpot} (h : Goes s t a b e) (hc : c ∈ b.mentions) :
    c ∈ a.mentions ∨ (s.threads t).tlsCache = some c ∨ e.touches s.cacheCount = some c ∨
      ∃ p, c ∈ (s.pools p).threadCaches := by
  cases h <;> grind [CacheSpot.mentions, CacheEffect.touches, mentions_nextCache]

/-- The cache that a step changes is one that the thread has a pointer to, or a new one. -/
theorem Goes.touches {a b : CacheSpot} (h : Goes s t a b e) (hc : e.touches s.cacheCount = some c) :
    c ∈ a.mentions ∨ ∃ p key, e = .create p key ∧ c = s.cacheCount := by
  cases h <;> grind [CacheSpot.mentions, CacheEffect.touches]

theorem Move.knows (h : Move s t x e) (hc : x.Knows c) :
    (s.threads t).Knows c ∨ e.touches s.cacheCount = some c ∨
      ∃ p, c ∈ (s.pools p).threadCaches := by
  cases h with
  | go hspot h =>
      rcases hc with hc | hc
      · rcases h.mentions hc with hold | hold | hnew
        · exact .inl (.inl (hspot ▸ hold))
        · exact .inl (.inr (.inl hold))
        · exact .inr hnew
      · exact .inl (.inr hc)
  | regDone p d late hspot =>
      refine .inl ?_
      cases late <;> grind [CacheThread.Knows, CacheSpot.mentions, setKey]
  | _ => exact .inl (by grind [CacheThread.Knows, CacheSpot.mentions, setKey, dropCache,
      mentions_nextCache])

theorem Move.touches (h : Move s t x e) (hc : e.touches s.cacheCount = some c) :
    c ∈ (s.threads t).spot.mentions ∨ ∃ p key, e = .create p key ∧ c = s.cacheCount := by
  cases h with
  | go hspot h => exact hspot ▸ h.touches hc
  | _ => grind [CacheSpot.mentions, CacheEffect.touches]

/-- **No cache is known before it is created.** -/
structure Known (s : CacheState T) : Prop where
  fresh : ∀ c, s.cacheCount ≤ c → s.caches c = {}
  thread : ∀ t c, (s.threads t).Knows c → c < s.cacheCount
  listed : ∀ p, ∀ c ∈ (s.pools p).threadCaches, c < s.cacheCount

theorem le_cacheCount_apply : s.cacheCount ≤ (s.apply t e).cacheCount := by
  rw [cacheCount_apply]
  split <;> omega

theorem Known.touches (h : Known s) (hmove : Move s t x e)
    (hc : e.touches s.cacheCount = some c) : c < (s.apply t e).cacheCount := by
  rcases hmove.touches hc with hold | ⟨p, key, rfl, rfl⟩
  · exact (h.thread t c (.inl hold)).trans_le le_cacheCount_apply
  · rw [cacheCount_apply]
    exact Nat.lt_succ_self _

/-- What is pushed on a list is a cache that the thread has a pointer to. -/
theorem Move.push {p c : ℕ} (h : Move s t x (.push p c)) : (s.threads t).spot = .regPush p c := by
  cases h with
  | go hspot h =>
      cases h
      exact hspot

variable [DecidableEq T]

theorem Known.after (h : Known s) (hmove : Move s t x e) : Known (s.after t x e) where
  fresh c hc := by
    have hne : e.touches s.cacheCount ≠ some c := fun heq =>
      absurd (h.touches hmove heq) (Nat.not_lt.2 hc)
    exact (caches_apply_of_ne hne).trans (h.fresh c (le_cacheCount_apply.trans hc))
  thread u c hc := by
    rw [threads_after] at hc
    split_ifs at hc with heq
    · rcases hmove.knows hc with hold | hnew | ⟨p, hlist⟩
      · exact (h.thread t c hold).trans_le le_cacheCount_apply
      · exact h.touches hmove hnew
      · exact (h.listed p c hlist).trans_le le_cacheCount_apply
    · exact (h.thread u c hc).trans_le le_cacheCount_apply
  listed p c hc := by
    have hold : c ∈ (s.pools p).threadCaches ∨ e = .push p c := by
      have hc' : c ∈ ((s.apply t e).pools p).threadCaches := hc
      rw [threadCaches_apply] at hc'
      grind
    rcases hold with hold | rfl
    · exact (h.listed p c hold).trans_le le_cacheCount_apply
    · refine (h.thread t c (.inl ?_)).trans_le le_cacheCount_apply
      rw [hmove.push]
      exact List.mem_singleton_self c

/-! ## The mutexes -/

/-- **A mutex is held by the thread that is in a section of its cache.** -/
def Locked (s : CacheState T) : Prop :=
  ∀ c t, (s.caches c).cleanupMutex = some t ↔ (s.threads t).spot.locks = some c

omit [DecidableEq T] in
theorem Goes.locks {a b : CacheSpot} (h : Goes s t a b e) (c : ℕ) :
    b.locks = some c ↔ e = .lock c ∨ (a.locks = some c ∧ e ≠ .unlock c) := by
  cases h <;> grind [CacheSpot.locks, locks_nextCache]

omit [DecidableEq T] in
theorem Move.locks (h : Move s t x e) (c : ℕ) :
    x.spot.locks = some c ↔ e = .lock c ∨ ((s.threads t).spot.locks = some c ∧ e ≠ .unlock c) := by
  cases h with
  | go hspot h => exact hspot ▸ h.locks c
  | _ => grind [CacheSpot.locks, spot_setKey, spot_dropCache, locks_nextCache]

omit [DecidableEq T] in
theorem Move.lock {c : ℕ} (h : Move s t x (.lock c)) : (s.caches c).cleanupMutex = none := by
  cases h with
  | go hspot h => cases h <;> assumption

omit [DecidableEq T] in
theorem Move.unlock {c : ℕ} (h : Move s t x (.unlock c)) :
    (s.threads t).spot.locks = some c := by
  cases h with
  | go hspot h =>
      rw [hspot]
      cases h <;> rfl

theorem Locked.after (h : Locked s) (hknown : Known s) (hmove : Move s t x e) :
    Locked (s.after t x e) := by
  intro c u
  have hmutex : ((s.after t x e).caches c).cleanupMutex = _ := cleanupMutex_apply c
  rw [hmutex, threads_after]
  have hlocks := hmove.locks c
  have hiff := h c u
  cases e with
  | lock d =>
      have hfree := hmove.lock
      grind
  | unlock d =>
      have hheld := (h d t).2 hmove.unlock
      grind
  | create p key =>
      have hnone := hknown.fresh _ (Nat.le_refl _)
      grind
  | _ => grind

/-! ## The places -/

/-- **Each cache of a pool is in one place**: on the list of the pool, or pending with a thread. -/
structure Places (s : CacheState T) : Prop where
  nodup : ∀ p, (s.pools p).threadCaches.Nodup
  listed : ∀ p, ∀ c ∈ (s.pools p).threadCaches, (s.caches c).pool = some p
  pendingNodup : ∀ t, (s.threads t).spot.pending.Nodup
  pending : ∀ t, ∀ c ∈ (s.threads t).spot.pending, ∃ p, (s.threads t).spot.place = some p ∧
    (s.caches c).pool = some p
  apart : ∀ t, ∀ c ∈ (s.threads t).spot.pending, ∀ p, c ∉ (s.pools p).threadCaches
  once : ∀ t u c, c ∈ (s.threads t).spot.pending → c ∈ (s.threads u).spot.pending → t = u
  orphaned : ∀ t c, (s.threads t).spot.orphaned = some c → (s.caches c).pool = none
  orphanedOnce : ∀ t u c, (s.threads t).spot.orphaned = some c →
    (s.threads u).spot.orphaned = some c → t = u
  found : ∀ c p, (s.caches c).pool = some p →
    c ∈ (s.pools p).threadCaches ∨ ∃ t, c ∈ (s.threads t).spot.pending

section goes

omit [DecidableEq T]

variable {a b : CacheSpot}

theorem Goes.pending (h : Goes s t a b e) : b.pending =
    e.pendingAfter s.cacheCount (fun p => (s.pools p).threadCaches) a.pending := by
  cases h <;> grind [CacheSpot.pending, CacheEffect.pendingAfter, pending_nextCache]

theorem Goes.place (h : Goes s t a b e) (hc : c ∈ b.pending) : b.place = e.placeAfter a.place := by
  cases h with
  | procFree p d rest => cases rest <;> simp_all [nextCache, CacheSpot.place, CacheSpot.pending,
      CacheEffect.placeAfter]
  | procKeep p d rest => cases rest <;> simp_all [nextCache, CacheSpot.place, CacheSpot.pending,
      CacheEffect.placeAfter]
  | _ => grind [CacheSpot.pending, CacheSpot.place, CacheEffect.placeAfter]

theorem Goes.orphaned (h : Goes s t a b e) (hc : b.orphaned = some c) :
    a.orphaned = some c ∨ e = .orphan c := by
  cases h <;> grind [CacheSpot.orphaned, orphaned_nextCache]

end goes

section move

omit [DecidableEq T]

theorem Move.pending (h : Move s t x e) : x.spot.pending =
    e.pendingAfter s.cacheCount (fun p => (s.pools p).threadCaches) (s.threads t).spot.pending := by
  cases h with
  | go hspot h => exact hspot ▸ h.pending
  | _ => grind [CacheSpot.pending, CacheEffect.pendingAfter, pending_nextCache, spot_setKey,
      spot_dropCache]

theorem Move.place (h : Move s t x e) (hc : c ∈ x.spot.pending) :
    x.spot.place = e.placeAfter (s.threads t).spot.place := by
  cases h with
  | go hspot h => exact hspot ▸ h.place hc
  | procOwn p d rest exited hspot hown =>
      rw [spot_setKey] at hc ⊢
      rw [hspot]
      cases rest with
      | nil => simp [nextCache, CacheSpot.pending] at hc
      | cons d rest => rfl
  | _ => grind [CacheSpot.pending, spot_setKey, spot_dropCache]

theorem Move.orphaned (h : Move s t x e) (hc : x.spot.orphaned = some c) :
    (s.threads t).spot.orphaned = some c ∨ e = .orphan c := by
  cases h with
  | go hspot h => exact hspot ▸ h.orphaned hc
  | _ => grind [CacheSpot.orphaned, orphaned_nextCache, spot_setKey, spot_dropCache]

theorem Move.create {key : Bool} (h : Move s t x (.create p key)) :
    (s.threads t).spot.pending = [] := by
  cases h with
  | go hspot h =>
      rw [hspot]
      cases h
      rfl

theorem Move.detach (h : Move s t x (.detach p)) : (s.threads t).spot.pending = [] := by
  cases h with
  | go hspot h =>
      rw [hspot]
      cases h <;> rfl

theorem Move.orphan (h : Move s t x (.orphan c)) :
    (s.threads t).spot.pending = c :: x.spot.pending := by
  cases h with
  | go hspot h =>
      rw [hspot]
      cases h
      rfl

end move

omit [DecidableEq T] in
/-- A step that moves no cache. -/
theorem Places.frame (h : Places s) (hpool : ∀ c, (s'.caches c).pool = (s.caches c).pool)
    (hlist : ∀ p, (s'.pools p).threadCaches = (s.pools p).threadCaches)
    (hpending : ∀ u, (s'.threads u).spot.pending = (s.threads u).spot.pending)
    (hplace : ∀ u, ∀ c ∈ (s.threads u).spot.pending,
      (s'.threads u).spot.place = (s.threads u).spot.place)
    (horphaned : ∀ u c, (s'.threads u).spot.orphaned = some c →
      (s.threads u).spot.orphaned = some c) : Places s' := by
  obtain ⟨hnodup, hlisted, hpnodup, hpend, hapart, honce, horph, horphOnce, hfound⟩ := h
  constructor <;> grind

omit [DecidableEq T] in
theorem Known.orphaned (h : Known s) (hc : (s.threads t).spot.orphaned = some c) :
    c < s.cacheCount := by
  refine h.thread t c (.inl ?_)
  generalize (s.threads t).spot = a at hc
  cases a <;> grind [CacheSpot.orphaned, CacheSpot.mentions]

/-- **The places after a step.** A new cache was nowhere; a pushed one goes from the thread to the
list, a detached list to the thread, and an orphan is in no place any more. -/
theorem Places.after (h : Places s) (hknown : Known s) (hmove : Move s t x e) :
    Places (s.after t x e) := by
  have hpool (c : ℕ) : ((s.after t x e).caches c).pool = _ := pool_apply c
  have hlist (p : ℕ) : ((s.after t x e).pools p).threadCaches = _ := threadCaches_apply p
  have hpending := hmove.pending
  have hplace (c : ℕ) := hmove.place (c := c)
  have horphaned (c : ℕ) := hmove.orphaned (c := c)
  cases e with
  | create p key =>
      have hfresh := hknown.fresh _ (Nat.le_refl _)
      have hold (u : T) (c : ℕ) := hknown.orphaned (t := u) (c := c)
      have hnone := hmove.create
      obtain ⟨hnodup, hlisted, hpnodup, hpend, hapart, honce, horph, horphOnce, hfound⟩ := h
      dsimp only [CacheEffect.pendingAfter, CacheEffect.placeAfter] at hpool hlist hpending hplace
      constructor <;> simp only [hpool, hlist, threads_after] <;> grind
  | push p c =>
      have hspot := hmove.push
      obtain ⟨hnodup, hlisted, hpnodup, hpend, hapart, honce, horph, horphOnce, hfound⟩ := h
      dsimp only [CacheEffect.pendingAfter, CacheEffect.placeAfter] at hpool hlist hpending hplace
      constructor <;> simp only [hpool, hlist, threads_after] <;>
        grind [CacheSpot.pending, CacheSpot.place]
  | detach p =>
      have hnone := hmove.detach
      obtain ⟨hnodup, hlisted, hpnodup, hpend, hapart, honce, horph, horphOnce, hfound⟩ := h
      dsimp only [CacheEffect.pendingAfter, CacheEffect.placeAfter] at hpool hlist hpending hplace
      constructor <;> simp only [hpool, hlist, threads_after] <;> grind
  | orphan c =>
      have hold := hmove.orphan
      obtain ⟨hnodup, hlisted, hpnodup, hpend, hapart, honce, horph, horphOnce, hfound⟩ := h
      dsimp only [CacheEffect.pendingAfter, CacheEffect.placeAfter] at hpool hlist hpending hplace
      constructor <;> simp only [hpool, hlist, threads_after] <;> grind
  | _ =>
      refine h.frame hpool hlist (fun u => ?_) (fun u c hc => ?_) (fun u c hc => ?_)
      · rw [threads_after]
        split_ifs with hu
        · exact hu ▸ hpending
        · rfl
      · rw [threads_after]
        split_ifs with hu
        · subst hu
          exact hplace c (hpending ▸ hc)
        · rfl
      · rw [threads_after] at hc
        split_ifs at hc with hu
        · exact hu ▸ (horphaned c hc).resolve_right (by simp)
        · exact hc

/-- **In every reachable state** each cache has its place. -/
theorem places_of_reachable (h : Reachable (cacheSystem T) s) : Known s ∧ Locked s ∧ Places s := by
  refine Reachable.invariant (I := fun s => Known s ∧ Locked s ∧ Places s) ?_ ?_ h
  · rintro s rfl
    refine ⟨⟨fun _ _ => rfl, ?_, ?_⟩, ?_, ?_⟩
    · simp [CacheThread.Knows, CacheSpot.mentions]
    · simp
    · simp [Locked, CacheSpot.locks]
    · constructor <;> simp [CacheSpot.pending, CacheSpot.orphaned]
  · rintro s ⟨t, op⟩ s' ⟨hknown, hlocked, hplaces⟩ hstep
    obtain ⟨x, e, hmove, rfl⟩ := move_of_step hstep
    exact ⟨hknown.after hmove, hlocked.after hknown hmove, hplaces.after hknown hmove⟩

end CacheState

end Aura
