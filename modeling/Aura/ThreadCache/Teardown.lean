import Aura.ThreadCache.Cleaning

/-!
# Teardown of pools and caches

What holds of the caches and the shards in every reachable state, while threads come and go and
pools are destroyed.

* **`cache_ownership`** — a cache is freed once, empty, and when no thread will use it again; but
  the thread that destroys the pool may still have to unlock its mutex.
* **`shards_guarded`** — nobody is in the shards of a pool when they are destroyed.
* **`pool_teardown`** — a pool that is destroyed has taken leave of all its caches.
-/

namespace Aura

open Lib

namespace CacheSpot

/-- A thread has a pointer to a cache that is its own, pending or orphaned. -/
theorem of_mem_mentions {x : CacheSpot} {c : ℕ} (h : c ∈ x.mentions) :
    x.Works c ∨ c ∈ x.pending ∨ x.orphaned = some c := by
  cases x <;> grind [mentions, Works, cached, owns, leaves, pending, orphaned]

theorem mem_mentions_of_locks {x : CacheSpot} {c : ℕ} (h : x.locks = some c) : c ∈ x.mentions := by
  cases x <;> grind [locks, mentions]

theorem decides_of_orphaned {x : CacheSpot} {c : ℕ} (h : x.orphaned = some c) :
    ∃ exited, x.decides = some (c, exited) := by
  cases x with
  | procUnlock p d rest exited | procDecide p d rest exited =>
      cases h
      exact ⟨exited, rfl⟩
  | _ => cases h

theorem of_decides {x : CacheSpot} {c : ℕ} {exited : Bool} (h : x.decides = some (c, exited)) :
    ∃ p rest, x = .procUnlock p c rest exited ∨ x = .procDecide p c rest exited := by
  cases x with
  | procUnlock p d rest exited =>
      cases h
      exact ⟨p, rest, .inl rfl⟩
  | procDecide p d rest exited =>
      cases h
      exact ⟨p, rest, .inr rfl⟩
  | _ => cases h

theorem registers_or_drains {x : CacheSpot} {p c : ℕ} (hc : c ∈ x.pending) (hp : x.place = some p) :
    x.registers = some p ∨ x.drains = some p := by
  cases x <;> grind [pending, place, registers, drains]

end CacheSpot

namespace CacheState

variable {T : Type*} {s s' : CacheState T} {t : T} {p c : ℕ}

section sound

variable [Fintype T]

/-- Only the thread that has orphaned a freed cache has a pointer to it, and it is not the one that
frees it. -/
theorem Sound.freed (hs : Sound s) (hfreed : (s.caches c).frees ≠ 0) (hc : (s.threads t).Knows c) :
    (s.caches c).ownerThread ≠ some t ∧ (s.threads t).spot.decides = some (c, false) := by
  have hnot (howned : Owned s t c) : False := hfreed howned.frees
  have horphaned : (s.threads t).spot.orphaned = some c := by
    rcases hc with hmem | htls | hkey
    · rcases CacheSpot.of_mem_mentions hmem with hworks | hpending | horphaned
      · rcases hworks with hcached | howns | hleaves
        · exact (hnot (hs.owners.tls t c (hs.owners.cached t c hcached))).elim
        · exact (hnot (hs.owners.owns t c howns)).elim
        · exact absurd (hs.owners.leaves t c hleaves).2.1 hfreed
      · obtain ⟨p, -, hpool⟩ := hs.places.pending t c hpending
        rw [(hs.owners.freed c hfreed).2] at hpool
        cases hpool
      · exact horphaned
    · exact (hnot (hs.owners.tls t c htls)).elim
    · exact (hnot (hs.owners.key t c hkey)).elim
  obtain ⟨exited, hdecides⟩ := CacheSpot.decides_of_orphaned horphaned
  obtain ⟨hown, hexited⟩ := hs.owners.decides t c exited hdecides
  refine ⟨fun ho => hfreed (hown ho), ?_⟩
  cases exited with
  | false => exact hdecides
  | true => exact absurd (hexited rfl).2.1 hfreed

/-- A cache of a pool is on its list, or pending with a thread that registers it or destroys the
pool. -/
theorem Sound.pool_none (hs : Sound s) (h : Emptied s) (hgone : (s.pools p).shards = none)
    (hquiet : ∀ t, (s.threads t).spot.drains ≠ some p) : (s.caches c).pool ≠ some p := by
  intro hpool
  rcases hs.places.found c p hpool with hlisted | ⟨t, hpending⟩
  · rw [h.gone p hgone] at hlisted
    cases hlisted
  · obtain ⟨q, hplace, hq⟩ := hs.places.pending t c hpending
    obtain rfl : q = p := Option.some.inj (hq.symm.trans hpool)
    rcases CacheSpot.registers_or_drains hpending hplace with hregisters | hdrains
    · exact ((hs.gates.gone q hgone).2 t).1 hregisters
    · exact hquiet t hdrains

end sound

variable [DecidableEq T]

/-- A cache of a pool stays with it until it is orphaned, and then it stays orphaned. -/
theorem pool_of_run {ls : List (T × CacheOp)} (h : Reachable (cacheSystem T) s)
    (hrun : Run (cacheSystem T) s ls s') (hpool : (s.caches c).pool = some p) :
    Reachable (cacheSystem T) s' ∧ c < s'.cacheCount ∧
      ((s'.caches c).pool = some p ∨ (s'.caches c).pool = none) := by
  have hcount : c < s.cacheCount := by
    by_contra hno
    rw [(places_of_reachable h).1.fresh c (Nat.not_lt.1 hno)] at hpool
    cases hpool
  refine hrun.invariant (I := fun s' => Reachable (cacheSystem T) s' ∧ c < s'.cacheCount ∧
    ((s'.caches c).pool = some p ∨ (s'.caches c).pool = none)) ?_ ⟨h, hcount, .inl hpool⟩
  rintro s₁ ⟨t, op⟩ s₂ ⟨hreach, hlt, hor⟩ hstep
  refine ⟨hreach.step hstep, ?_⟩
  obtain ⟨x, e, hmove, rfl⟩ := move_of_step hstep
  refine ⟨hlt.trans_le le_cacheCount_apply, ?_⟩
  cases hnew : ((s₁.after t x e).caches c).pool with
  | none => exact .inr rfl
  | some q =>
      rcases pool_of_after hnew with hold | ⟨rfl, -⟩
      · rw [hold] at hor
        exact .inl (hor.resolve_right (by simp))
      · exact absurd hlt (Nat.lt_irrefl _)

variable [Fintype T]

/-- **In every reachable state** the invariants hold. -/
theorem sound_of_reachable (h : Reachable (cacheSystem T) s) : Sound s where
  counted := (gates_of_reachable h).1
  gates := (gates_of_reachable h).2
  known := (places_of_reachable h).1
  locked := (places_of_reachable h).2.1
  places := (places_of_reachable h).2.2
  owners := owners_of_reachable h

theorem clean_of_reachable (h : Reachable (cacheSystem T) s) : Sound s ∧ Clean s ∧ Emptied s := by
  refine Reachable.invariant (I := fun s => Sound s ∧ Clean s ∧ Emptied s) ?_ ?_ h
  · rintro s rfl
    refine ⟨sound_of_reachable (.of_init rfl), ?_, ?_⟩
    · constructor <;> simp [CacheSpot.cleaned, CacheSpot.stores, CacheSpot.leaving,
        CacheSpot.registering, CacheSpot.pairs, CacheSpot.late, CacheSpot.inside]
    · constructor <;> simp [CacheSpot.final]
  · rintro s ⟨t, op⟩ s' ⟨hsound, hclean, hemptied⟩ hstep
    obtain ⟨x, e, hmove, rfl⟩ := move_of_step hstep
    have hafter : Sound (s.after t x e) :=
      { counted := hsound.counted.after hmove
        gates := hsound.gates.after hsound.counted hmove
        known := hsound.known.after hmove
        locked := hsound.locked.after hsound.known hmove
        places := hsound.places.after hsound.known hmove
        owners := hsound.owners.after hsound.known hsound.locked hsound.places hmove }
    exact ⟨hafter, hclean.after hsound hmove, hemptied.after hsound hmove⟩

end CacheState

/-! ## What becomes of them -/

/-- A thread gets a cache of the pool. -/
def getsCache {T : Type*} (t : T) (p : ℕ) : List (T × CacheOp) :=
  (t, .get p) :: List.replicate 4 (t, .advance) ++ (t, .create true true) ::
    List.replicate 3 (t, .advance)

/-- A thread destroys the pool, up to where it has orphaned the first cache. -/
def orphansCache {T : Type*} (t : T) (p : ℕ) : List (T × CacheOp) :=
  (t, .destroy p) :: List.replicate 7 (t, .advance)

section teardown

variable {T : Type*} [DecidableEq T] [Fintype T] {s s' : CacheState T}

/-- **A freed cache** is freed once, after it was cleaned up and orphaned; a cache that is cleaned
up is empty. A thread that still has a pointer to it is one that destroys the pool and is about to
unlock the mutex of the cache, or has just done so, and will not free it. -/
theorem cache_ownership (h : Reachable (cacheSystem T) s) (c : ℕ) :
    ((s.caches c).cleanedUp = true → (s.caches c).buffers = []) ∧
    ((s.caches c).frees ≠ 0 →
      (s.caches c).frees = 1 ∧ (s.caches c).pool = none ∧ (s.caches c).cleanedUp = true ∧
      (∀ p, c ∉ (s.pools p).threadCaches) ∧
      ∀ t, (s.threads t).Knows c → (s.caches c).ownerThread ≠ some t ∧ ∃ p rest,
        (s.threads t).spot = .procUnlock p c rest false ∨
        (s.threads t).spot = .procDecide p c rest false) := by
  obtain ⟨hsound, hclean, -⟩ := CacheState.clean_of_reachable h
  refine ⟨hclean.empty c, fun hfreed => ?_⟩
  obtain ⟨honce, hpool⟩ := hsound.owners.freed c hfreed
  have hcount : c < s.cacheCount := by
    by_contra hno
    rw [hsound.known.fresh c (Nat.not_lt.1 hno)] at hfreed
    exact hfreed rfl
  refine ⟨honce, hpool, hclean.orphaned c hcount hpool, fun p hlisted => ?_, fun t hknows => ?_⟩
  · rw [hsound.places.listed p c hlisted] at hpool
    cases hpool
  · obtain ⟨hother, hdecides⟩ := hsound.freed hfreed hknows
    exact ⟨hother, CacheSpot.of_decides hdecides⟩

/-- The thread of a cache finds it orphaned and frees it while the other thread still holds the
mutex. -/
theorem cache_ownership_race : ∃ s : CacheState Bool, Reachable (cacheSystem Bool) s ∧
    (s.caches 0).frees = 1 ∧ (s.threads true).spot.locks = some 0 ∧ (s.caches 0).buffers = [] ∧
    ∃ p rest, (s.threads true).spot = .procUnlock p 0 rest false ∨
      (s.threads true).spot = .procDecide p 0 rest false := by
  have hexec : ((execute CacheState.step {} (getsCache false 0 ++
      (false, .done) :: orphansCache true 0 ++ (false, .get 1) ::
        List.replicate 5 (false, .advance))).any fun s =>
      (s.caches 0).frees = 1 && (s.threads true).spot.locks = some 0) = true := by decide
  obtain ⟨s, hs, hchecks⟩ := (Option.any_eq_true _ _).1 hexec
  rw [Bool.and_eq_true, decide_eq_true_iff, decide_eq_true_iff] at hchecks
  obtain ⟨hfreed, hlocks⟩ := hchecks
  have hreach : Reachable (cacheSystem Bool) s := Reachable.of_execute rfl hs
  obtain ⟨hempty, hrest⟩ := cache_ownership hreach 0
  obtain ⟨-, -, hcleaned, -, hknows⟩ := hrest (by simp [hfreed])
  have hmem : 0 ∈ (s.threads true).spot.mentions := CacheSpot.mem_mentions_of_locks hlocks
  exact ⟨s, hreach, hfreed, hlocks, hempty hcleaned, (hknows true (.inl hmem)).2⟩

/-- **The gates of a pool.** The counters count the threads that register caches and those that have
entered; a thread in the shards finds them there, with a cache of the pool that nobody cleans up;
and a pool whose shards are gone is destroyed, and its list is empty. -/
theorem shards_guarded (h : Reachable (cacheSystem T) s) (p : ℕ) :
    (s.pools p).registrationsInflight = CacheState.tally CacheSpot.registration s p ∧
    (s.pools p).activeUsers = CacheState.tally CacheSpot.user s p ∧
    (∀ t, (s.threads t).spot.uses = some p → (s.pools p).shards ≠ none) ∧
    (∀ t c, (s.threads t).spot = .inShards p (some c) →
      (s.caches c).pool = some p ∧ (s.caches c).cleanedUp = false) ∧
    ((s.pools p).shards = none →
      (s.pools p).destroyed = true ∧ (s.pools p).threadCaches = []) := by
  obtain ⟨hsound, hclean, hemptied⟩ := CacheState.clean_of_reachable h
  refine ⟨hsound.counted.registrations p, hsound.counted.users p, fun t ht hgone => ?_,
    fun t c ht => ?_, fun hgone => ⟨(hsound.gates.gone p hgone).1, hemptied.gone p hgone⟩⟩
  · exact ((hsound.gates.gone p hgone).2 t).2 ht
  · exact hclean.inside t p c (by rw [ht]; rfl)

/-- A thread in the shards of a pool, with its cache. -/
theorem shards_guarded_inside : ∃ s : CacheState Bool, Reachable (cacheSystem Bool) s ∧
    (s.threads false).spot = .inShards 0 (some 0) ∧ (s.caches 0).pool = some 0 ∧
    (s.caches 0).cleanedUp = false := by
  have hexec : ((execute CacheState.step {}
      (getsCache false 0 ++ [(false, .enter), (false, .advance), (false, .advance)])).any fun s =>
      (s.threads false).spot.inside = some (0, 0)) = true := by decide
  obtain ⟨s, hs, hcheck⟩ := (Option.any_eq_true _ _).1 hexec
  have hreach : Reachable (cacheSystem Bool) s := Reachable.of_execute rfl hs
  have hspot := CacheSpot.of_inside (of_decide_eq_true hcheck)
  exact ⟨s, hreach, hspot, (shards_guarded hreach 0).2.2.2.1 false 0 hspot⟩

/-- **A pool that is destroyed** has no caches any more: each cache that it had is orphaned, cleaned
up and empty. -/
theorem pool_teardown {ls : List (T × CacheOp)} (h : Reachable (cacheSystem T) s)
    (hrun : Run (cacheSystem T) s ls s') {p : ℕ} (hgone : (s'.pools p).shards = none)
    (hquiet : ∀ t, (s'.threads t).spot.drains ≠ some p) {c : ℕ}
    (hpool : (s.caches c).pool = some p) :
    (s'.caches c).pool = none ∧ (s'.caches c).cleanedUp = true ∧ (s'.caches c).buffers = [] := by
  obtain ⟨hreach, hcount, hor⟩ := CacheState.pool_of_run h hrun hpool
  obtain ⟨hsound, hclean, hemptied⟩ := CacheState.clean_of_reachable hreach
  have hnone := hor.resolve_left (hsound.pool_none hemptied hgone hquiet)
  have hcleaned := hclean.orphaned c hcount hnone
  exact ⟨hnone, hcleaned, hclean.empty c hcleaned⟩

/-- A thread gets a cache and the other one destroys the pool. -/
theorem pool_teardown_run : ∃ s s' : CacheState Bool, ∃ ls,
    Reachable (cacheSystem Bool) s ∧ Run (cacheSystem Bool) s ls s' ∧
    (s.caches 0).pool = some 0 ∧ (s'.pools 0).shards = none ∧ (s'.caches 0).pool = none ∧
    (s'.caches 0).cleanedUp = true ∧ (s'.caches 0).buffers = [] := by
  have hfirst : ((execute CacheState.step {} (getsCache false 0)).any fun s =>
      (s.caches 0).pool = some 0 && (execute CacheState.step s
        ((false, .done) :: orphansCache true 0 ++ List.replicate 4 (true, .advance))).any fun s' =>
          (s'.pools 0).shards = none &&
          ∀ t, (s'.threads t).spot.drains = none) = true := by decide
  obtain ⟨s, hs, hchecks⟩ := (Option.any_eq_true _ _).1 hfirst
  obtain ⟨hpool, hsecond⟩ := Bool.and_eq_true_iff.1 hchecks
  obtain ⟨s', hs', hchecks'⟩ := (Option.any_eq_true _ _).1 hsecond
  rw [Bool.and_eq_true, decide_eq_true_iff, decide_eq_true_iff] at hchecks'
  obtain ⟨hgone, hquiet⟩ := hchecks'
  have hreach : Reachable (cacheSystem Bool) s := Reachable.of_execute rfl hs
  have hrun : Run (cacheSystem Bool) s _ s' := Run.of_execute hs'
  have hpool' := of_decide_eq_true hpool
  have hteardown := pool_teardown hreach hrun hgone (by simp [hquiet]) hpool'
  exact ⟨s, s', _, hreach, hrun, hpool', hgone, hteardown⟩

end teardown

end Aura
