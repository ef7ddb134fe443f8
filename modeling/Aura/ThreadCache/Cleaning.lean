import Aura.ThreadCache.Owners

/-!
# What is in a cache when it goes

A cache is cleaned up once, by whoever takes it from its thread or destroys its pool; after that
nothing is put into it, and so it is empty when it is freed.

* `CacheState.Clean` — which caches are cleaned up, and what their threads may still do with them.
* `CacheState.Emptied` — the list of a pool whose shards are gone.
-/

namespace Aura

open Lib

namespace CacheSpot

/-- The pool and the cache of a thread that registers the cache or has got it for the pool. -/
def pairs : CacheSpot → Option (ℕ × ℕ)
  | regPush p c | regRecheck p c | lateLock p c | lateMark p c | lateUnlock p c | regDone p c _
  | fastDestroyed p c => some (p, c)
  | got p cache | userEnter p cache | userCheck p cache => cache.map (p, ·)
  | _ => none

/-- The cache that the thread registers. -/
def registering : CacheSpot → Option ℕ
  | regPush _ c | regRecheck _ c | lateLock _ c | lateMark _ c | lateUnlock _ c | regDone _ c _ =>
    some c
  | _ => none

/-- The pool that the thread has found destroyed after it registered a cache. -/
def late : CacheSpot → Option ℕ
  | lateLock p _ | lateMark p _ | lateUnlock p _ => some p
  | regDone p _ late => if late then some p else none
  | _ => none

/-- The pool and the cache of a thread in the shards. -/
def inside : CacheSpot → Option (ℕ × ℕ)
  | inShards p cache => cache.map (p, ·)
  | _ => none

/-- The cache that a buffer is about to be stored in. -/
def stores : CacheSpot → Option ℕ
  | storePush _ c _ => some c
  | _ => none

/-- The cache that the thread has cleaned up and is about to orphan. -/
def cleaned : CacheSpot → Option ℕ
  | procOrphan _ c _ => some c
  | _ => none

/-- The thread has cleaned up its cache and turns to another pool. -/
def leaving : CacheSpot → Bool
  | leaveUnlock _ _ _ | leaveExit _ _ _ => true
  | _ => false

/-- The pool whose shards are destroyed next. -/
def final : CacheSpot → Option ℕ
  | destroyShards p => some p
  | _ => none

variable {x : CacheSpot} {p c : ℕ}

theorem locks_of_stores (h : x.stores = some c) : x.locks = some c := by
  cases x <;> grind [stores, locks]

theorem owns_of_registering (h : x.registering = some c) : x.owns = some c := by
  cases x <;> grind [registering, owns]

theorem exits_of_leaves (h : x.leaves = some c) : x.exits = true := by
  cases x <;> grind [leaves, exits]

theorem not_registering_of_leaves {d : ℕ} (h : x.leaves = some c) : x.registering ≠ some d := by
  cases x <;> grind [leaves, registering]

theorem cached_of_stores (h : x.stores = some c) : x.cached = some c := by
  cases x <;> grind [stores, cached]

theorem not_cached_of_registering {d : ℕ} (h : x.registering = some c) : x.cached ≠ some d := by
  cases x <;> grind [registering, cached]

theorem not_leaving_of_registering (h : x.registering = some c) : x.leaving = false := by
  cases x <;> grind [registering, leaving]

theorem not_leaving_of_pairs (h : x.pairs = some (p, c)) : x.leaving = false := by
  cases x <;> grind [pairs, leaving]

theorem drains_of_cached (h : x.cached = some c) : x.drains = none := by
  cases x <;> grind [cached, drains]

theorem leaves_of_cached (h : x.cached = some c) : x.leaves = none := by
  cases x <;> grind [cached, leaves]

theorem mem_mentions_of_pairs (h : x.pairs = some (p, c)) : c ∈ x.mentions := by
  cases x <;> grind [pairs, mentions, Option.map_eq_some_iff]

theorem drains_of_final (h : x.final = some p) : x.drains = some p := by
  cases x <;> grind [final, drains]

theorem of_inside (h : x.inside = some (p, c)) : x = inShards p (some c) := by
  cases x with
  | inShards q cache =>
      cases cache with
      | none => cases h
      | some d =>
          cases h
          rfl
  | _ => cases h

theorem cached_of_inside (h : x.inside = some (p, c)) : x.cached = some c := by
  rw [of_inside h]
  rfl

theorem not_leaving_of_inside (h : x.inside = some (p, c)) : x.leaving = false := by
  rw [of_inside h]
  rfl

theorem uses_of_inside (h : x.inside = some (p, c)) : x.uses = some p := by
  rw [of_inside h]
  rfl

end CacheSpot

namespace CacheState

variable {T : Type*} {s s' : CacheState T} {t u : T} {x : CacheThread} {e : CacheEffect} {p c : ℕ}

/-! ## The caches after a step -/

theorem cleanedUp_apply (c : ℕ) : ((s.apply t e).caches c).cleanedUp =
    match e with
    | .create _ _ => if c = s.cacheCount then false else (s.caches c).cleanedUp
    | .markCleaned d => if c = d then true else (s.caches c).cleanedUp
    | .cleanup _ d _ => if c = d then true else (s.caches c).cleanedUp
    | _ => (s.caches c).cleanedUp := by
  cases e <;> grind [apply, caches_setCache, caches_setPool, caches_shardsGet, caches_keyInit,
    caches_createCache, caches_cleanupCache, keyInit]

theorem buffers_apply (c : ℕ) : ((s.apply t e).caches c).buffers =
    match e with
    | .create _ _ => if c = s.cacheCount then [] else (s.caches c).buffers
    | .cleanup _ d _ =>
      if c = d ∧ (s.caches c).cleanedUp = false then [] else (s.caches c).buffers
    | .take d => if c = d then (s.caches c).buffers.tail else (s.caches c).buffers
    | .store d b => if c = d then b :: (s.caches c).buffers else (s.caches c).buffers
    | .refill p d k =>
      if c = d then ((s.pools p).shards.getD []).take k ++ (s.caches c).buffers
      else (s.caches c).buffers
    | .flush _ d k => if c = d then (s.caches c).buffers.drop k else (s.caches c).buffers
    | _ => (s.caches c).buffers := by
  cases e <;> grind [apply, caches_setCache, caches_setPool, caches_shardsGet, caches_keyInit,
    caches_createCache, caches_cleanupCache, keyInit]

/-! ## How a thread comes to these spots -/

section goes

variable {a b : CacheSpot}

@[simp] theorem pairs_nextCache (rest : List ℕ) : (nextCache p rest).pairs = none := by
  cases rest <;> rfl

@[simp] theorem registering_nextCache (rest : List ℕ) :
    (nextCache p rest).registering = none := by cases rest <;> rfl

@[simp] theorem late_nextCache (rest : List ℕ) : (nextCache p rest).late = none := by
  cases rest <;> rfl

@[simp] theorem inside_nextCache (rest : List ℕ) : (nextCache p rest).inside = none := by
  cases rest <;> rfl

@[simp] theorem stores_nextCache (rest : List ℕ) : (nextCache p rest).stores = none := by
  cases rest <;> rfl

@[simp] theorem cleaned_nextCache (rest : List ℕ) : (nextCache p rest).cleaned = none := by
  cases rest <;> rfl

@[simp] theorem leaving_nextCache (rest : List ℕ) : (nextCache p rest).leaving = false := by
  cases rest <;> rfl

@[simp] theorem final_nextCache (rest : List ℕ) : (nextCache p rest).final = none := by
  cases rest <;> rfl

theorem Goes.pairs (h : Goes s t a b e) (hb : b.pairs = some (p, c)) :
    a.pairs = some (p, c) ∨ a.inside = some (p, c) ∨ (s.caches c).pool = some p ∨
      (c = s.cacheCount ∧ ∃ key, e = .create p key) := by
  cases h with
  | create q key =>
      cases hb
      exact .inr (.inr (.inr ⟨rfl, key, rfl⟩))
  | _ => grind [CacheSpot.pairs, CacheSpot.inside, pairs_nextCache]

theorem Goes.registering (h : Goes s t a b e) (hb : b.registering = some c) :
    a.registering = some c ∨ (c = s.cacheCount ∧ ∃ p key, e = .create p key) := by
  cases h <;> grind [CacheSpot.registering, registering_nextCache]

theorem Goes.late (h : Goes s t a b e) (hb : b.late = some p) :
    a.late = some p ∨ (s.pools p).destroyed = true := by
  cases h <;> grind [CacheSpot.late, late_nextCache]

theorem Goes.inside (h : Goes s t a b e) (hb : b.inside = some (p, c)) :
    a.inside = some (p, c) ∨ (a.pairs = some (p, c) ∧ a.cached = some c ∧
      (s.pools p).destroyed = false) := by
  cases h with
  | userCheck q cache halive =>
      cases cache <;> grind [CacheSpot.inside, CacheSpot.pairs, CacheSpot.cached]
  | _ => grind [CacheSpot.inside, inside_nextCache]

theorem Goes.stores (h : Goes s t a b e) (hb : b.stores = some c) :
    (s.caches c).cleanedUp = false ∧ e = .nothing := by
  cases h <;> grind [CacheSpot.stores, stores_nextCache]

theorem Goes.cleaned (h : Goes s t a b e) (hb : b.cleaned = some c) :
    e = .cleanup none c .free := by
  cases h <;> grind [CacheSpot.cleaned, cleaned_nextCache]

theorem Goes.leaving (h : Goes s t a b e) (ha : a.leaving = true) : b.leaving = true := by
  cases h <;> grind [CacheSpot.leaving]

theorem Goes.final (h : Goes s t a b e) (hb : b.final = some p) : e = .detach p := by
  cases h <;> grind [CacheSpot.final, final_nextCache]

end goes

section move

theorem Move.pairs (h : Move s t x e) (hx : x.spot.pairs = some (p, c)) :
    (s.threads t).spot.pairs = some (p, c) ∨ (s.threads t).spot.inside = some (p, c) ∨
      (s.caches c).pool = some p ∨ (c = s.cacheCount ∧ ∃ key, e = .create p key) := by
  cases h with
  | go hspot h => exact hspot ▸ h.pairs hx
  | regDone q d late hspot => cases late <;> grind [CacheSpot.pairs, spot_setKey]
  | _ => grind [CacheSpot.pairs, pairs_nextCache, spot_setKey, spot_dropCache]

theorem Move.registering (h : Move s t x e) (hx : x.spot.registering = some c) :
    (s.threads t).spot.registering = some c ∨ (c = s.cacheCount ∧ ∃ p key, e = .create p key) := by
  cases h with
  | go hspot h => exact hspot ▸ h.registering hx
  | _ => grind [CacheSpot.registering, registering_nextCache, spot_setKey, spot_dropCache]

theorem Move.late (h : Move s t x e) (hx : x.spot.late = some p) :
    (s.threads t).spot.late = some p ∨ (s.pools p).destroyed = true := by
  cases h with
  | go hspot h => exact hspot ▸ h.late hx
  | _ => grind [CacheSpot.late, late_nextCache, spot_setKey, spot_dropCache]

theorem Move.inside (h : Move s t x e) (hx : x.spot.inside = some (p, c)) :
    (s.threads t).spot.inside = some (p, c) ∨ ((s.threads t).spot.pairs = some (p, c) ∧
      (s.threads t).spot.cached = some c ∧ (s.pools p).destroyed = false) := by
  cases h with
  | go hspot h => exact hspot ▸ h.inside hx
  | _ => grind [CacheSpot.inside, inside_nextCache, spot_setKey, spot_dropCache]

theorem Move.stores (h : Move s t x e) (hx : x.spot.stores = some c) :
    (s.caches c).cleanedUp = false ∧ e = .nothing := by
  cases h with
  | go hspot h => exact h.stores hx
  | _ => grind [CacheSpot.stores, stores_nextCache, spot_setKey, spot_dropCache]

theorem Move.cleaned (h : Move s t x e) (hx : x.spot.cleaned = some c) :
    e = .cleanup none c .free := by
  cases h with
  | go hspot h => exact h.cleaned hx
  | _ => grind [CacheSpot.cleaned, cleaned_nextCache, spot_setKey, spot_dropCache]

theorem Move.leaving (h : Move s t x e) (ht : (s.threads t).spot.leaving = true) :
    x.spot.leaving = true ∨ x.tlsCache = none := by
  cases h with
  | go hspot h => exact .inl (h.leaving (hspot ▸ ht))
  | _ => grind [CacheSpot.leaving, setKey, dropCache]

theorem Move.final (h : Move s t x e) (hx : x.spot.final = some p) : e = .detach p := by
  cases h with
  | go hspot h => exact h.final hx
  | _ => grind [CacheSpot.final, final_nextCache, spot_setKey, spot_dropCache]

/-- A cache that a thread takes up as its own is one that it has registered. -/
theorem Move.takes (h : Move s t x e) (hc : x.tlsCache = some c) :
    (s.threads t).tlsCache = some c ∨ (s.threads t).spot.registering = some c := by
  cases h <;> grind [CacheSpot.registering, setKey, dropCache]

/-- The ways to clean up a cache. -/
theorem Move.cleanup {o : Option ℕ} {mode : CacheCleanupMode}
    (h : Move s t x (.cleanup o c mode)) : (s.threads t).spot.locks = some c ∧
    (((s.threads t).spot.cached = some c ∧ x.spot.leaving = true) ∨
      (s.threads t).spot.leaves = some c ∨
      ∃ p, (s.threads t).spot.drains = some p ∧ (s.threads t).spot.place = some p ∧
        c ∈ (s.threads t).spot.pending) := by
  cases h with
  | go hspot h =>
      rw [hspot]
      cases h with
      | leaveClean p _ q _ => exact ⟨rfl, .inl ⟨rfl, rfl⟩⟩
      | exitFlush _ q => exact ⟨rfl, .inr (.inl rfl)⟩
      | exitFree _ => exact ⟨rfl, .inr (.inl rfl)⟩
      | procClean p _ rest => exact ⟨rfl, .inr (.inr ⟨p, rfl, rfl, List.mem_cons_self⟩)⟩

theorem Move.markCleaned (h : Move s t x (.markCleaned c)) :
    ∃ p, (s.threads t).spot = .lateMark p c := by
  cases h with
  | go hspot h =>
      cases h
      exact ⟨_, hspot⟩

theorem Move.store {b : ℕ} (h : Move s t x (.store c b)) :
    (s.threads t).spot.stores = some c := by
  cases h with
  | go hspot h =>
      rw [hspot]
      cases h
      rfl

theorem Move.refill {k : ℕ} (h : Move s t x (.refill p c k)) :
    (s.threads t).spot.inside = some (p, c) := by
  cases h with
  | go hspot h =>
      rw [hspot]
      cases h
      rfl

theorem Move.destroyShards (h : Move s t x (.destroyShards p)) :
    (s.threads t).spot.final = some p := by
  cases h with
  | go hspot h =>
      rw [hspot]
      cases h
      rfl

end move

/-! ## Cleaning up -/

/-- A cache is cleaned up only when its pool is destroyed. The thread of the cache relies on it. -/
def Usable (s : CacheState T) (c : ℕ) : Prop :=
  ∀ p, (s.caches c).pool = some p → (s.pools p).destroyed = true ∨ (s.caches c).cleanedUp = false

/-- **Which caches are cleaned up**, and what their threads rely on. -/
structure Clean (s : CacheState T) : Prop where
  empty : ∀ c, (s.caches c).cleanedUp = true → (s.caches c).buffers = []
  orphaned : ∀ c, c < s.cacheCount → (s.caches c).pool = none → (s.caches c).cleanedUp = true
  cleaned : ∀ t c, (s.threads t).spot.cleaned = some c → (s.caches c).cleanedUp = true
  stores : ∀ t c, (s.threads t).spot.stores = some c → (s.caches c).cleanedUp = false
  usable : ∀ t c, (s.threads t).tlsCache = some c → (s.threads t).spot.leaving = false →
    s.Usable c
  registering : ∀ t c, (s.threads t).spot.registering = some c →
    (s.caches c).buffers = [] ∧ s.Usable c
  /-- The cache belongs to the pool, unless that is destroyed. -/
  pairs : ∀ t p c, (s.threads t).spot.pairs = some (p, c) → (s.caches c).pool = some p ∨
    ((s.caches c).pool = none ∧ (s.pools p).destroyed = true)
  late : ∀ t p, (s.threads t).spot.late = some p → (s.pools p).destroyed = true
  /-- In the shards a thread has a cache that nobody cleans up. -/
  inside : ∀ t p c, (s.threads t).spot.inside = some (p, c) → (s.caches c).pool = some p ∧
    (s.caches c).cleanedUp = false

/-- What is known of every reachable state. -/
structure Sound [Fintype T] (s : CacheState T) : Prop where
  counted : Counted s
  gates : Gates s
  known : Known s
  locked : Locked s
  places : Places s
  owners : Owners s

/-! ## What a step does to a cache -/

section step

variable [DecidableEq T]

theorem pool_after (c : ℕ) : ((s.after t x e).caches c).pool = ((s.apply t e).caches c).pool := rfl

/-- A cache is given a pool only when it is new. -/
theorem pool_of_after (h : ((s.after t x e).caches c).pool = some p) :
    (s.caches c).pool = some p ∨ (c = s.cacheCount ∧ ∃ key, e = .create p key) := by
  rw [pool_after, pool_apply] at h
  grind

theorem destroyed_of_after (h : (s.pools p).destroyed = true) :
    ((s.after t x e).pools p).destroyed = true := destroyed_after.2 (.inl h)

variable [Fintype T]

/-- A cache keeps its pool until that is destroyed. -/
theorem Sound.pool_step (hs : Sound s) (hmove : Move s t x e) (hpool : (s.caches c).pool = some p) :
    ((s.after t x e).caches c).pool = some p ∨ (((s.after t x e).caches c).pool = none ∧
      (s.threads t).spot.drains = some p ∧ x.spot.orphaned = some c) := by
  rw [pool_after, pool_apply]
  cases e with
  | create q key =>
      refine .inl ?_
      have hne : c ≠ s.cacheCount := by
        rintro rfl
        rw [hs.known.fresh _ (Nat.le_refl _)] at hpool
        cases hpool
      exact (if_neg hne).trans hpool
  | orphan d =>
      by_cases hcd : c = d
      · subst hcd
        obtain ⟨q, rest, hspot, rfl⟩ := hmove.orphan_spot
        obtain ⟨r, hr, hr'⟩ := hs.places.pending t c (by rw [hspot]; exact List.mem_cons_self)
        have hpr : p = r := Option.some.inj (hpool.symm.trans hr')
        rw [hspot] at hr ⊢
        refine .inr ⟨if_pos rfl, ?_, rfl⟩
        exact hpr ▸ hr
      · exact .inl ((if_neg hcd).trans hpool)
  | _ => exact .inl hpool

/-- **Who cleans up a cache that has a pool**: whoever destroys the pool, or its thread when it
leaves it, exits or has come too late. -/
theorem Sound.clean_step (hs : Sound s) (hmove : Move s t x e)
    (hown : (s.caches c).ownerThread = some u) (hpool : (s.caches c).pool = some p)
    (hold : (s.caches c).cleanedUp = false) (hnew : ((s.after t x e).caches c).cleanedUp = true) :
    (s.threads t).spot.drains = some p ∨ (u = t ∧ (x.spot.leaving = true ∨
      (s.threads t).spot.leaves = some c ∨ ∃ q, (s.threads t).spot = .lateMark q c)) := by
  have heq : ((s.after t x e).caches c).cleanedUp = _ := cleanedUp_apply c
  rw [heq] at hnew
  have hmine {v : T} (hv : Owned s v c) : u = v := Option.some.inj (hown.symm.trans hv.owner)
  cases e with
  | cleanup o d mode =>
      dsimp only at hnew
      split_ifs at hnew with hcd
      · subst hcd
        obtain ⟨-, ⟨hcached, hleaving⟩ | hleaves | ⟨q, hdrains, hplace, hmem⟩⟩ := hmove.cleanup
        · exact .inr ⟨hmine (hs.owners.tls t c (hs.owners.cached t c hcached)), .inl hleaving⟩
        · have ho := (hs.owners.leaves t c hleaves).1
          exact .inr ⟨Option.some.inj (hown.symm.trans ho), .inr (.inl hleaves)⟩
        · obtain ⟨r, hr, hr'⟩ := hs.places.pending t c hmem
          have hqp : q = p := by grind
          exact .inl (hqp ▸ hdrains)
      · exact absurd (hold.symm.trans hnew) Bool.false_ne_true
  | markCleaned d =>
      dsimp only at hnew
      split_ifs at hnew with hcd
      · subst hcd
        obtain ⟨q, hspot⟩ := hmove.markCleaned
        exact .inr ⟨hmine (hs.owners.owns t c (by rw [hspot]; rfl)), .inr (.inr ⟨q, hspot⟩)⟩
      · exact absurd (hold.symm.trans hnew) Bool.false_ne_true
  | create q key =>
      dsimp only at hnew
      split_ifs at hnew with hc
      exact absurd (hold.symm.trans hnew) Bool.false_ne_true
  | _ => exact absurd (hold.symm.trans hnew) Bool.false_ne_true

/-- A cleanup stays. -/
theorem cleanedUp_after (hs : Sound s) (h : (s.caches c).cleanedUp = true) :
    ((s.after t x e).caches c).cleanedUp = true := by
  have heq : ((s.after t x e).caches c).cleanedUp = _ := cleanedUp_apply c
  have hfresh := hs.known.fresh s.cacheCount (Nat.le_refl _)
  rw [heq]
  cases e with
  | create p key =>
      have hne : c ≠ s.cacheCount := by
        rintro rfl
        rw [hfresh] at h
        cases h
      exact (if_neg hne).trans h
  | _ => grind

omit [Fintype T] in
/-- What is cleaned up is empty: buffers come in only where nobody cleans up. -/
theorem Clean.empty_after (h : Clean s) (hmove : Move s t x e)
    (hc : ((s.after t x e).caches c).cleanedUp = true) :
    ((s.after t x e).caches c).buffers = [] := by
  have hclean : ((s.after t x e).caches c).cleanedUp = _ := cleanedUp_apply c
  have hbuffers : ((s.after t x e).caches c).buffers = _ := buffers_apply c
  have hold := h.empty c
  rw [hclean] at hc
  rw [hbuffers]
  cases e with
  | markCleaned d =>
      obtain ⟨q, hspot⟩ := hmove.markCleaned
      have hnone := (h.registering t d (by rw [hspot]; rfl)).1
      grind
  | store d b =>
      have hno := h.stores t d hmove.store
      grind
  | refill p d k =>
      have hno := (h.inside t p d hmove.refill).2
      grind
  | _ => grind

theorem Clean.orphaned_after (hs : Sound s) (h : Clean s) (hmove : Move s t x e)
    (hc : c < (s.after t x e).cacheCount) (hpool : ((s.after t x e).caches c).pool = none) :
    ((s.after t x e).caches c).cleanedUp = true := by
  have hcount : (s.after t x e).cacheCount = _ := cacheCount_apply
  rw [pool_after, pool_apply] at hpool
  refine cleanedUp_after hs ?_
  cases e with
  | create p key => grind [h.orphaned c]
  | orphan d =>
      obtain ⟨p, rest, hspot, -⟩ := hmove.orphan_spot
      have hd := h.cleaned t d (by rw [hspot]; rfl)
      grind [h.orphaned c]
  | _ => exact h.orphaned c (hc.trans_eq hcount) hpool

theorem Clean.cleaned_after (hs : Sound s) (h : Clean s) (hmove : Move s t x e)
    (hc : ((s.after t x e).threads u).spot.cleaned = some c) :
    ((s.after t x e).caches c).cleanedUp = true := by
  rw [threads_after] at hc
  split_ifs at hc with hu
  · obtain rfl := hmove.cleaned hc
    exact (cleanedUp_apply c).trans (if_pos rfl)
  · exact cleanedUp_after hs (h.cleaned u c hc)

/-- A thread that is about to store a buffer holds the mutex, so that nobody cleans up. -/
theorem Clean.stores_after (hs : Sound s) (h : Clean s) (hmove : Move s t x e)
    (hc : ((s.after t x e).threads u).spot.stores = some c) :
    ((s.after t x e).caches c).cleanedUp = false := by
  have hclean : ((s.after t x e).caches c).cleanedUp = _ := cleanedUp_apply c
  rw [threads_after] at hc
  split_ifs at hc with hu
  · obtain ⟨hold, rfl⟩ := hmove.stores hc
    exact hclean.trans hold
  · have hold := h.stores u c hc
    have hlock : (s.threads u).spot.locks = some c := CacheSpot.locks_of_stores hc
    have hother (ht : (s.threads t).spot.locks = some c) : False := by
      have heq := ((hs.locked c u).2 hlock).symm.trans ((hs.locked c t).2 ht)
      exact hu (Option.some.inj heq)
    rw [hclean]
    cases e with
    | cleanup o d mode =>
        have ht := hmove.cleanup.1
        grind
    | markCleaned d =>
        obtain ⟨q, hspot⟩ := hmove.markCleaned
        have ht : (s.threads t).spot.locks = some d := by rw [hspot]; rfl
        grind
    | _ => grind

/-- A cache stays usable unless its thread cleans it up. -/
theorem Usable.after (hs : Sound s) (hmove : Move s t x e) (h : s.Usable c)
    (hown : (s.caches c).ownerThread = some u)
    (hself : u = t → x.spot.leaving = false ∧ (s.threads t).spot.leaves ≠ some c ∧
      ∀ q, (s.threads t).spot = .lateMark q c → (s.after t x e).Usable c) :
    (s.after t x e).Usable c := by
  intro p hpool
  have hpool' : (s.caches c).pool = some p := by
    rcases pool_of_after hpool with hold | ⟨rfl, key, rfl⟩
    · exact hold
    · rw [hs.known.fresh _ (Nat.le_refl _)] at hown
      cases hown
  rcases h p hpool' with hd | hold
  · exact .inl (destroyed_of_after hd)
  · by_contra hno
    rw [not_or, Bool.not_eq_false] at hno
    rcases hs.clean_step hmove hown hpool' hold hno.2 with
      hdrains | ⟨rfl, hleaving | hleaves | ⟨q, hlate⟩⟩
    · have hcloses := CacheSpot.closes_of_drains hdrains
      have hdestroys := CacheSpot.destroys_of_closes hcloses
      exact hno.1 (destroyed_of_after (hs.gates.destroyed t p hdestroys))
    · exact absurd ((hself rfl).1.symm.trans hleaving) Bool.false_ne_true
    · exact (hself rfl).2.1 hleaves
    · exact ((hself rfl).2.2 q hlate p hpool).elim hno.1 fun hc =>
        absurd (hc.symm.trans hno.2) Bool.false_ne_true

omit [Fintype T] in
/-- A thread that has come too late knows that the pool is destroyed. -/
theorem Clean.usable_of_late (h : Clean s) (hknown : Known s) {q : ℕ}
    (hspot : (s.threads t).spot = .lateMark q c) : (s.after t x e).Usable c := by
  intro p hpool
  have hd : (s.pools q).destroyed = true := h.late t q (by rw [hspot]; rfl)
  have hmem : c ∈ (s.threads t).spot.mentions := by simp [hspot, CacheSpot.mentions]
  have hne : c ≠ s.cacheCount := (hknown.thread t c (.inl hmem)).ne
  have hpool' := (pool_of_after hpool).resolve_right fun hnew => hne hnew.1
  rcases h.pairs t q c (by rw [hspot]; rfl) with hq | ⟨hq, -⟩
  · have hpq : p = q := Option.some.inj (hpool'.symm.trans hq)
    exact .inl (destroyed_of_after (hpq ▸ hd))
  · rw [hq] at hpool'
    cases hpool'

theorem Clean.usable_after (hs : Sound s) (h : Clean s) (hmove : Move s t x e)
    (hc : ((s.after t x e).threads u).tlsCache = some c)
    (hleaving : ((s.after t x e).threads u).spot.leaving = false) : (s.after t x e).Usable c := by
  rw [threads_after] at hc hleaving
  split_ifs at hc hleaving with hu
  · have hlate : ∀ q, (s.threads t).spot = .lateMark q c → (s.after t x e).Usable c :=
      fun q hspot => h.usable_of_late hs.known hspot
    rcases hmove.takes hc with hold | hreg
    · -- the thread had the cache, and was not leaving
      have hstays : (s.threads t).spot.leaving = false := by
        by_contra hno
        rw [Bool.not_eq_false] at hno
        rcases hmove.leaving hno with hl | hl
        · exact absurd (hleaving.symm.trans hl) Bool.false_ne_true
        · rw [hl] at hc
          cases hc
      refine (h.usable t c hold hstays).after hs hmove (hs.owners.tls t c hold).owner fun _ =>
        ⟨hleaving, fun hl => ?_, hlate⟩
      rw [(hs.owners.exits t (CacheSpot.exits_of_leaves hl)).1] at hold
      cases hold
    · refine (h.registering t c hreg).2.after hs hmove
        (hs.owners.owns t c (CacheSpot.owns_of_registering hreg)).owner fun _ =>
        ⟨hleaving, fun hl => ?_, hlate⟩
      exact CacheSpot.not_registering_of_leaves hl hreg
  · exact (h.usable u c hc hleaving).after hs hmove (hs.owners.tls u c hc).owner
      fun heq => absurd heq hu

omit [Fintype T] in
/-- Buffers come in only at two spots. -/
theorem Move.buffers_after (hmove : Move s t x e) (hc : (s.caches c).buffers = []) :
    ((s.after t x e).caches c).buffers = [] ∨ (s.threads t).spot.stores = some c ∨
      ∃ p, (s.threads t).spot.inside = some (p, c) := by
  have hbuffers : ((s.after t x e).caches c).buffers = _ := buffers_apply c
  rw [hbuffers]
  cases e with
  | store d b =>
      have hstores := hmove.store
      grind
  | refill p d k =>
      have hinside := hmove.refill
      grind
  | _ => grind

theorem Clean.registering_after (hs : Sound s) (h : Clean s) (hmove : Move s t x e)
    (hc : ((s.after t x e).threads u).spot.registering = some c) :
    ((s.after t x e).caches c).buffers = [] ∧ (s.after t x e).Usable c := by
  -- a thread that registers a cache is its only one
  have hold {v : T} (hv : (s.threads v).spot.registering = some c)
      (hself : v = t → x.spot.leaving = false) :
      ((s.after t x e).caches c).buffers = [] ∧ (s.after t x e).Usable c := by
    have hown := hs.owners.owns v c (CacheSpot.owns_of_registering hv)
    obtain ⟨hempty, husable⟩ := h.registering v c hv
    have hnot (hcached : (s.threads t).spot.cached = some c) : False := by
      have hown' := hs.owners.tls t c (hs.owners.cached t c hcached)
      obtain rfl := Option.some.inj (hown.owner.symm.trans hown'.owner)
      exact CacheSpot.not_cached_of_registering hv hcached
    constructor
    · rcases hmove.buffers_after hempty with hempty | hstores | ⟨p, hinside⟩
      · exact hempty
      · exact (hnot (CacheSpot.cached_of_stores hstores)).elim
      · exact (hnot (CacheSpot.cached_of_inside hinside)).elim
    · refine husable.after hs hmove hown.owner fun hvt => ⟨hself hvt, fun hl => ?_, fun q hspot =>
        h.usable_of_late hs.known hspot⟩
      exact CacheSpot.not_registering_of_leaves hl (hvt ▸ hv)
  rw [threads_after] at hc
  split_ifs at hc with hu
  · rcases hmove.registering hc with hreg | ⟨rfl, p, key, rfl⟩
    · exact hold hreg fun _ => CacheSpot.not_leaving_of_registering hc
    · have hnew : (s.after t x (.create p key)).caches s.cacheCount =
          { pool := some p, ownerThread := some t } :=
        (caches_createCache (s := s.keyInit key) _).trans (if_pos rfl)
      refine ⟨by rw [hnew], fun q _ => .inr ?_⟩
      rw [hnew]
  · exact hold hc fun heq => absurd heq hu

theorem Clean.pairs_after (hs : Sound s) (h : Clean s) (hmove : Move s t x e) {q : ℕ}
    (hc : ((s.after t x e).threads u).spot.pairs = some (q, c)) :
    ((s.after t x e).caches c).pool = some q ∨
      (((s.after t x e).caches c).pool = none ∧ ((s.after t x e).pools q).destroyed = true) := by
  -- the pool goes away only when it is destroyed
  have hkeep (hpool : (s.caches c).pool = some q) : ((s.after t x e).caches c).pool = some q ∨
      (((s.after t x e).caches c).pool = none ∧ ((s.after t x e).pools q).destroyed = true) := by
    refine (hs.pool_step hmove hpool).imp_right fun ⟨hnone, hdrains, _⟩ => ⟨hnone, ?_⟩
    have hcloses := CacheSpot.closes_of_drains hdrains
    exact destroyed_of_after (hs.gates.destroyed t q (CacheSpot.destroys_of_closes hcloses))
  have hold {v : T} (hv : (s.threads v).spot.pairs = some (q, c)) :
      ((s.after t x e).caches c).pool = some q ∨
        (((s.after t x e).caches c).pool = none ∧ ((s.after t x e).pools q).destroyed = true) := by
    rcases h.pairs v q c hv with hpool | ⟨hnone, hd⟩
    · exact hkeep hpool
    · have hlt := hs.known.thread v c (.inl (CacheSpot.mem_mentions_of_pairs hv))
      refine .inr ⟨?_, destroyed_of_after hd⟩
      cases hnew : ((s.after t x e).caches c).pool with
      | none => rfl
      | some p =>
          rcases pool_of_after hnew with hp | ⟨rfl, -⟩
          · rw [hnone] at hp
            cases hp
          · exact absurd hlt (Nat.lt_irrefl _)
  rw [threads_after] at hc
  split_ifs at hc with hu
  · rcases hmove.pairs hc with hpairs | hinside | hpool | ⟨rfl, key, rfl⟩
    · exact hold hpairs
    · exact hkeep (h.inside t q c hinside).1
    · exact hkeep hpool
    · rw [pool_after, pool_apply]
      exact .inl (if_pos rfl)
  · exact hold hc

/-- Nobody destroys a pool while a thread is in its shards. -/
theorem Clean.inside_after (hs : Sound s) (h : Clean s) (hmove : Move s t x e) {q : ℕ}
    (hc : ((s.after t x e).threads u).spot.inside = some (q, c)) :
    ((s.after t x e).caches c).pool = some q ∧ ((s.after t x e).caches c).cleanedUp = false := by
  -- the thread was in the shards, or finds the pool alive
  have hold : (s.caches c).pool = some q ∧ (s.caches c).cleanedUp = false ∧
      (s.threads u).spot.cached = some c ∧ (u ≠ t → (s.threads u).spot.uses = some q) ∧
      (u = t → x.spot.leaving = false) := by
    rw [threads_after] at hc
    split_ifs at hc with hu
    · subst hu
      have hleaving := CacheSpot.not_leaving_of_inside hc
      rcases hmove.inside hc with hin | ⟨hpairs, hcached, halive⟩
      · obtain ⟨hpool, hclean⟩ := h.inside u q c hin
        exact ⟨hpool, hclean, CacheSpot.cached_of_inside hin, fun hne => absurd rfl hne,
          fun _ => hleaving⟩
      · have hpool : (s.caches c).pool = some q :=
          (h.pairs u q c hpairs).resolve_right fun hno =>
            absurd (halive.symm.trans hno.2) Bool.false_ne_true
        have husable := h.usable u c (hs.owners.cached u c hcached)
          (CacheSpot.not_leaving_of_pairs hpairs) q hpool
        exact ⟨hpool, husable.resolve_left (by simp [halive]), hcached, fun hne => absurd rfl hne,
          fun _ => hleaving⟩
    · obtain ⟨hpool, hclean⟩ := h.inside u q c hc
      exact ⟨hpool, hclean, CacheSpot.cached_of_inside hc, fun _ => CacheSpot.uses_of_inside hc,
        fun heq => absurd heq hu⟩
  obtain ⟨hpool, hclean, hcached, huses, hleaving⟩ := hold
  have hown := hs.owners.tls u c (hs.owners.cached u c hcached)
  have hnot (hdrains : (s.threads t).spot.drains = some q) : False := by
    by_cases hu : u = t
    · subst hu
      rw [CacheSpot.drains_of_cached hcached] at hdrains
      cases hdrains
    · exact hs.gates.drained t q hdrains u (huses hu)
  constructor
  · exact (hs.pool_step hmove hpool).resolve_right fun hno => hnot hno.2.1
  · by_contra hno
    rw [Bool.not_eq_false] at hno
    rcases hs.clean_step hmove hown.owner hpool hclean hno with hdrains | ⟨rfl, hl | hl | ⟨r, hl⟩⟩
    · exact hnot hdrains
    · exact absurd ((hleaving rfl).symm.trans hl) Bool.false_ne_true
    · rw [CacheSpot.leaves_of_cached hcached] at hl
      cases hl
    · rw [hl] at hcached
      cases hcached

/-- **Cleaning up goes on as it should.** -/
theorem Clean.after (hs : Sound s) (h : Clean s) (hmove : Move s t x e) :
    Clean (s.after t x e) where
  empty _ := h.empty_after hmove
  orphaned _ := h.orphaned_after hs hmove
  cleaned _ _ := h.cleaned_after hs hmove
  stores _ _ := h.stores_after hs hmove
  usable _ _ := h.usable_after hs hmove
  registering _ _ := h.registering_after hs hmove
  pairs _ _ _ := h.pairs_after hs hmove
  late u p hc := by
    rw [threads_after] at hc
    split_ifs at hc with hu
    · exact destroyed_of_after ((hmove.late hc).elim (h.late t p) id)
    · exact destroyed_of_after (h.late u p hc)
  inside _ _ _ := h.inside_after hs hmove

end step

/-! ## Empty lists -/

/-- **Once a list was found empty behind the gates, it stays empty.** -/
structure Emptied (s : CacheState T) : Prop where
  last : ∀ t p, (s.threads t).spot.final = some p → (s.pools p).threadCaches = []
  gone : ∀ p, (s.pools p).shards = none → (s.pools p).threadCaches = []

theorem Emptied.after [Fintype T] [DecidableEq T] (hs : Sound s) (h : Emptied s)
    (hmove : Move s t x e) : Emptied (s.after t x e) := by
  have hlist (p : ℕ) : ((s.after t x e).pools p).threadCaches = _ := threadCaches_apply p
  -- nobody registers a cache any more
  have hkeep (p : ℕ) (hempty : (s.pools p).threadCaches = [])
      (hclosed : (s.threads t).spot.registers ≠ some p) :
      ((s.after t x e).pools p).threadCaches = [] := by
    rw [hlist]
    cases e with
    | push q c =>
        have hne : p ≠ q := by
          rintro rfl
          rw [hmove.push] at hclosed
          exact hclosed rfl
        exact (if_neg hne).trans hempty
    | detach q => grind
    | _ => exact hempty
  constructor
  · intro u p hu
    rw [threads_after] at hu
    split_ifs at hu with hut
    · obtain rfl := hmove.final hu
      rw [hlist]
      exact if_pos rfl
    · exact hkeep p (h.last u p hu)
        (hs.gates.closed u p (CacheSpot.closes_of_drains (CacheSpot.drains_of_final hu)) t)
  · intro p hp
    rcases (shards_apply p).1 hp with hold | rfl
    · exact hkeep p (h.gone p hold) ((hs.gates.gone p hold).2 t).1
    · rw [hlist]
      exact h.last t p hmove.destroyShards

end CacheState

end Aura
