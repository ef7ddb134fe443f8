import Aura.ThreadCache.Places

/-!
# Who frees a cache

The thread of a cache frees it when it finds it orphaned; whoever destroys the pool frees it when it
is its own or when its thread has exited. `cleanup_mutex` orders the two.

* `CacheState.Owners` — who has pointers to a cache, and that nobody but the one who frees it has.
* `CacheState.Freeable` — what holds of a cache that is about to be freed.
-/

namespace Aura

open Lib

/-! ## What a thread does with its own cache -/

namespace CacheSpot

/-- The value of `tls_cache` that the thread works with. -/
def cached : CacheSpot → Option ℕ
  | fastDestroyed _ c | slowPool _ c | slowNull _ c | freeOrphan _ c | leaveLock _ c
  | leaveLoad _ c | leaveUnlockNull _ c | leaveEnter _ c _ | leaveCheck _ c _ | leaveClean _ c _ _
  | leaveUnlock _ c _ | leaveExit _ c _ => some c
  | storeLock _ c _ | storeCheck _ c _ | storePush _ c _ | storeUnlock _ c => some c
  | slowDestroyed _ cache | got _ cache | userEnter _ cache | userCheck _ cache
  | inShards _ cache => cache
  | _ => none

/-- A cache of the thread that `tls_cache` does not refer to: one that it registers, or the one of
the thread that exits. -/
def owns : CacheSpot → Option ℕ
  | regPush _ c | regRecheck _ c | lateLock _ c | lateMark _ c | lateUnlock _ c | regDone _ c _ =>
    some c
  | exitLock c | exitMark c => some c
  | _ => none

/-- The cache in `tls_destructor`, once it is marked. -/
def leaves : CacheSpot → Option ℕ
  | exitLoad c | exitEnter c _ | exitCheck c _ | exitBack c _ | exitFlush c _ | exitLeave c _
  | exitFree c | exitGone c | exitUnlock c _ | exitDrop c => some c
  | _ => none

/-- The thread is in `tls_destructor`. -/
def exits : CacheSpot → Bool
  | exitLock _ | exitMark _ => true
  | x => x.leaves.isSome

/-- The cache that the thread has found orphaned. -/
def dead : CacheSpot → Option ℕ
  | freeOrphan _ c | leaveUnlockNull _ c | exitDrop c => some c
  | exitUnlock c gone => if gone then some c else none
  | _ => none

/-- The cache whose destruction the thread has to decide, and what it knows about its thread. -/
def decides : CacheSpot → Option (ℕ × Bool)
  | procUnlock _ c _ exited | procDecide _ c _ exited => some (c, exited)
  | _ => none

/-- The thread of the cache works with it. -/
def Works (x : CacheSpot) (c : ℕ) : Prop :=
  x.cached = some c ∨ x.owns = some c ∨ x.leaves = some c

theorem orphaned_of_decides {x : CacheSpot} {c : ℕ} {i : Bool} (h : x.decides = some (c, i)) :
    x.orphaned = some c := by
  cases x <;> grind [decides, orphaned]

theorem mem_mentions_of_dead {x : CacheSpot} {c : ℕ} (h : x.dead = some c) : c ∈ x.mentions := by
  cases x <;> grind [dead, mentions]

end CacheSpot

namespace CacheState

variable {T : Type*} {s s' : CacheState T} {t u : T} {x : CacheThread} {e : CacheEffect} {p c : ℕ}

/-! ## The caches after a step -/

theorem threadExited_apply (c : ℕ) : ((s.apply t e).caches c).threadExited =
    match e with
    | .create _ _ => if c = s.cacheCount then false else (s.caches c).threadExited
    | .markExited d => if c = d then true else (s.caches c).threadExited
    | _ => (s.caches c).threadExited := by
  cases e <;> grind [apply, caches_setCache, caches_setPool, caches_shardsGet, caches_keyInit,
    caches_createCache, caches_cleanupCache, keyInit]

theorem frees_apply (c : ℕ) : ((s.apply t e).caches c).frees =
    match e with
    | .create _ _ => if c = s.cacheCount then 0 else (s.caches c).frees
    | .free d => if c = d then (s.caches c).frees + 1 else (s.caches c).frees
    | _ => (s.caches c).frees := by
  cases e <;> grind [apply, caches_setCache, caches_setPool, caches_shardsGet, caches_keyInit,
    caches_createCache, caches_cleanupCache, keyInit]

theorem tlsKeyValid_apply : (s.apply t e).tlsKeyValid =
    match e with
    | .create _ key => some (s.tlsKeyValid.getD key)
    | .keyInit key => some (s.tlsKeyValid.getD key)
    | _ => s.tlsKeyValid := by
  cases e with
  | cleanup pool d mode =>
      unfold apply cleanupCache
      cases mode <;> cases pool <;> dsimp only <;> split_ifs <;> rfl
  | _ => rfl

/-! ## How a thread comes to work with a cache -/

section goes

variable {a b : CacheSpot}

@[simp] theorem cached_nextCache (rest : List ℕ) : (nextCache p rest).cached = none := by
  cases rest <;> rfl

@[simp] theorem owns_nextCache (rest : List ℕ) : (nextCache p rest).owns = none := by
  cases rest <;> rfl

@[simp] theorem leaves_nextCache (rest : List ℕ) : (nextCache p rest).leaves = none := by
  cases rest <;> rfl

@[simp] theorem exits_nextCache (rest : List ℕ) : (nextCache p rest).exits = false := by
  cases rest <;> rfl

@[simp] theorem dead_nextCache (rest : List ℕ) : (nextCache p rest).dead = none := by
  cases rest <;> rfl

@[simp] theorem decides_nextCache (rest : List ℕ) : (nextCache p rest).decides = none := by
  cases rest <;> rfl

theorem Goes.cached (h : Goes s t a b e) (hc : b.cached = some c) :
    a.cached = some c ∨ (s.threads t).tlsCache = some c := by
  cases h <;> grind [CacheSpot.cached, cached_nextCache]

theorem Goes.owns (h : Goes s t a b e) (hc : b.owns = some c) :
    a.owns = some c ∨ (c = s.cacheCount ∧ ∃ p key, e = .create p key) := by
  cases h <;> grind [CacheSpot.owns, owns_nextCache]

theorem Goes.leaves (h : Goes s t a b e) (hc : b.leaves = some c) :
    a.leaves = some c ∨ e = .markExited c := by
  cases h <;> grind [CacheSpot.leaves, leaves_nextCache]

theorem Goes.exits (h : Goes s t a b e) (hb : b.exits = true) : a.exits = true := by
  cases h <;> grind [CacheSpot.exits, CacheSpot.leaves, exits_nextCache]

theorem Goes.dead (h : Goes s t a b e) (hc : b.dead = some c) :
    a.dead = some c ∨ ((s.caches c).pool = none ∧ c ∈ a.mentions) := by
  cases h <;> grind [CacheSpot.dead, dead_nextCache, Option.isNone_iff_eq_none,
    CacheSpot.mentions]

theorem Goes.decides {i : Bool} (h : Goes s t a b e) (hc : b.decides = some (c, i)) :
    a.decides = some (c, i) ∨
      (e = .orphan c ∧ i = (s.caches c).threadExited ∧ a.locks = some c) := by
  cases h <;> grind [CacheSpot.decides, decides_nextCache, CacheSpot.locks]

end goes

section move

theorem Move.cached (h : Move s t x e)
    (hold : ∀ c, (s.threads t).spot.cached = some c → (s.threads t).tlsCache = some c)
    (hc : x.spot.cached = some c) : x.tlsCache = some c := by
  cases h with
  | go hspot h => exact (h.cached hc).elim (fun ha => hold c (hspot ▸ ha)) id
  | regDone p d late hspot => cases late <;> grind [CacheSpot.cached, setKey]
  | _ => grind [CacheSpot.cached, cached_nextCache, spot_setKey, spot_dropCache]

theorem Move.owns (h : Move s t x e) (hc : x.spot.owns = some c) :
    (s.threads t).spot.owns = some c ∨ (c = s.cacheCount ∧ ∃ p key, e = .create p key) ∨
      (s.threads t).tlsKey = some c := by
  cases h with
  | go hspot h => exact (h.owns hc).elim (fun ha => .inl (hspot ▸ ha)) fun hnew => .inr (.inl hnew)
  | _ => grind [CacheSpot.owns, owns_nextCache, spot_setKey, spot_dropCache]

theorem Move.leaves (h : Move s t x e) (hc : x.spot.leaves = some c) :
    (s.threads t).spot.leaves = some c ∨ e = .markExited c := by
  cases h with
  | go hspot h => exact hspot ▸ h.leaves hc
  | _ => grind [CacheSpot.leaves, leaves_nextCache, spot_setKey, spot_dropCache]

theorem Move.exits (h : Move s t x e) (hx : x.spot.exits = true) :
    ((s.threads t).spot.exits = true ∧ x.tlsCache = (s.threads t).tlsCache ∧
      x.tlsKey = (s.threads t).tlsKey) ∨ (x.tlsCache = none ∧ x.tlsKey = none) := by
  cases h with
  | go hspot h => exact .inl ⟨hspot ▸ h.exits hx, rfl, rfl⟩
  | _ => grind [CacheSpot.exits, CacheSpot.leaves, exits_nextCache, spot_setKey, spot_dropCache]

theorem Move.tls (h : Move s t x e) (hc : x.tlsCache = some c) :
    (s.threads t).tlsCache = some c ∨ (s.threads t).spot.owns = some c := by
  cases h <;> grind [CacheSpot.owns, setKey, dropCache]

theorem Move.key (h : Move s t x e) (hc : x.tlsKey = some c) :
    ((s.threads t).tlsKey = some c ∧ (x.tlsCache = (s.threads t).tlsCache ∨ x.tlsCache = none ∨
      s.tlsKeyValid ≠ some true)) ∨
    ((s.threads t).spot.owns = some c ∧ x.tlsCache = some c ∧ s.tlsKeyValid = some true) := by
  cases h <;> grind [CacheSpot.owns, setKey, dropCache]

theorem Move.dead (h : Move s t x e) (hc : x.spot.dead = some c) :
    (s.threads t).spot.dead = some c ∨
      ((s.caches c).pool = none ∧ c ∈ (s.threads t).spot.mentions) := by
  cases h with
  | go hspot h => exact hspot ▸ h.dead hc
  | _ => grind [CacheSpot.dead, dead_nextCache, spot_setKey, spot_dropCache]

theorem Move.decides {i : Bool} (h : Move s t x e) (hc : x.spot.decides = some (c, i)) :
    (s.threads t).spot.decides = some (c, i) ∨
      (e = .orphan c ∧ i = (s.caches c).threadExited ∧ (s.threads t).spot.locks = some c) := by
  cases h with
  | go hspot h => exact hspot ▸ h.decides hc
  | _ => grind [CacheSpot.decides, decides_nextCache, spot_setKey, spot_dropCache]

theorem Move.markExited (h : Move s t x (.markExited c)) :
    (s.threads t).spot = .exitMark c ∧ x = { s.threads t with spot := .exitLoad c } := by
  cases h with
  | go hspot h =>
      cases h
      exact ⟨hspot, rfl⟩

theorem Move.orphan_spot (h : Move s t x (.orphan c)) :
    ∃ p rest, (s.threads t).spot = .procOrphan p c rest ∧
      x = { s.threads t with spot := .procUnlock p c rest (s.caches c).threadExited } := by
  cases h with
  | go hspot h =>
      cases h with
      | procOrphan p _ rest => exact ⟨p, rest, hspot, rfl⟩

/-- The three ways to free a cache. -/
theorem Move.free (h : Move s t x (.free c)) :
    (∃ p, (s.threads t).spot = .freeOrphan p c ∧ x = s.dropCache t p) ∨
    ((s.threads t).spot = .exitDrop c ∧ x = { s.threads t with spot := .idle }) ∨
    ∃ p rest i, (s.threads t).spot = .procDecide p c rest i ∧ x.spot = nextCache p rest ∧
      ((i = true ∧ (s.caches c).ownerThread ≠ some t) ∨
        ((s.caches c).ownerThread = some t ∧ x.tlsCache ≠ some c ∧
          (s.tlsKeyValid = some true → x.tlsKey = none))) := by
  cases h with
  | go hspot h =>
      cases h with
      | exitDrop => exact .inr (.inl ⟨hspot, rfl⟩)
      | procFree p _ rest hother =>
          exact .inr (.inr ⟨p, rest, true, hspot, rfl, .inl ⟨rfl, hother⟩⟩)
  | freeOrphan p _ hspot => exact .inl ⟨p, hspot, rfl⟩
  | procOwn p _ rest exited hspot hown =>
      exact .inr (.inr ⟨p, rest, exited, hspot, spot_setKey _ _, .inr ⟨hown, by grind [setKey],
        by grind [setKey]⟩⟩)

end move

/-! ## The owners -/

/-- The cache is the thread's own, and neither exited nor freed. -/
structure Owned (s : CacheState T) (t : T) (c : ℕ) : Prop where
  owner : (s.caches c).ownerThread = some t
  frees : (s.caches c).frees = 0
  exited : (s.caches c).threadExited = false

/-- **Who has pointers to a cache.** -/
structure Owners (s : CacheState T) : Prop where
  tls : ∀ t c, (s.threads t).tlsCache = some c → Owned s t c
  key : ∀ t c, (s.threads t).tlsKey = some c → Owned s t c
  keyValid : ∀ t c, (s.threads t).tlsKey = some c → s.tlsKeyValid = some true ∧
    ((s.threads t).tlsCache = none ∨ (s.threads t).tlsCache = some c)
  cached : ∀ t c, (s.threads t).spot.cached = some c → (s.threads t).tlsCache = some c
  owns : ∀ t c, (s.threads t).spot.owns = some c → Owned s t c
  leaves : ∀ t c, (s.threads t).spot.leaves = some c → (s.caches c).ownerThread = some t ∧
    (s.caches c).frees = 0 ∧ (s.caches c).threadExited = true
  exits : ∀ t, (s.threads t).spot.exits = true →
    (s.threads t).tlsCache = none ∧ (s.threads t).tlsKey = none
  dead : ∀ t c, (s.threads t).spot.dead = some c → (s.caches c).pool = none
  freed : ∀ c, (s.caches c).frees ≠ 0 → (s.caches c).frees = 1 ∧ (s.caches c).pool = none
  /-- A thread that has orphaned a cache frees it if it is its own, or if its thread has exited and
  is through with it. -/
  decides : ∀ t c i, (s.threads t).spot.decides = some (c, i) →
    ((s.caches c).ownerThread = some t → (s.caches c).frees = 0) ∧
    (i = true → (s.caches c).threadExited = true ∧ (s.caches c).frees = 0 ∧
      ∀ u, ¬(s.threads u).spot.Works c)

variable [DecidableEq T]

/-- A cache after a step that frees, marks and orphans nothing: the same, or a new one. -/
theorem same_or_new (hfree : ∀ c, e ≠ .free c) (hmark : ∀ c, e ≠ .markExited c)
    (horphan : ∀ c, e ≠ .orphan c) (c : ℕ) :
    (((s.after t x e).caches c).ownerThread = (s.caches c).ownerThread ∧
      ((s.after t x e).caches c).frees = (s.caches c).frees ∧
      ((s.after t x e).caches c).threadExited = (s.caches c).threadExited ∧
      ((s.after t x e).caches c).pool = (s.caches c).pool) ∨
    (c = s.cacheCount ∧ (∃ p key, e = .create p key) ∧ Owned (s.after t x e) t c) := by
  have howner : ((s.after t x e).caches c).ownerThread = _ := ownerThread_apply c
  have hfrees : ((s.after t x e).caches c).frees = _ := frees_apply c
  have hexited : ((s.after t x e).caches c).threadExited = _ := threadExited_apply c
  have hpool : ((s.after t x e).caches c).pool = _ := pool_apply c
  cases e with
  | free c => exact absurd rfl (hfree c)
  | markExited c => exact absurd rfl (hmark c)
  | orphan c => exact absurd rfl (horphan c)
  | create p key =>
      dsimp only at howner hfrees hexited hpool
      split_ifs at howner hfrees hexited hpool with hc
      · exact .inr ⟨hc, ⟨p, key, rfl⟩, howner, hfrees, hexited⟩
      · exact .inl ⟨howner, hfrees, hexited, hpool⟩
  | _ => exact .inl ⟨howner, hfrees, hexited, hpool⟩

theorem owned_create {p : ℕ} {key : Bool} :
    Owned (s.after t x (.create p key)) t s.cacheCount := by
  have hnew : (s.after t x (.create p key)).caches s.cacheCount =
      { pool := some p, ownerThread := some t } :=
    (caches_createCache (s := s.keyInit key) _).trans (if_pos rfl)
  constructor <;> rw [hnew]

omit [DecidableEq T] in
theorem tlsKeyValid_of_apply (h : s.tlsKeyValid = some true) :
    (s.apply t e).tlsKeyValid = some true := by
  rw [tlsKeyValid_apply]
  split <;> simp [h]

omit [DecidableEq T] in
/-- The cache of a thread that has exited is not taken up again. -/
theorem Owners.not_works (h : Owners s) (hknown : Known s) (hmove : Move s t x e)
    (hmark : e ≠ .markExited c) (hexited : (s.caches c).threadExited = true)
    (hworks : ¬(s.threads t).spot.Works c) : ¬x.spot.Works c := by
  have hno (u : T) : ¬Owned s u c := fun ho => absurd (ho.exited.symm.trans hexited) (by decide)
  rintro (hc | hc | hc)
  · rcases hmove.tls (hmove.cached (h.cached t) hc) with htls | howns
    · exact hno t (h.tls t c htls)
    · exact hworks (.inr (.inl howns))
  · rcases hmove.owns hc with hold | ⟨rfl, -⟩ | hkey
    · exact hworks (.inr (.inl hold))
    · rw [hknown.fresh _ (Nat.le_refl _)] at hexited
      cases hexited
    · exact hno t (h.key t c hkey)
  · rcases hmove.leaves hc with hold | hnew
    · exact hworks (.inr (.inr hold))
    · exact hmark hnew

/-- A step that frees, marks and orphans nothing. -/
theorem Owners.frame (h : Owners s) (hknown : Known s) (hmove : Move s t x e)
    (hfree : ∀ c, e ≠ .free c) (hmark : ∀ c, e ≠ .markExited c) (horphan : ∀ c, e ≠ .orphan c) :
    Owners (s.after t x e) := by
  have hsame := fun c => same_or_new (s := s) (t := t) (x := x) hfree hmark horphan c
  have hvalid : s.tlsKeyValid = some true → (s.after t x e).tlsKeyValid = some true :=
    tlsKeyValid_of_apply
  have hfresh := hknown.fresh _ (Nat.le_refl _)
  have hcached := fun c => hmove.cached (c := c) (h.cached t)
  have howns := fun c => hmove.owns (c := c)
  have hleaves := fun c => hmove.leaves (c := c)
  have hexits := hmove.exits
  have htls := fun c => hmove.tls (c := c)
  have hkey := fun c => hmove.key (c := c)
  have hdead := fun c => hmove.dead (c := c)
  have hdecides := fun c i => hmove.decides (c := c) (i := i)
  have hnotWorks := fun c => h.not_works hknown hmove (c := c) (hmark c)
  -- what was owned still is
  have howned (u : T) (c : ℕ) (hc : Owned s u c) : Owned (s.after t x e) u c := by
    rcases hsame c with ⟨h₁, h₂, h₃, -⟩ | ⟨rfl, -⟩
    · exact ⟨h₁.trans hc.owner, h₂.trans hc.frees, h₃.trans hc.exited⟩
    · have hnone := hc.owner
      rw [hfresh] at hnone
      cases hnone
  have hnew (c : ℕ) (hc : c = s.cacheCount ∧ ∃ p key, e = .create p key) :
      Owned (s.after t x e) t c := by
    obtain ⟨rfl, p, key, rfl⟩ := hc
    exact owned_create
  have hlt (u : T) (c : ℕ) (hc : (s.threads u).spot.dead = some c) : c ≠ s.cacheCount :=
    (hknown.thread u c (.inl (CacheSpot.mem_mentions_of_dead hc))).ne
  have hlt' (c : ℕ) (hc : c ∈ (s.threads t).spot.mentions) : c ≠ s.cacheCount :=
    (hknown.thread t c (.inl hc)).ne
  have hthreads (u : T) : (s.after t x e).threads u = if u = t then x else s.threads u :=
    threads_after u
  generalize s.after t x e = s' at *
  obtain ⟨h1, h2, h3, h4, h5, h6, h7, h8, h9, h10⟩ := h
  constructor
  · grind
  · grind
  · grind
  · grind
  · grind
  · grind
  · grind
  · grind
  · grind [Owned]
  · intro u c i hu
    have hold : (s.threads u).spot.decides = some (c, i) := by grind
    obtain ⟨hown, hexit⟩ := h10 u c i hold
    constructor
    · grind [Owned]
    · intro hi
      obtain ⟨hexited, hfrees, hworks⟩ := hexit hi
      refine ⟨by grind, by grind, fun v => ?_⟩
      rw [hthreads]
      split_ifs with hv
      · exact hnotWorks c hexited (hworks t)
      · exact hworks v

theorem Owners.markExited (h : Owners s) (hmove : Move s t x (.markExited c)) :
    Owners (s.after t x (.markExited c)) := by
  obtain ⟨hspot, rfl⟩ := hmove.markExited
  have hown : Owned s t c := h.owns t c (by rw [hspot]; rfl)
  obtain ⟨htls, hkey⟩ := h.exits t (by rw [hspot]; rfl)
  -- nobody else has it
  have hother (u : T) (d : ℕ) (hd : Owned s u d) (hu : u ≠ t) : d ≠ c := by
    rintro rfl
    exact hu (Option.some.inj (hd.owner.symm.trans hown.owner))
  have hcaches (d : ℕ) : (s.apply t (.markExited c)).caches d =
      if d = c then { s.caches c with threadExited := true } else s.caches d := caches_setCache _ d
  have howned (u : T) (d : ℕ) (hd : Owned s u d) (hu : u ≠ t) :
      Owned (s.after t { s.threads t with spot := .exitLoad c } (.markExited c)) u d := by
    have hsame := (hcaches d).trans (if_neg (hother u d hd hu))
    exact ⟨hsame ▸ hd.owner, hsame ▸ hd.frees, hsame ▸ hd.exited⟩
  have hthreads (u : T) : (s.after t { s.threads t with spot := .exitLoad c }
      (.markExited c)).threads u = if u = t then { s.threads t with spot := .exitLoad c } else
        s.threads u := threads_after u
  have hvalid : (s.after t { s.threads t with spot := .exitLoad c } (.markExited c)).tlsKeyValid =
      s.tlsKeyValid := rfl
  have hcaches' (d : ℕ) : (s.after t { s.threads t with spot := .exitLoad c }
    (.markExited c)).caches d = _ := hcaches d
  clear hcaches hmove
  generalize s.after t { s.threads t with spot := .exitLoad c } (.markExited c) = s' at *
  obtain ⟨h1, h2, h3, h4, h5, h6, h7, h8, h9, h10⟩ := h
  constructor
  · grind
  · grind
  · grind
  · grind [CacheSpot.cached]
  · grind [CacheSpot.owns]
  · grind [CacheSpot.leaves, Owned]
  · grind
  · grind [CacheSpot.dead]
  · grind
  · intro u d i hu
    have hold : (s.threads u).spot.decides = some (d, i) := by grind [CacheSpot.decides]
    obtain ⟨hd, hexit⟩ := h10 u d i hold
    constructor
    · grind
    · intro hi
      obtain ⟨hexited, hfrees, hworks⟩ := hexit hi
      refine ⟨by grind, by grind, fun v => ?_⟩
      have hne : d ≠ c := by
        rintro rfl
        exact absurd (hown.exited.symm.trans hexited) (by decide)
      rw [hthreads]
      split_ifs with hv
      · grind [CacheSpot.Works, CacheSpot.cached, CacheSpot.owns, CacheSpot.leaves]
      · exact hworks v

/-- In `tls_destructor` a thread holds the mutex until it has found the cache orphaned. -/
theorem CacheSpot.locks_of_leaves {x : CacheSpot} (h : x.leaves = some c) :
    x.locks = some c ∨ x.dead = some c := by
  cases x <;> grind [CacheSpot.leaves, CacheSpot.locks, CacheSpot.dead]

omit [DecidableEq T] in
/-- **When a cache is orphaned whose thread has exited, that thread is through with it**: it would
hold the mutex otherwise. -/
theorem Owners.not_works_orphan (h : Owners s) (hlocked : Locked s) {p : ℕ} {rest : List ℕ}
    (hspot : (s.threads t).spot = .procOrphan p c rest) (hpool : (s.caches c).pool ≠ none)
    (hexited : (s.caches c).threadExited = true) (u : T) : ¬(s.threads u).spot.Works c := by
  have hno (u : T) : ¬Owned s u c := fun ho => absurd (ho.exited.symm.trans hexited) (by decide)
  rintro (hc | hc | hc)
  · exact hno u (h.tls u c (h.cached u c hc))
  · exact hno u (h.owns u c hc)
  · rcases CacheSpot.locks_of_leaves hc with hlock | hdead
    · have ht : (s.threads t).spot.locks = some c := by rw [hspot]; rfl
      have heq := ((hlocked c u).2 hlock).symm.trans ((hlocked c t).2 ht)
      rw [Option.some.inj heq, hspot] at hc
      cases hc
    · exact hpool (h.dead u c hdead)

theorem Owners.orphan (h : Owners s) (hlocked : Locked s) (hplaces : Places s)
    (hmove : Move s t x (.orphan c)) : Owners (s.after t x (.orphan c)) := by
  obtain ⟨p, rest, hspot, hx⟩ := hmove.orphan_spot
  have hpool : (s.caches c).pool ≠ none := by
    obtain ⟨q, -, hq⟩ := hplaces.pending t c (hmove.orphan ▸ List.mem_cons_self)
    exact hq ▸ Option.some_ne_none q
  have hfrees : (s.caches c).frees = 0 := by
    by_contra hfreed
    exact hpool (h.freed c hfreed).2
  have hworks := h.not_works_orphan hlocked hspot hpool
  have hcaches (d : ℕ) : (s.after t x (.orphan c)).caches d =
      if d = c then { s.caches c with pool := none } else s.caches d := caches_setCache _ d
  have howned (u : T) (d : ℕ) (hd : Owned s u d) : Owned (s.after t x (.orphan c)) u d := by
    constructor <;> rw [hcaches] <;> split_ifs with hdc
    · exact hdc ▸ hd.owner
    · exact hd.owner
    · exact hdc ▸ hd.frees
    · exact hd.frees
    · exact hdc ▸ hd.exited
    · exact hd.exited
  have hthreads (u : T) : (s.after t x (.orphan c)).threads u = if u = t then x else s.threads u :=
    threads_after u
  have hvalid : (s.after t x (.orphan c)).tlsKeyValid = s.tlsKeyValid := rfl
  clear hmove
  generalize s.after t x (.orphan c) = s' at *
  obtain ⟨h1, h2, h3, h4, h5, h6, h7, h8, h9, h10⟩ := h
  constructor
  · grind
  · grind
  · grind
  · grind [CacheSpot.cached]
  · grind [CacheSpot.owns]
  · grind [CacheSpot.leaves]
  · grind [CacheSpot.exits, CacheSpot.leaves]
  · grind [CacheSpot.dead]
  · grind
  · intro u d i hu
    have hnot (v : T) (hv : ¬(s.threads v).spot.Works d) : ¬(s'.threads v).spot.Works d := by
      rw [hthreads]
      split_ifs with hvt
      · subst hx
        rintro (hc | hc | hc) <;> cases hc
      · exact hv
    by_cases hut : u = t
    · have hdi : d = c ∧ i = (s.caches c).threadExited := by grind [CacheSpot.decides]
      obtain ⟨rfl, rfl⟩ := hdi
      exact ⟨by grind, fun hi => ⟨by grind, by grind, fun v => hnot v (hworks hi v)⟩⟩
    · have hold : (s.threads u).spot.decides = some (d, i) := by grind
      obtain ⟨hd, hexit⟩ := h10 u d i hold
      refine ⟨by grind, fun hi => ?_⟩
      obtain ⟨hexited, hfrees, hdworks⟩ := hexit hi
      exact ⟨by grind, by grind, fun v => hnot v (hdworks v)⟩

/-- What makes a cache fit to be freed by a thread. -/
structure Freeable (s : CacheState T) (t : T) (x : CacheThread) (c : ℕ) : Prop where
  frees : (s.caches c).frees = 0
  pool : (s.caches c).pool = none
  /-- No other thread has it. -/
  owned : ∀ u, u ≠ t → ¬Owned s u c
  leaves : ∀ u, u ≠ t → (s.threads u).spot.leaves ≠ some c
  /-- Nobody else is about to free it. -/
  decides : ∀ u i, u ≠ t → (s.threads u).spot.decides = some (c, i) →
    i = false ∧ (s.caches c).ownerThread ≠ some u
  /-- The thread lets go of it. -/
  tls : x.tlsCache ≠ some c
  key : x.tlsKey ≠ some c
  cached : x.spot.cached = none
  owns : x.spot.owns = none
  left : x.spot.leaves = none
  exits : x.spot.exits = false
  dead : x.spot.dead = none
  decided : x.spot.decides = none

omit [DecidableEq T] in
/-- Clearing the key clears it, also where it is not valid. -/
theorem Owners.tlsKey_setKey (h : Owners s) {x : CacheThread}
    (hx : x.tlsKey = (s.threads t).tlsKey) : (s.setKey x none).tlsKey = none := by
  unfold setKey
  split_ifs with hvalid
  · rfl
  · cases hkey : (s.threads t).tlsKey with
    | none => exact hx.trans hkey
    | some d => exact absurd (h.keyValid t d hkey).1 hvalid

omit [DecidableEq T] in
/-- **Who frees a cache is the only one who still has it.** -/
theorem Owners.freeable (h : Owners s) (hplaces : Places s) (hmove : Move s t x (.free c)) :
    Freeable s t x c := by
  -- a cache has one owner
  have hone {u v : T} (hu : (s.caches c).ownerThread = some u)
      (hv : (s.caches c).ownerThread = some v) : u = v := Option.some.inj (hu.symm.trans hv)
  rcases hmove.free with ⟨p, hspot, rfl⟩ | ⟨hspot, rfl⟩ | ⟨p, rest, i, hspot, hx, hwho⟩
  · -- the thread has found its cache orphaned
    have hworks : (s.threads t).spot.Works c := .inl (by rw [hspot]; rfl)
    have hown : Owned s t c := h.tls t c (h.cached t c (by rw [hspot]; rfl))
    have htls : (s.dropCache t p).tlsCache = none := by
      unfold dropCache setKey
      split_ifs <;> rfl
    have hkey : (s.dropCache t p).tlsKey = none := h.tlsKey_setKey rfl
    have hrest : (s.dropCache t p).spot = .got p none := spot_dropCache
    refine ⟨hown.frees, h.dead t c (by rw [hspot]; rfl), ?_, ?_, ?_,
      by simp [htls], by simp [hkey], ?_, ?_, ?_, ?_, ?_, ?_⟩
    · exact fun u hu ho => hu (hone ho.owner hown.owner)
    · exact fun u hu hc => hu (hone (h.leaves u c hc).1 hown.owner)
    · intro u i hu hc
      refine ⟨Bool.eq_false_of_not_eq_true fun hi => ?_, fun ho => hu (hone ho hown.owner)⟩
      exact ((h.decides u c i hc).2 hi).2.2 t hworks
    all_goals rw [hrest]; rfl
  · -- the same, as it exits
    have hworks : (s.threads t).spot.Works c := .inr (.inr (by rw [hspot]; rfl))
    obtain ⟨howner, hfrees, hexited⟩ := h.leaves t c (by rw [hspot]; rfl)
    obtain ⟨htls, hkey⟩ := h.exits t (by rw [hspot]; rfl)
    refine ⟨hfrees, h.dead t c (by rw [hspot]; rfl), ?_, ?_, ?_, by simp [htls],
      by simp [hkey], rfl, rfl, rfl, rfl, rfl, rfl⟩
    · exact fun u hu ho => hu (hone ho.owner howner)
    · exact fun u hu hc => hu (hone (h.leaves u c hc).1 howner)
    · intro u i hu hc
      refine ⟨Bool.eq_false_of_not_eq_true fun hi => ?_, fun ho => hu (hone ho howner)⟩
      exact ((h.decides u c i hc).2 hi).2.2 t hworks
  · -- the pool is destroyed; the cache is the thread's own, or its thread has exited
    have hdec : (s.threads t).spot.decides = some (c, i) := by rw [hspot]; rfl
    obtain ⟨hmine, hexit⟩ := h.decides t c i hdec
    have hpool : (s.caches c).pool = none := hplaces.orphaned t c (by rw [hspot]; rfl)
    have honce (u : T) (j : Bool) (hu : u ≠ t) (hc : (s.threads u).spot.decides = some (c, j)) :
        False := by
      refine hu (hplaces.orphanedOnce u t c (CacheSpot.orphaned_of_decides hc) ?_)
      rw [hspot]
      rfl
    have hrest : x.spot.cached = none ∧ x.spot.owns = none ∧ x.spot.leaves = none ∧
        x.spot.exits = false ∧ x.spot.dead = none ∧ x.spot.decides = none := by
      rw [hx]
      simp
    obtain ⟨h₁, h₂, h₃, h₄, h₅, h₆⟩ := hrest
    have howns (d : ℕ) : (s.threads t).spot.owns ≠ some d := by simp [hspot, CacheSpot.owns]
    rcases hwho with ⟨rfl, hother⟩ | ⟨hown, htls, hkey⟩
    · obtain ⟨hexited, hfrees, hworks⟩ := hexit rfl
      have hno (u : T) : ¬Owned s u c := fun ho =>
        absurd (ho.exited.symm.trans hexited) (by decide)
      refine ⟨hfrees, hpool, fun u _ => hno u, fun u _ hc => hworks u (.inr (.inr hc)),
        fun u j hu hc => (honce u j hu hc).elim, fun hc => ?_, fun hc => ?_, h₁, h₂, h₃, h₄, h₅, h₆⟩
      · exact (hmove.tls hc).elim (fun hold => hno t (h.tls t c hold)) (howns c)
      · exact (hmove.key hc).elim (fun hold => hno t (h.key t c hold.1)) fun hnew => howns c hnew.1
    · refine ⟨hmine hown, hpool, fun u hu ho => hu (hone ho.owner hown),
        fun u hu hc => hu (hone (h.leaves u c hc).1 hown),
        fun u j hu hc => (honce u j hu hc).elim, htls, fun hc => ?_, h₁, h₂, h₃, h₄, h₅, h₆⟩
      rcases hmove.key hc with ⟨hold, -⟩ | ⟨hnew, -⟩
      · rw [hkey (h.keyValid t c hold).1] at hc
        cases hc
      · exact howns c hnew

theorem Owners.free (h : Owners s) (hplaces : Places s) (hmove : Move s t x (.free c)) :
    Owners (s.after t x (.free c)) := by
  have hfit := h.freeable hplaces hmove
  have hxtls := fun c => hmove.tls (c := c)
  have hxkey := fun c => hmove.key (c := c)
  have hself : (s.after t x (.free c)).caches c = _ := (caches_setCache _ c).trans (if_pos rfl)
  have hsame (d : ℕ) (hd : d ≠ c) : (s.after t x (.free c)).caches d = s.caches d :=
    (caches_setCache _ d).trans (if_neg hd)
  have howned (u : T) (d : ℕ) (hd : Owned s u d) (hdc : d ≠ c) :
      Owned (s.after t x (.free c)) u d := by
    constructor <;> rw [hsame d hdc]
    · exact hd.owner
    · exact hd.frees
    · exact hd.exited
  have hthreads (u : T) : (s.after t x (.free c)).threads u = if u = t then x else s.threads u :=
    threads_after u
  have hvalid : (s.after t x (.free c)).tlsKeyValid = s.tlsKeyValid := rfl
  clear hmove
  generalize s.after t x (.free c) = s' at *
  obtain ⟨hfrees, hpool, hown, hleaves, hdecides, htls, hkey, hcached, howns, hleft, hexits,
    hdead, hdecided⟩ := hfit
  obtain ⟨h1, h2, h3, h4, h5, h6, h7, h8, h9, h10⟩ := h
  constructor
  · grind
  · grind
  · grind
  · grind
  · grind
  · grind
  · grind
  · grind
  · intro d hd
    by_cases hdc : d = c
    · subst hdc
      rw [hself]
      exact ⟨congrArg (· + 1) hfrees, hpool⟩
    · rw [hsame d hdc] at hd ⊢
      exact h9 d hd
  · intro u d i hu
    rw [hthreads] at hu
    split_ifs at hu with hut
    · rw [hdecided] at hu
      cases hu
    obtain ⟨hd, hexit⟩ := h10 u d i hu
    by_cases hdc : d = c
    · subst hdc
      obtain ⟨rfl, hne⟩ := hdecides u i hut hu
      rw [hself]
      exact ⟨fun ho => absurd ho hne, fun hi => by cases hi⟩
    · rw [hsame d hdc]
      refine ⟨hd, fun hi => ?_⟩
      obtain ⟨hexited, hfrees, hno⟩ := hexit hi
      refine ⟨hexited, hfrees, fun v => ?_⟩
      rw [hthreads]
      split_ifs with hv
      · rintro (hx | hx | hx) <;> simp_all
      · exact hno v

theorem Owners.after (h : Owners s) (hknown : Known s) (hlocked : Locked s) (hplaces : Places s)
    (hmove : Move s t x e) : Owners (s.after t x e) := by
  cases e with
  | free c => exact h.free hplaces hmove
  | markExited c => exact h.markExited hmove
  | orphan c => exact h.orphan hlocked hplaces hmove
  | _ =>
      refine h.frame hknown hmove ?_ ?_ ?_
      all_goals
        intro d hd
        cases hd

/-- **In every reachable state** the owners are as they should. -/
theorem owners_of_reachable (h : Reachable (cacheSystem T) s) : Owners s := by
  have hall : (Known s ∧ Locked s ∧ Places s) ∧ Owners s := by
    refine Reachable.invariant (I := fun s => (Known s ∧ Locked s ∧ Places s) ∧ Owners s) ?_ ?_ h
    · rintro s rfl
      refine ⟨places_of_reachable (.of_init rfl), ?_⟩
      constructor <;> simp [CacheSpot.cached, CacheSpot.owns, CacheSpot.leaves, CacheSpot.exits,
        CacheSpot.dead, CacheSpot.decides]
    · rintro s ⟨t, op⟩ s' ⟨⟨hknown, hlocked, hplaces⟩, howners⟩ hstep
      obtain ⟨x, e, hmove, rfl⟩ := move_of_step hstep
      exact ⟨⟨hknown.after hmove, hlocked.after hknown hmove, hplaces.after hknown hmove⟩,
        howners.after hknown hlocked hplaces hmove⟩
  exact hall.2

end CacheState

end Aura
