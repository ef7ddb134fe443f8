import Aura.ThreadCache.Teardown

/-!
# No cache is lost

A thread that leaves a pool for another one lets go of its cache, which nobody frees when the pool
is destroyed while the thread is alive. Where each thread uses one pool, the value of `tls_key` is a
cache of that pool as long as there is one, and every cache is freed.

* `CacheState.At` — what a thread can rely on at each spot, whatever the others do.
* `CacheState.AtHome` — where each thread uses one pool.
* `CacheState.Kept` — who will free a cache.
* **`caches_freed`** — when the threads have exited and the pools are destroyed, every cache was
  freed once.
-/

namespace Aura

open Lib

namespace CacheSpot

/-- The pool for which the thread looks for a cache, until it creates one. -/
def seeks : CacheSpot → Option ℕ
  | fastPool p | fastDestroyed p _ | slowDestroyed p _ | slowPool p _ | slowNull p _ | regEnter p
  | regCheck p | regBail p | regCreate p => some p
  | _ => none

/-- Is the thread in no function of the pool? -/
def isIdle : CacheSpot → Bool
  | idle => true
  | _ => false

theorem of_isIdle {x : CacheSpot} (h : x.isIdle = true) : x = .idle := by
  cases x <;> first | rfl | cases h

end CacheSpot

namespace CacheState

variable {T : Type*} {s s' : CacheState T} {t u : T} {x : CacheThread} {e : CacheEffect} {p c : ℕ}

/-! ## What a thread can rely on -/

/-- **The assertion of a spot**, where each thread uses one pool: a thread that has no cache of the
pool has none at all, or finds the pool destroyed; and it never leaves a pool that is alive. -/
def At (s : CacheState T) (key : Option ℕ) : CacheSpot → Prop
  | .slowDestroyed p none | .regEnter p | .regCheck p => key = none ∨ (s.pools p).destroyed = true
  | .slowDestroyed p (some c) => (s.caches c).pool ≠ some p ∨ (s.pools p).destroyed = true
  | .slowPool p c => (s.caches c).pool ≠ some p
  | .slowNull _ c => (s.caches c).pool = none
  | .leaveLock _ _ | .leaveLoad _ _ | .leaveUnlockNull _ _ | .leaveEnter _ _ _ | .leaveCheck _ _ _
  | .leaveClean _ _ _ _ | .leaveUnlock _ _ _ | .leaveExit _ _ _ => False
  | .regBail p => (s.pools p).destroyed = true
  | .regCreate _ | .regPush _ _ | .regRecheck _ _ | .lateLock _ _ | .lateMark _ _ | .lateUnlock _ _
  | .regDone _ _ _ => key = none
  | .exitUnlock c false => (s.caches c).pool ≠ none
  | _ => True

theorem at_nextCache {key : Option ℕ} (rest : List ℕ) : At s key (nextCache p rest) := by
  cases rest <;> trivial

/-- Each step of a thread leads from one assertion to the next. -/
theorem Goes.at {a b : CacheSpot} (h : Goes s t a b e) (ha : At s (s.threads t).tlsKey a)
    (hstale : ∀ p, a.seeks = some p → (s.threads t).tlsCache = none →
      (s.threads t).tlsKey = none ∨ (s.pools p).destroyed = true)
    (hpool : ∀ p c q, a.seeks = some p → a.cached = some c → (s.caches c).pool = some q → q = p) :
    At s (s.threads t).tlsKey b := by
  cases h with
  | slowOther p c hother =>
      cases hq : (s.caches c).pool with
      | none => exact hq
      | some q => exact absurd (hpool p c q rfl rfl hq ▸ hq) hother
  | exitGone c =>
      cases hq : (s.caches c).pool with
      | none => trivial
      | some q => exact fun hnone => Option.some_ne_none q (hq.symm.trans hnone)
  | procFree p c rest | procKeep p c rest => exact at_nextCache rest
  | _ => grind -linarith [At, CacheSpot.seeks, CacheSpot.cached]

/-- What a thread can rely on stays: pools are destroyed for good, and caches are only orphaned, not
by others while the thread holds the mutex. -/
theorem at_mono {key : Option ℕ} {b : CacheSpot} (h : At s key b)
    (hdestroyed : ∀ p, (s.pools p).destroyed = true → (s'.pools p).destroyed = true)
    (hpool : ∀ c ∈ b.mentions, ∀ p, (s'.caches c).pool = some p → (s.caches c).pool = some p)
    (hlocks : ∀ c, b = .exitUnlock c false → (s'.caches c).pool = (s.caches c).pool) :
    At s' key b := by
  have hnone (c : ℕ) (hc : c ∈ b.mentions) (hold : (s.caches c).pool = none) :
      (s'.caches c).pool = none := by
    cases hnew : (s'.caches c).pool with
    | none => rfl
    | some q => exact absurd (hold.symm.trans (hpool c hc q hnew)) (Option.some_ne_none q).symm
  unfold At at h ⊢
  split at h <;> grind -linarith [CacheSpot.mentions]

/-! ## The moves -/

theorem Move.keyInit {key : Bool} (h : Move s t x (.keyInit key)) :
    ∃ p, (s.threads t).spot = .regCreate p := by
  cases h with
  | go hspot h =>
      cases h
      exact ⟨_, hspot⟩

theorem Move.creates {key : Bool} (h : Move s t x (.create p key)) :
    (s.threads t).spot = .regCreate p ∧
      x = { s.threads t with spot := .regPush p s.cacheCount } := by
  cases h with
  | go hspot h =>
      cases h
      exact ⟨hspot, rfl⟩

theorem Goes.seeks {a b : CacheSpot} (h : Goes s t a b e) (hb : b.seeks = some p) :
    a.seeks = some p ∨ (a = .idle ∧ b = .fastPool p) := by
  cases h with
  | procFree q c rest | procKeep q c rest => cases rest <;> cases hb
  | _ => grind -linarith [CacheSpot.seeks]

theorem Move.seeks (h : Move s t x e) (hx : x.spot.seeks = some p) :
    (s.threads t).spot.seeks = some p ∨ ((s.threads t).spot = .idle ∧ x.spot = .fastPool p) := by
  cases h with
  | go hspot h => exact hspot ▸ h.seeks hx
  | procOwn q c rest exited hspot hown =>
      rw [spot_setKey] at hx
      cases rest <;> cases hx
  | _ => simp [CacheSpot.seeks] at hx

/-! ## Each thread uses one pool -/

section home

variable (home : T → ℕ)

/-- **The condition on a step**: a thread only looks for caches of its own pool, and not under the
identifier of an earlier thread of which there was a cache; and `pthread_key_create` succeeds. -/
def OnePool (s : CacheState T) : T × CacheOp → Prop
  | (t, .get p) => p = home t ∧ ∀ c < s.cacheCount,
    (s.caches c).ownerThread = some t → (s.caches c).threadExited = false
  | (_, .create _ key) => key = true
  | _ => True

instance [DecidableEq T] (s : CacheState T) : ∀ l, Decidable (OnePool home s l)
  | (t, .get p) => inferInstanceAs (Decidable (p = home t ∧ ∀ c < s.cacheCount,
    (s.caches c).ownerThread = some t → (s.caches c).threadExited = false))
  | (_, .create _ key) => inferInstanceAs (Decidable (key = true))
  | (_, .advance) | (_, .done) | (_, .take) | (_, .store _) | (_, .enter) | (_, .refill _)
  | (_, .flush _) | (_, .pop) | (_, .put _) | (_, .exit) | (_, .destroy _) => .isTrue trivial

/-- What the condition says of a move. -/
structure Tidy (s : CacheState T) (t : T) (x : CacheThread) (e : CacheEffect) : Prop where
  get : ∀ p, (s.threads t).spot = .idle → x.spot = .fastPool p → p = home t ∧
    ∀ c < s.cacheCount, (s.caches c).ownerThread = some t → (s.caches c).threadExited = false
  keyInit : ∀ key, e = .keyInit key → key = true
  create : ∀ p key, e = .create p key → key = true

/-- Where each thread uses one pool. -/
structure AtHome (s : CacheState T) : Prop where
  keyValid : s.tlsKeyValid ≠ some false
  keyed : 0 < s.cacheCount → s.tlsKeyValid = some true
  seeks : ∀ t p, (s.threads t).spot.seeks = some p → p = home t
  pool : ∀ c t p, (s.caches c).ownerThread = some t → (s.caches c).pool = some p → p = home t
  stale : ∀ t, (s.threads t).tlsCache = none → (s.threads t).tlsKey = none ∨
    (s.pools (home t)).destroyed = true
  asserts : ∀ t, At s (s.threads t).tlsKey (s.threads t).spot

/-- **Who will free a cache**: its thread, which has it as the value of `tls_key`; or, after the
thread has exited, that thread or the one that has orphaned it. -/
structure Kept (s : CacheState T) : Prop where
  owner : ∀ c < s.cacheCount, ∃ t, (s.caches c).ownerThread = some t
  /-- No cache of a thread that has or seeks one has exited. -/
  living : ∀ t, (s.threads t).spot.seeks ≠ none ∨ (s.threads t).spot.registering ≠ none ∨
    (s.threads t).tlsKey ≠ none → ∀ c, (s.caches c).ownerThread = some t →
      (s.caches c).threadExited = false
  held : ∀ c t, Owned s t c → (s.threads t).tlsKey = some c ∨ (s.threads t).spot.owns = some c
  exited : ∀ c, (s.caches c).frees = 0 → (s.caches c).threadExited = true →
    (s.caches c).pool = none → (∃ t, (s.threads t).spot.leaves = some c) ∨
      ∃ t, (s.threads t).spot.decides = some (c, true)

end home

section step

variable [DecidableEq T] {home : T → ℕ}

/-- A step that meets the condition. -/
theorem tidy_of_plan {op : CacheOp} (hok : OnePool home s (t, op)) (h : s.plan t op = some (x, e)) :
    Tidy home s t x e := by
  have hmove : Move s t x e := .of_plan h
  have hcreate {p : ℕ} (hspot : (s.threads t).spot = .regCreate p) (key : Bool)
      (he : e = .keyInit key ∨ e = .create p key) : key = true := by
    simp only [plan, advance, hspot] at h
    cases op <;> grind [OnePool]
  constructor
  · intro p hidle hx
    simp only [plan, advance, hidle] at h
    cases op <;> grind [OnePool]
  · rintro key rfl
    obtain ⟨p, hspot⟩ := hmove.keyInit
    exact hcreate hspot key (.inl rfl)
  · rintro p key rfl
    exact hcreate hmove.creates.1 key (.inr rfl)

/-- A cache after a step has the owner that it had, or is a new one. -/
theorem owner_after (hmove : Move s t x e) {u : T}
    (h : ((s.after t x e).caches c).ownerThread = some u) :
    (s.caches c).ownerThread = some u ∨
      (u = t ∧ c = s.cacheCount ∧
        ∃ p key, e = .create p key ∧ (s.threads t).spot = .regCreate p) := by
  have howner : ((s.after t x e).caches c).ownerThread = _ := ownerThread_apply c
  rw [howner] at h
  cases e with
  | create p key =>
      dsimp only at h
      split_ifs at h with hc
      · exact .inr ⟨(Option.some.inj h).symm, hc, p, key, rfl, hmove.creates.1⟩
      · exact .inl h
  | _ => exact .inl h

omit [DecidableEq T] in
/-- A step of a thread takes it from one assertion to the next. -/
theorem AtHome.asserts_self (h : AtHome home s) (howners : Owners s) (hmove : Move s t x e) :
    At s x.tlsKey x.spot := by
  cases hmove with
  | go hspot hgoes =>
      subst hspot
      refine hgoes.at (h.asserts t) (fun p hp htls => ?_) fun p c q hp hc hq => ?_
      · exact h.seeks t p hp ▸ h.stale t htls
      · have hown := (howners.tls t c (howners.cached t c hc)).owner
        exact (h.pool c t q hown hq).trans (h.seeks t p hp).symm
  | procOwn p c rest exited hspot hown =>
      rw [spot_setKey]
      exact at_nextCache rest
  | _ => simp [At]

omit [DecidableEq T] in
/-- A thread that lets go of its cache has no key, or its pool is destroyed. -/
theorem AtHome.stale_self (h : AtHome home s) (howners : Owners s) (hmove : Move s t x e)
    (hx : x.tlsCache = none) : x.tlsKey = none ∨ (s.pools (home t)).destroyed = true := by
  cases hmove with
  | go hspot hgoes => exact h.stale t hx
  | slowGone p cache hspot hdestroyed =>
      exact .inr (h.seeks t p (by rw [hspot]; rfl) ▸ hdestroyed)
  | freeOrphan p c hspot => exact .inl (howners.tlsKey_setKey rfl)
  | leaveExit p c q hspot => exact (hspot ▸ h.asserts t : At s _ (.leaveExit p c q)).elim
  | regBail p hspot =>
      have hdestroyed : At s (s.threads t).tlsKey (.regBail p) := hspot ▸ h.asserts t
      exact .inr (h.seeks t p (by rw [hspot]; rfl) ▸ hdestroyed)
  | regDone p c late hspot =>
      unfold setKey at hx
      split_ifs at hx
  | procOwn p c rest exited hspot hown => exact .inl (howners.tlsKey_setKey rfl)
  | _ => exact .inl rfl

omit [DecidableEq T] in
/-- Once there is a cache the key is valid, and it never turns invalid. -/
theorem AtHome.key_after (h : AtHome home s) (htidy : Tidy home s t x e) :
    (s.apply t e).tlsKeyValid ≠ some false ∧
      (0 < (s.apply t e).cacheCount → (s.apply t e).tlsKeyValid = some true) := by
  have hget : s.tlsKeyValid.getD true = true := by
    cases hold : s.tlsKeyValid with
    | none => rfl
    | some v => exact Bool.eq_true_of_not_eq_false fun hv => h.keyValid (hold.trans (hv ▸ rfl))
  rw [tlsKeyValid_apply, cacheCount_apply]
  cases e with
  | create p key =>
      obtain rfl := htidy.create p key rfl
      simp [hget]
  | keyInit key =>
      obtain rfl := htidy.keyInit key rfl
      simp [hget]
  | _ => exact ⟨h.keyValid, h.keyed⟩

/-- An assertion holds after a step if it is not about a new cache or one that is orphaned while
the thread holds the mutex. -/
theorem at_after {b : CacheSpot} {key : Option ℕ} (h : At s key b)
    (hnew : ∀ c ∈ b.mentions, c < s.cacheCount ∨ ∀ p key, e ≠ .create p key)
    (hexit : ∀ c, b = .exitUnlock c false → e ≠ .orphan c) : At (s.after t x e) key b := by
  have hpool (c : ℕ) (hc : c ∈ b.mentions) (p : ℕ) (hne : c = s.cacheCount)
      (key : Bool) (he : e = .create p key) : False := by
    rcases hnew c hc with hlt | hno
    · exact absurd (hne ▸ hlt) (Nat.lt_irrefl _)
    · exact hno p key he
  refine at_mono h (fun p => destroyed_of_after) (fun c hc p hp => ?_) fun c hb => ?_
  · rcases pool_of_after hp with hold | ⟨hne, key, he⟩
    · exact hold
    · exact (hpool c hc p hne key he).elim
  · have horphan := hexit c hb
    have hc : c ∈ b.mentions := hb ▸ List.mem_singleton_self c
    rw [pool_after, pool_apply]
    cases e with
    | create p key => exact if_neg fun hne => hpool c hc p hne key rfl
    | orphan d => exact if_neg fun hcd => horphan (congrArg CacheEffect.orphan hcd.symm)
    | _ => rfl

/-- The assertion that a thread comes to. -/
theorem AtHome.asserts_after (h : AtHome home s) (howners : Owners s) (hmove : Move s t x e) :
    At (s.after t x e) x.tlsKey x.spot := by
  have hself := h.asserts_self howners hmove
  by_cases hcreate : ∃ p key, e = .create p key
  · obtain ⟨p, key, rfl⟩ := hcreate
    obtain ⟨-, rfl⟩ := hmove.creates
    exact hself
  · refine at_after hself (fun c _ => .inr fun p key he => hcreate ⟨p, key, he⟩) ?_
    rintro c hexit rfl
    obtain ⟨p, rest, -, rfl⟩ := hmove.orphan_spot
    cases hexit

/-- **Every step keeps the threads at home.** -/
theorem AtHome.after (h : AtHome home s) (hknown : Known s) (hlocked : Locked s)
    (howners : Owners s) (htidy : Tidy home s t x e) (hmove : Move s t x e) :
    AtHome home (s.after t x e) := by
  have hthreads (u : T) : (s.after t x e).threads u = if u = t then x else s.threads u :=
    threads_after u
  obtain ⟨hvalid, hkeyed⟩ := h.key_after htidy
  refine ⟨hvalid, hkeyed, fun u p hu => ?_, fun c u p hown hpool => ?_, fun u hu => ?_,
    fun u => ?_⟩
  · rw [hthreads] at hu
    split_ifs at hu with hut
    · rcases hmove.seeks hu with hold | ⟨hidle, hx⟩
      · exact hut ▸ h.seeks t p hold
      · exact hut ▸ (htidy.get p hidle hx).1
    · exact h.seeks u p hu
  · rcases owner_after hmove hown with hold | ⟨rfl, rfl, q, key, rfl, hspot⟩
    · rcases pool_of_after hpool with hpool | ⟨rfl, key, rfl⟩
      · exact h.pool c u p hold hpool
      · rw [hknown.fresh _ (Nat.le_refl _)] at hold
        cases hold
    · have hnew : ((s.after u x (.create q key)).caches s.cacheCount).pool = some q :=
        (pool_apply (s := s) (t := u) (e := .create q key) _).trans (if_pos rfl)
      obtain rfl : q = p := Option.some.inj (hnew.symm.trans hpool)
      exact h.seeks u q (by rw [hspot]; rfl)
  · rw [hthreads] at hu ⊢
    split_ifs at hu ⊢ with hut
    · subst hut
      exact (h.stale_self howners hmove hu).imp_right destroyed_of_after
    · exact (h.stale u hu).imp_right destroyed_of_after
  · rw [hthreads]
    split_ifs with hut
    · exact h.asserts_after howners hmove
    · refine at_after (h.asserts u) (fun c hc => .inl (hknown.thread u c (.inl hc))) ?_
      rintro c hexit rfl
      have ht : (s.threads t).spot.locks = some c := by
        obtain ⟨p, rest, hspot, -⟩ := hmove.orphan_spot
        rw [hspot]
        rfl
      have hu : (s.threads u).spot.locks = some c := by rw [hexit]; rfl
      exact hut (Option.some.inj (((hlocked c u).2 hu).symm.trans ((hlocked c t).2 ht)))

/-! ## Who will free a cache -/

omit [DecidableEq T] in
theorem Goes.living {a b : CacheSpot} (h : Goes s t a b e) (hb : b.registering ≠ none) :
    a.registering ≠ none ∨ a.seeks ≠ none := by
  cases h with
  | procFree p c rest | procKeep p c rest => cases rest <;> exact absurd rfl hb
  | _ => grind -linarith [CacheSpot.registering, CacheSpot.seeks]

omit [DecidableEq T] in
theorem Move.living (h : Move s t x e) (hx : x.spot.registering ≠ none) :
    (s.threads t).spot.registering ≠ none ∨ (s.threads t).spot.seeks ≠ none := by
  cases h with
  | go hspot h => exact hspot ▸ h.living hx
  | procOwn p c rest exited hspot hown =>
      rw [spot_setKey] at hx
      cases rest <;> exact absurd rfl hx
  | _ => simp [CacheSpot.registering] at hx

omit [DecidableEq T] in
/-- A cache that its thread is about to register, or to let go of, stays with it until the key has
it or it is marked. -/
theorem Goes.owns_of {a b : CacheSpot} (h : Goes s t a b e) (ha : a.owns = some c) :
    b.owns = some c ∨ e = .markExited c := by
  cases h <;> grind -linarith [CacheSpot.owns]

omit [DecidableEq T] in
/-- A thread that has marked its cache frees it, or finds that it has a pool. -/
theorem Goes.leaves_of {a b : CacheSpot} (h : Goes s t a b e) (ha : a.leaves = some c) :
    b.leaves = some c ∨ e = .free c ∨ a = .exitUnlock c false := by
  cases h <;> grind -linarith [CacheSpot.leaves]

omit [DecidableEq T] in
/-- A thread that has orphaned a cache whose thread has exited frees it. -/
theorem Goes.decides_of {a b : CacheSpot} (h : Goes s t a b e) (ha : a.decides = some (c, true)) :
    b.decides = some (c, true) ∨ e = .free c := by
  cases h <;> grind -linarith [CacheSpot.decides]

omit [DecidableEq T] in
/-- A thread gets a key when it has registered a cache. -/
theorem Move.key_of (h : Move s t x e) (hx : x.tlsKey ≠ none) :
    (s.threads t).tlsKey ≠ none ∨ (s.threads t).spot.registering ≠ none := by
  cases h <;> grind -linarith [CacheSpot.registering, setKey, dropCache]

/-- What is owned after a step was owned before, and neither freed nor marked, or is new. -/
theorem owned_of_after (hknown : Known s) (hmove : Move s t x e) (h : Owned (s.after t x e) u c) :
    (Owned s u c ∧ e ≠ .free c ∧ e ≠ .markExited c) ∨ (u = t ∧ x.spot.owns = some c) := by
  have hfrees : ((s.after t x e).caches c).frees = _ := frees_apply c
  have hexited : ((s.after t x e).caches c).threadExited = _ := threadExited_apply c
  rcases owner_after hmove h.owner with hown | ⟨rfl, rfl, p, key, rfl, -⟩
  · rw [h.frees] at hfrees
    rw [h.exited] at hexited
    cases e with
    | create p key =>
        have hc : c ≠ s.cacheCount := by
          rintro rfl
          rw [hknown.fresh _ (Nat.le_refl _)] at hown
          cases hown
        refine .inl ⟨⟨hown, ?_, ?_⟩, nofun, nofun⟩
        · exact (hfrees.trans (if_neg hc)).symm
        · exact (hexited.trans (if_neg hc)).symm
    | free d =>
        have hcd : c ≠ d := by
          rintro rfl
          exact absurd (hfrees.trans (if_pos rfl)).symm (Nat.succ_ne_zero _)
        exact .inl ⟨⟨hown, (hfrees.trans (if_neg hcd)).symm, hexited.symm⟩,
          fun he => hcd (CacheEffect.free.inj he).symm, nofun⟩
    | markExited d =>
        have hcd : c ≠ d := by
          rintro rfl
          cases hexited.trans (if_pos rfl)
        exact .inl ⟨⟨hown, hfrees.symm, (hexited.trans (if_neg hcd)).symm⟩, nofun,
          fun he => hcd (CacheEffect.markExited.inj he).symm⟩
    | _ => exact .inl ⟨⟨hown, hfrees.symm, hexited.symm⟩, nofun, nofun⟩
  · obtain ⟨-, rfl⟩ := hmove.creates
    exact .inr ⟨rfl, rfl⟩

/-- A thread that has or seeks a cache has none that has exited. -/
theorem Kept.living_after (h : Kept s) (hknown : Known s) (howners : Owners s)
    (htidy : Tidy home s t x e) (hmove : Move s t x e)
    (hu : ((s.after t x e).threads u).spot.seeks ≠ none ∨
      ((s.after t x e).threads u).spot.registering ≠ none ∨
      ((s.after t x e).threads u).tlsKey ≠ none)
    (hown : ((s.after t x e).caches c).ownerThread = some u) :
    ((s.after t x e).caches c).threadExited = false := by
  rw [threads_after] at hu
  have hexited : ((s.after t x e).caches c).threadExited = _ := threadExited_apply c
  rw [hexited]
  rcases owner_after hmove hown with hold | ⟨rfl, rfl, p, key, rfl, -⟩
  · have hliving : (s.caches c).threadExited = false := by
      split_ifs at hu with hut
      · subst hut
        rcases hu with hseeks | hregisters | hkey
        · obtain ⟨p, hp⟩ := Option.ne_none_iff_exists'.1 hseeks
          rcases hmove.seeks hp with hseeks | ⟨hidle, hx⟩
          · exact h.living u (.inl (by simp [hseeks])) c hold
          · refine (htidy.get p hidle hx).2 c ?_ hold
            by_contra hno
            rw [hknown.fresh c (Nat.not_lt.1 hno)] at hold
            cases hold
        · exact h.living u ((hmove.living hregisters).elim (fun hr => .inr (.inl hr)) .inl) c hold
        · refine h.living u ?_ c hold
          exact (hmove.key_of hkey).elim (fun hk => .inr (.inr hk)) fun hr => .inr (.inl hr)
      · exact h.living u hu c hold
    cases e with
    | create p key =>
        dsimp only
        split_ifs
        · rfl
        · exact hliving
    | markExited d =>
        refine (if_neg ?_).trans hliving
        rintro rfl
        obtain ⟨hspot, rfl⟩ := hmove.markExited
        have hut : t = u := Option.some.inj
          ((howners.owns t c (by rw [hspot]; rfl)).owner.symm.trans hold)
        have hkey := (howners.exits t (by rw [hspot]; rfl)).2
        simp [hut ▸ hkey, hut, CacheSpot.seeks, CacheSpot.registering] at hu
    | _ => exact hliving
  · exact if_pos rfl

omit [DecidableEq T] in
/-- A thread keeps what it owns, by the key or by where it is. -/
theorem Kept.held_self (h : Kept s) (hhome : AtHome home s) (hknown : Known s) (howners : Owners s)
    (hmove : Move s t x e) (hown : Owned s t c) (hfree : e ≠ .free c)
    (hmark : e ≠ .markExited c) : x.tlsKey = some c ∨ x.spot.owns = some c := by
  have hheld := h.held c t hown
  cases hmove with
  | go hspot hgoes =>
      refine hheld.imp_right fun howns => ?_
      exact (hgoes.owns_of (hspot ▸ howns)).resolve_right hmark
  | slowGone p cache hspot | regBail p hspot =>
      refine .inl (hheld.resolve_right ?_)
      simp [hspot, CacheSpot.owns]
  | freeOrphan p d hspot =>
      have hkey := hheld.resolve_right (by simp [hspot, CacheSpot.owns])
      have hcached := howners.cached t d (by rw [hspot]; rfl)
      rcases (howners.keyValid t c hkey).2 with hnone | hsome
      · cases hcached.symm.trans hnone
      · exact absurd (congrArg CacheEffect.free (Option.some.inj (hcached.symm.trans hsome))) hfree
  | leaveExit p d q hspot => exact (hspot ▸ hhome.asserts t : At s _ (.leaveExit p d q)).elim
  | regDone p d late hspot =>
      have hnone : (s.threads t).tlsKey = none :=
        (hspot ▸ hhome.asserts t : At s _ (.regDone p d late))
      have howns := hheld.resolve_left (by simp [hnone])
      rw [hspot] at howns
      obtain rfl : d = c := Option.some.inj howns
      have hmem : d ∈ (s.threads t).spot.mentions := by
        rw [hspot]
        exact List.mem_singleton_self d
      have hcount : 0 < s.cacheCount := Nat.zero_lt_of_lt (hknown.thread t d (.inl hmem))
      exact .inl (by simp [setKey, hhome.keyed hcount])
  | exit hspot hkey => simp [hkey, hspot, CacheSpot.owns] at hheld
  | exitCache d hspot hkey =>
      have hcd := hheld.resolve_right (by simp [hspot, CacheSpot.owns])
      exact .inr (hkey.symm.trans hcd)
  | procOwn p d rest exited hspot hmine =>
      have hkey := hheld.resolve_right (by simp [hspot, CacheSpot.owns])
      have hd : Owned s t d :=
        ⟨hmine, (howners.decides t d exited (by rw [hspot]; rfl)).1 hmine,
          h.living t (.inr (.inr (by simp [hkey]))) d hmine⟩
      have hkey' := (h.held d t hd).resolve_right (by simp [hspot, CacheSpot.owns])
      exact absurd (congrArg CacheEffect.free (Option.some.inj (hkey'.symm.trans hkey))) hfree

omit [DecidableEq T] in
/-- Whoever is to free a cache of a thread that has exited still is, or has done so. -/
theorem AtHome.leaves_self (h : AtHome home s) (hmove : Move s t x e)
    (hpool : (s.caches c).pool = none) (hleaves : (s.threads t).spot.leaves = some c) :
    x.spot.leaves = some c ∨ e = .free c := by
  cases hmove with
  | go hspot hgoes =>
      rcases hgoes.leaves_of (hspot ▸ hleaves) with hx | he | rfl
      · exact .inl hx
      · exact .inr he
      · exact absurd hpool (hspot ▸ h.asserts t : At s _ (.exitUnlock c false))
  | _ hspot => simp_all [CacheSpot.leaves]

omit [DecidableEq T] in
theorem Move.decides_of (h : Move s t x e) (hold : (s.threads t).spot.decides = some (c, true)) :
    x.spot.decides = some (c, true) ∨ e = .free c := by
  cases h with
  | go hspot h => exact h.decides_of (hspot ▸ hold)
  | _ => simp_all [CacheSpot.decides]

/-- A cache of a thread that has exited, once it is orphaned. -/
theorem Kept.exited_after (h : Kept s) (hhome : AtHome home s) (hmove : Move s t x e)
    (hfrees : ((s.after t x e).caches c).frees = 0)
    (hexited : ((s.after t x e).caches c).threadExited = true)
    (hpool : ((s.after t x e).caches c).pool = none) :
    (∃ u, ((s.after t x e).threads u).spot.leaves = some c) ∨
      ∃ u, ((s.after t x e).threads u).spot.decides = some (c, true) := by
  have hthreads (u : T) : (s.after t x e).threads u = if u = t then x else s.threads u :=
    threads_after u
  have hself : (s.after t x e).threads t = x := (hthreads t).trans (if_pos rfl)
  have hfrees' : ((s.after t x e).caches c).frees = _ := frees_apply c
  have hexited' : ((s.after t x e).caches c).threadExited = _ := threadExited_apply c
  have hpool' : ((s.after t x e).caches c).pool = _ := pool_apply c
  rw [hfrees] at hfrees'
  rw [hexited] at hexited'
  rw [hpool] at hpool'
  by_cases hmark : e = .markExited c
  · subst hmark
    obtain ⟨-, rfl⟩ := hmove.markExited
    exact .inl ⟨t, by rw [hself]; rfl⟩
  by_cases horphan : e = .orphan c
  · subst horphan
    obtain ⟨p, rest, -, rfl⟩ := hmove.orphan_spot
    have hx : true = (s.caches c).threadExited := hexited'
    exact .inr ⟨t, by rw [hself, hx]; rfl⟩
  have hold : (s.caches c).frees = 0 ∧ (s.caches c).threadExited = true ∧ (s.caches c).pool = none ∧
      e ≠ .free c := by
    cases e <;> grind -linarith
  obtain ⟨hf, hx, hp, hfree⟩ := hold
  rcases h.exited c hf hx hp with ⟨u, hu⟩ | ⟨u, hu⟩
  · refine .inl ⟨u, ?_⟩
    rw [hthreads]
    split_ifs with hut
    · exact (hhome.leaves_self hmove hp (hut ▸ hu)).resolve_right hfree
    · exact hu
  · refine .inr ⟨u, ?_⟩
    rw [hthreads]
    split_ifs with hut
    · exact (hmove.decides_of (hut ▸ hu)).resolve_right hfree
    · exact hu

/-- Every cache has a thread. -/
theorem Kept.owner_after (h : Kept s) (hc : c < (s.after t x e).cacheCount) :
    ∃ u, ((s.after t x e).caches c).ownerThread = some u := by
  have howner : ((s.after t x e).caches c).ownerThread = _ := ownerThread_apply c
  have hcount : (s.after t x e).cacheCount = _ := cacheCount_apply
  rw [howner]
  rw [hcount] at hc
  cases e with
  | create p key =>
      dsimp only at hc ⊢
      split_ifs with heq
      · exact ⟨t, rfl⟩
      · exact h.owner c (Nat.lt_of_le_of_ne (Nat.le_of_lt_succ hc) heq)
  | _ => exact h.owner c hc

/-- **Every step keeps the caches.** -/
theorem Kept.after (h : Kept s) (hhome : AtHome home s) (hknown : Known s) (howners : Owners s)
    (htidy : Tidy home s t x e) (hmove : Move s t x e) : Kept (s.after t x e) where
  owner c hc := h.owner_after hc
  living _ hu _ hown := h.living_after hknown howners htidy hmove hu hown
  held c u hown := by
    rw [threads_after]
    rcases owned_of_after hknown hmove hown with ⟨hold, hfree, hmark⟩ | ⟨rfl, hnew⟩
    · split_ifs with hut
      · subst hut
        exact h.held_self hhome hknown howners hmove hold hfree hmark
      · exact h.held c u hold
    · rw [if_pos rfl]
      exact .inr hnew
  exited _ hfrees hexited hpool := h.exited_after hhome hmove hfrees hexited hpool

/-- **In every state that is reached under the condition** the threads are at home and the caches
are kept. -/
theorem kept_of_reachable (h : Reachable ((cacheSystem T).restrict (OnePool home)) s) :
    Reachable (cacheSystem T) s ∧ AtHome home s ∧ Kept s := by
  refine Reachable.invariant
    (I := fun s => Reachable (cacheSystem T) s ∧ AtHome home s ∧ Kept s) ?_ ?_ h
  · rintro s rfl
    refine ⟨.of_init rfl, ?_, ?_⟩
    · constructor <;> simp [CacheSpot.seeks, At]
    · constructor
      · exact fun c hc => absurd hc (Nat.not_lt_zero c)
      · exact fun _ _ _ _ => rfl
      · exact fun c t hown => nomatch hown.owner
      · exact fun c _ hexited _ => nomatch hexited
  · rintro s ⟨t, op⟩ s' ⟨hreach, hhome, hkept⟩ ⟨hok, hstep⟩
    refine ⟨hreach.step hstep, ?_⟩
    obtain ⟨⟨x, e⟩, hplan, rfl⟩ := Option.map_eq_some_iff.1 hstep
    have hmove : Move s t x e := .of_plan hplan
    have htidy := tidy_of_plan hok hplan
    obtain ⟨hknown, hlocked, -⟩ := places_of_reachable hreach
    have howners := owners_of_reachable hreach
    exact ⟨hhome.after hknown hlocked howners htidy hmove,
      hkept.after hhome hknown howners htidy hmove⟩

end step

end CacheState

/-! ## What becomes of them -/

section freed

variable {T : Type*} [DecidableEq T] [Fintype T] {home : T → ℕ} {s : CacheState T}

/-- **No cache is lost** where each thread uses one pool: when the threads have exited and the pools
are destroyed, every cache was freed once, with no buffer in it. -/
theorem caches_freed (h : Reachable ((cacheSystem T).restrict (CacheState.OnePool home)) s)
    (hidle : ∀ t, (s.threads t).spot = .idle ∧ (s.threads t).tlsKey = none)
    (hgone : ∀ t, (s.pools (home t)).shards = none) {c : ℕ} (hc : c < s.cacheCount) :
    (s.caches c).frees = 1 ∧ (s.caches c).buffers = [] := by
  obtain ⟨hreach, hhome, hkept⟩ := CacheState.kept_of_reachable h
  obtain ⟨hsound, hclean, hemptied⟩ := CacheState.clean_of_reachable hreach
  obtain ⟨t, hown⟩ := hkept.owner c hc
  have hpool : (s.caches c).pool = none := by
    cases hp : (s.caches c).pool with
    | none => rfl
    | some p =>
        obtain rfl := hhome.pool c t p hown hp
        refine absurd hp (hsound.pool_none hemptied (hgone t) fun u hu => ?_)
        rw [(hidle u).1] at hu
        cases hu
  refine ⟨?_, hclean.empty c (hclean.orphaned c hc hpool)⟩
  by_contra hne
  have hfrees : (s.caches c).frees = 0 := by
    by_contra hfreed
    exact hne (hsound.owners.freed c hfreed).1
  cases hexited : (s.caches c).threadExited with
  | false =>
      obtain ⟨hspot, hkey⟩ := hidle t
      rcases hkept.held c t ⟨hown, hfrees, hexited⟩ with hheld | hheld
      · cases hkey.symm.trans hheld
      · rw [hspot] at hheld
        cases hheld
  | true =>
      rcases hkept.exited c hfrees hexited hpool with ⟨u, hu⟩ | ⟨u, hu⟩
      all_goals
        rw [(hidle u).1] at hu
        cases hu

/-- A thread destroys a pool that has one cache. -/
def destroysPool {T : Type*} (t : T) (p : ℕ) : List (T × CacheOp) :=
  orphansCache t p ++ List.replicate 4 (t, .advance)

/-- A thread exits whose cache was orphaned. -/
def exits {T : Type*} (t : T) : List (T × CacheOp) := (t, .exit) :: List.replicate 7 (t, .advance)

/-- Have all threads exited? -/
def CacheState.allExited (s : CacheState Bool) : Bool :=
  decide (∀ t, (s.threads t).spot.isIdle = true ∧ (s.threads t).tlsKey = none)

theorem CacheState.idle_of_allExited {s : CacheState Bool} (h : s.allExited = true) (t : Bool) :
    (s.threads t).spot = .idle ∧ (s.threads t).tlsKey = none :=
  (of_decide_eq_true h t).imp_left CacheSpot.of_isIdle

/-- A thread uses a pool, another one destroys it, and the first one exits. -/
theorem caches_freed_run : ∃ s : CacheState Bool,
    Reachable ((cacheSystem Bool).restrict (CacheState.OnePool fun _ => 0)) s ∧
    (s.caches 0).frees = 1 ∧ (s.caches 0).buffers = [] := by
  have hexec : ((execute (fun s l =>
        if CacheState.OnePool (fun _ => 0) s l then CacheState.step s l else none) {}
      (getsCache false 0 ++ (false, .done) :: destroysPool true 0 ++ exits false)).any fun s =>
      s.allExited && (s.pools 0).shards = none && 0 < s.cacheCount) = true := by decide +kernel
  obtain ⟨s, hs, hchecks⟩ := (Option.any_eq_true _ _).1 hexec
  rw [Bool.and_eq_true, Bool.and_eq_true, decide_eq_true_iff, decide_eq_true_iff] at hchecks
  obtain ⟨⟨hidle, hgone⟩, hcount⟩ := hchecks
  have hreach : Reachable ((cacheSystem Bool).restrict (CacheState.OnePool fun _ => 0)) s :=
    Reachable.of_guarded rfl hs
  have hall := CacheState.idle_of_allExited hidle
  exact ⟨s, hreach, caches_freed hreach hall (fun _ => hgone) hcount⟩

/-- Where a thread uses two pools, its cache of the first one is lost. -/
theorem cache_lost : ∃ s : CacheState Bool, Reachable (cacheSystem Bool) s ∧
    (∀ t, (s.threads t).spot = .idle ∧ (s.threads t).tlsKey = none) ∧
    (s.pools 0).shards = none ∧ (s.pools 1).shards = none ∧ (s.caches 0).frees = 0 := by
  have hexec : ((execute CacheState.step {} (getsCache false 0 ++ (false, .done) ::
      (false, .get 1) :: List.replicate 11 (false, .advance) ++ (false, .done) :: getsCache false 1 ++
        (false, .done) :: destroysPool true 0 ++ destroysPool true 1 ++ exits false)).any fun s =>
      s.allExited && (s.pools 0).shards = none && (s.pools 1).shards = none &&
        (s.caches 0).frees = 0) = true := by decide +kernel
  obtain ⟨s, hs, hchecks⟩ := (Option.any_eq_true _ _).1 hexec
  simp only [Bool.and_eq_true, decide_eq_true_iff] at hchecks
  obtain ⟨⟨⟨hidle, hgone⟩, hgone'⟩, hfrees⟩ := hchecks
  exact ⟨s, Reachable.of_execute rfl hs, CacheState.idle_of_allExited hidle, hgone, hgone', hfrees⟩

end freed

end Aura
