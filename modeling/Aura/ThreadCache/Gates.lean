import Aura.ThreadCache.Machine
import Mathlib.Algebra.BigOperators.Ring.Finset
import Mathlib.Algebra.Order.BigOperators.Group.Finset
import Mathlib.Algebra.Order.Ring.Int

/-!
# The gates of a pool

Whoever destroys a pool sets `destroyed` and then waits for `registrations_inflight` and for
`active_users`. A thread adds itself to a counter before it looks at `destroyed`, so that a zero
seen after the store means that nobody is inside any more, and nobody comes.

* `CacheState.Counted` — the counters count the threads.
* `CacheState.Gates` — behind the first gate nobody registers a cache, behind the second nobody is
  in the shards.
-/

namespace Aura

open Lib

/-! ## Where a thread counts -/

namespace CacheSpot

/-- The pool whose `registrations_inflight` counts the thread. -/
def registration : CacheSpot → Option ℕ
  | regCheck p | regBail p | regCreate p | regFail p | regPush p _ | regRecheck p _ | lateLock p _
  | lateMark p _ | lateUnlock p _ | regDone p _ _ => some p
  | _ => none

/-- The pool whose `active_users` counts the thread. -/
def user : CacheSpot → Option ℕ
  | leaveCheck _ _ q | leaveClean _ _ q _ | leaveUnlock _ _ q | leaveExit _ _ q => some q
  | userCheck p _ | userBack p | inShards p _ => some p
  | exitCheck _ q | exitBack _ q | exitFlush _ q | exitLeave _ q => some q
  | _ => none

/-- The pool for which the thread registers a cache, having seen that it is not destroyed. -/
def registers : CacheSpot → Option ℕ
  | regCreate p | regFail p | regPush p _ | regRecheck p _ | lateLock p _ | lateMark p _
  | lateUnlock p _ | regDone p _ _ => some p
  | _ => none

/-- The pool in whose shards the thread is. -/
def uses : CacheSpot → Option ℕ
  | leaveClean _ _ q .flush | exitFlush _ q => some q
  | inShards p _ => some p
  | _ => none

/-- The pool that the thread destroys, once it has set `destroyed`. -/
def destroys : CacheSpot → Option ℕ
  | waitRegistrations p | waitUsers p | detach p | procLock p _ _ | procClean p _ _
  | procOrphan p _ _ | procUnlock p _ _ _ | procDecide p _ _ _ | destroyShards p => some p
  | _ => none

/-- The same behind the first gate. -/
def closes : CacheSpot → Option ℕ
  | waitUsers p | detach p | procLock p _ _ | procClean p _ _ | procOrphan p _ _
  | procUnlock p _ _ _ | procDecide p _ _ _ | destroyShards p => some p
  | _ => none

/-- The same behind the second gate. -/
def drains : CacheSpot → Option ℕ
  | detach p | procLock p _ _ | procClean p _ _ | procOrphan p _ _ | procUnlock p _ _ _
  | procDecide p _ _ _ | destroyShards p => some p
  | _ => none

variable {x : CacheSpot} {p : ℕ}

theorem registration_of_registers (h : x.registers = some p) : x.registration = some p := by
  cases x <;> simp_all [registers, registration]

theorem user_of_uses (h : x.uses = some p) : x.user = some p := by
  cases x with
  | leaveClean p c q mode => cases mode <;> simp_all [uses, user]
  | _ => simp_all [uses, user]

theorem destroys_of_closes (h : x.closes = some p) : x.destroys = some p := by
  cases x <;> simp_all [closes, destroys]

theorem closes_of_drains (h : x.drains = some p) : x.closes = some p := by
  cases x <;> simp_all [drains, closes]

end CacheSpot

namespace CacheEffect

/-- What is added to `registrations_inflight` of a pool. -/
def registrationsOf (p : ℕ) : CacheEffect → ℤ
  | registrations q d => if q = p then d else 0
  | _ => 0

/-- What is added to `active_users` of a pool. -/
def usersOf (p : ℕ) : CacheEffect → ℤ
  | users q d => if q = p then d else 0
  | _ => 0

end CacheEffect

namespace CacheState

variable {T : Type*} {s s' : CacheState T} {x : CacheThread} {e : CacheEffect} {p c : ℕ}

/-! ## The pools after a step -/

@[simp] theorem pools_setCache (w : CacheWords T) : (s.setCache c w).pools = s.pools := rfl

@[simp] theorem pools_keyInit (ok : Bool) : (s.keyInit ok).pools = s.pools := rfl

@[simp] theorem pools_createCache (t : T) : (s.createCache t p).pools = s.pools := rfl

theorem pools_setPool (w : PoolWords) (q : ℕ) :
    (s.setPool p w).pools q = if q = p then w else s.pools q := Function.update_apply _ _ _ _

/-- The shards get buffers; nothing else of a pool changes. -/
theorem pools_shardsGet (bs : List ℕ) (q : ℕ) : (s.shardsGet p bs).pools q =
    if q = p then { s.pools p with shards := (s.pools p).shards.map (bs ++ ·) } else s.pools q :=
  pools_setPool _ q

/-- A cleanup may put buffers into the shards. -/
theorem pools_cleanupCache (pool : Option ℕ) (mode : CacheCleanupMode) (q : ℕ) :
    ∃ bs : List ℕ, (s.cleanupCache pool c mode).pools q =
      { s.pools q with shards := (s.pools q).shards.map (bs ++ ·) } := by
  have hsame : { s.pools q with shards := (s.pools q).shards.map ([] ++ ·) } = s.pools q := by
    simp
  unfold cleanupCache
  dsimp only
  split_ifs
  · exact ⟨[], hsame.symm⟩
  · split
    · next p =>
        by_cases hq : q = p
        · subst hq
          exact ⟨_, (pools_shardsGet _ q).trans (if_pos rfl)⟩
        · exact ⟨[], ((pools_shardsGet _ q).trans (if_neg hq)).trans hsame.symm⟩
    · exact ⟨[], hsame.symm⟩

variable {t u : T}

theorem registrationsInflight_apply (p : ℕ) : ((s.apply t e).pools p).registrationsInflight =
    (s.pools p).registrationsInflight + e.registrationsOf p := by
  cases e with
  | cleanup pool c mode =>
      obtain ⟨bs, hpools⟩ := pools_cleanupCache (s := s) (c := c) pool mode p
      simp [apply, hpools, CacheEffect.registrationsOf]
  | _ => grind [apply, CacheEffect.registrationsOf, pools_setPool, pools_shardsGet,
      pools_setCache, pools_keyInit, pools_createCache]

theorem activeUsers_apply (p : ℕ) : ((s.apply t e).pools p).activeUsers =
    (s.pools p).activeUsers + e.usersOf p := by
  cases e with
  | cleanup pool c mode =>
      obtain ⟨bs, hpools⟩ := pools_cleanupCache (s := s) (c := c) pool mode p
      simp [apply, hpools, CacheEffect.usersOf]
  | _ => grind [apply, CacheEffect.usersOf, pools_setPool, pools_shardsGet,
      pools_setCache, pools_keyInit, pools_createCache]

theorem destroyed_apply (p : ℕ) : ((s.apply t e).pools p).destroyed = true ↔
    (s.pools p).destroyed = true ∨ e = .markDestroyed p := by
  cases e with
  | cleanup pool c mode =>
      obtain ⟨bs, hpools⟩ := pools_cleanupCache (s := s) (c := c) pool mode p
      simp [apply, hpools]
  | _ => grind [apply, pools_setPool, pools_shardsGet,
      pools_setCache, pools_keyInit, pools_createCache]

theorem shards_apply (p : ℕ) : ((s.apply t e).pools p).shards = none ↔
    (s.pools p).shards = none ∨ e = .destroyShards p := by
  cases e with
  | cleanup pool c mode =>
      obtain ⟨bs, hpools⟩ := pools_cleanupCache (s := s) (c := c) pool mode p
      simp [apply, hpools]
  | _ => grind [apply, pools_setPool, pools_shardsGet, pools_setCache, pools_keyInit,
      pools_createCache, Option.map_eq_none_iff]

theorem threadCaches_apply (p : ℕ) : ((s.apply t e).pools p).threadCaches =
    match e with
    | .push q c => if p = q then c :: (s.pools p).threadCaches else (s.pools p).threadCaches
    | .detach q => if p = q then [] else (s.pools p).threadCaches
    | _ => (s.pools p).threadCaches := by
  cases e with
  | cleanup pool c mode =>
      obtain ⟨bs, hpools⟩ := pools_cleanupCache (s := s) (c := c) pool mode p
      simp [apply, hpools]
  | _ => grind [apply, pools_setPool, pools_shardsGet,
      pools_setCache, pools_keyInit, pools_createCache]

/-! ## The counters -/

@[simp] theorem registration_nextCache (rest : List ℕ) :
    (nextCache p rest).registration = none := by cases rest <;> rfl

@[simp] theorem user_nextCache (rest : List ℕ) : (nextCache p rest).user = none := by
  cases rest <;> rfl

@[simp] theorem registers_nextCache (rest : List ℕ) : (nextCache p rest).registers = none := by
  cases rest <;> rfl

@[simp] theorem uses_nextCache (rest : List ℕ) : (nextCache p rest).uses = none := by
  cases rest <;> rfl

@[simp] theorem destroys_nextCache (rest : List ℕ) : (nextCache p rest).destroys = some p := by
  cases rest <;> rfl

@[simp] theorem closes_nextCache (rest : List ℕ) : (nextCache p rest).closes = some p := by
  cases rest <;> rfl

@[simp] theorem drains_nextCache (rest : List ℕ) : (nextCache p rest).drains = some p := by
  cases rest <;> rfl

@[simp] theorem spot_setKey (x : CacheThread) (o : Option ℕ) : (s.setKey x o).spot = x.spot := by
  unfold setKey
  split_ifs <;> rfl

@[simp] theorem spot_dropCache : (s.dropCache t p).spot = .got p none := spot_setKey _ _

/-- A step to a spot where the thread counts comes with the increment, and one from there with the
decrement. -/
theorem Goes.registration {a b : CacheSpot} (h : Goes s t a b e) (p : ℕ) :
    (if b.registration = some p then 1 else 0) =
      (if a.registration = some p then 1 else 0) + e.registrationsOf p := by
  cases h <;> grind [CacheSpot.registration, CacheEffect.registrationsOf, registration_nextCache]

theorem Goes.user {a b : CacheSpot} (h : Goes s t a b e) (p : ℕ) :
    (if b.user = some p then 1 else 0) =
      (if a.user = some p then 1 else 0) + e.usersOf p := by
  cases h <;> grind [CacheSpot.user, CacheEffect.usersOf, user_nextCache]

theorem Move.registration (h : Move s t x e) (p : ℕ) :
    (if x.spot.registration = some p then 1 else 0) =
      (if (s.threads t).spot.registration = some p then 1 else 0) + e.registrationsOf p := by
  cases h with
  | go hspot h => exact hspot ▸ h.registration p
  | regDone q c late hspot =>
      cases late <;> grind [CacheSpot.registration, CacheEffect.registrationsOf, spot_setKey]
  | _ => grind [CacheSpot.registration, CacheEffect.registrationsOf, registration_nextCache,
      spot_setKey, spot_dropCache]

theorem Move.user (h : Move s t x e) (p : ℕ) :
    (if x.spot.user = some p then 1 else 0) =
      (if (s.threads t).spot.user = some p then 1 else 0) + e.usersOf p := by
  cases h with
  | go hspot h => exact hspot ▸ h.user p
  | _ => grind [CacheSpot.user, CacheEffect.usersOf, user_nextCache, spot_setKey, spot_dropCache]

/-- The number of threads at the spots that count for the pool. -/
def tally [Fintype T] (f : CacheSpot → Option ℕ) (s : CacheState T) (p : ℕ) : ℤ :=
  ∑ t, if f (s.threads t).spot = some p then 1 else 0

/-- **The counters count the threads.** -/
structure Counted [Fintype T] (s : CacheState T) : Prop where
  registrations : ∀ p, (s.pools p).registrationsInflight = tally CacheSpot.registration s p
  users : ∀ p, (s.pools p).activeUsers = tally CacheSpot.user s p

section tally

variable [Fintype T] {f : CacheSpot → Option ℕ}

/-- A counter that is not positive counts nobody. -/
theorem ne_of_tally_le (h : tally f s p ≤ 0) (t : T) : f (s.threads t).spot ≠ some p := by
  intro ht
  have hpos : 0 < tally f s p := by
    refine Finset.sum_pos' (fun u _ => ?_) ⟨t, Finset.mem_univ t, ?_⟩
    · split_ifs <;> decide
    · rw [if_pos ht]
      decide
  omega

variable [DecidableEq T]

theorem tally_after (f : CacheSpot → Option ℕ) (p : ℕ) {d : ℤ}
    (h : (if f x.spot = some p then 1 else 0) =
      (if f (s.threads t).spot = some p then 1 else 0) + d) :
    tally f (s.after t x e) p = tally f s p + d := by
  have hsum := sum_update_exchange (Finset.mem_univ t) (f := s.threads) (a := x)
    (fun _ y => if f y.spot = some p then (1 : ℤ) else 0) (x := 0) (y := d)
    ((add_zero _).trans h)
  exact (add_zero _).symm.trans hsum

theorem Counted.after (h : Counted s) (hmove : Move s t x e) : Counted (s.after t x e) where
  registrations p := by
    rw [tally_after _ _ (hmove.registration p), ← h.registrations]
    exact registrationsInflight_apply p
  users p := by
    rw [tally_after _ _ (hmove.user p), ← h.users]
    exact activeUsers_apply p

end tally

/-! ## The gates -/

/-- **The gates.** -/
structure Gates (s : CacheState T) : Prop where
  destroyed : ∀ t p, (s.threads t).spot.destroys = some p → (s.pools p).destroyed = true
  /-- Behind the first gate nobody registers a cache. -/
  closed : ∀ t p, (s.threads t).spot.closes = some p → ∀ u, (s.threads u).spot.registers ≠ some p
  /-- Behind the second gate nobody is in the shards. -/
  drained : ∀ t p, (s.threads t).spot.drains = some p → ∀ u, (s.threads u).spot.uses ≠ some p
  gone : ∀ p, (s.pools p).shards = none → (s.pools p).destroyed = true ∧
    ∀ u, (s.threads u).spot.registers ≠ some p ∧ (s.threads u).spot.uses ≠ some p

section goes

variable {a b : CacheSpot}

theorem Goes.destroys (h : Goes s t a b e) (p : ℕ) (hb : b.destroys = some p) :
    a.destroys = some p ∨ e = .markDestroyed p := by
  cases h with
  | procFree q c rest => exact .inl ((destroys_nextCache rest).symm.trans hb)
  | procKeep q c rest => exact .inl ((destroys_nextCache rest).symm.trans hb)
  | _ =>
      first
      | exact .inl hb
      | cases hb; done
      | simp_all [CacheSpot.destroys]

theorem Goes.registers (h : Goes s t a b e) (p : ℕ) (hb : b.registers = some p) :
    a.registers = some p ∨ (s.pools p).destroyed = false := by
  cases h with
  | procFree q c rest => exact .inl ((registers_nextCache rest).symm.trans hb)
  | procKeep q c rest => exact .inl ((registers_nextCache rest).symm.trans hb)
  | _ =>
      first
      | exact .inl hb
      | cases hb; done
      | simp_all [CacheSpot.registers]

theorem Goes.uses (h : Goes s t a b e) (p : ℕ) (hb : b.uses = some p) :
    a.uses = some p ∨ (s.pools p).destroyed = false := by
  cases h with
  | procFree q c rest => exact .inl ((uses_nextCache rest).symm.trans hb)
  | procKeep q c rest => exact .inl ((uses_nextCache rest).symm.trans hb)
  | _ =>
      first
      | exact .inl hb
      | cases hb; done
      | simp_all [CacheSpot.uses]

theorem Goes.closes (h : Goes s t a b e) (p : ℕ) (hb : b.closes = some p) :
    a.closes = some p ∨
      (a.destroys = some p ∧ (s.pools p).registrationsInflight ≤ 0) := by
  cases h with
  | procFree q c rest => exact .inl ((closes_nextCache rest).symm.trans hb)
  | procKeep q c rest => exact .inl ((closes_nextCache rest).symm.trans hb)
  | _ =>
      first
      | exact .inl hb
      | cases hb; done
      | simp_all [CacheSpot.closes, CacheSpot.destroys]

theorem Goes.drains (h : Goes s t a b e) (p : ℕ) (hb : b.drains = some p) :
    a.drains = some p ∨ (a.closes = some p ∧ (s.pools p).activeUsers ≤ 0) := by
  cases h with
  | procFree q c rest => exact .inl ((drains_nextCache rest).symm.trans hb)
  | procKeep q c rest => exact .inl ((drains_nextCache rest).symm.trans hb)
  | _ =>
      first
      | exact .inl hb
      | cases hb; done
      | simp_all [CacheSpot.closes, CacheSpot.drains]

end goes

/-- How a thread comes to the spots that the gates are about. -/
structure Passes (s : CacheState T) (t : T) (x : CacheSpot) (e : CacheEffect) : Prop where
  destroys : ∀ p, x.destroys = some p →
    (s.threads t).spot.destroys = some p ∨ e = .markDestroyed p
  registers : ∀ p, x.registers = some p →
    (s.threads t).spot.registers = some p ∨ (s.pools p).destroyed = false
  uses : ∀ p, x.uses = some p →
    (s.threads t).spot.uses = some p ∨ (s.pools p).destroyed = false
  closes : ∀ p, x.closes = some p → (s.threads t).spot.closes = some p ∨
    ((s.threads t).spot.destroys = some p ∧ (s.pools p).registrationsInflight ≤ 0)
  drains : ∀ p, x.drains = some p → (s.threads t).spot.drains = some p ∨
    ((s.threads t).spot.closes = some p ∧ (s.pools p).activeUsers ≤ 0)
  shards : ∀ p, e = .destroyShards p → (s.threads t).spot.drains = some p

/-- A step to where nothing is held. -/
theorem Passes.of_none {y : CacheSpot} (hdestroys : y.destroys = none)
    (hregisters : y.registers = none) (huses : y.uses = none) (he : ∀ p, e ≠ .destroyShards p) :
    Passes s t y e where
  destroys p h := absurd (hdestroys.symm.trans h) (Option.some_ne_none p).symm
  registers p h := absurd (hregisters.symm.trans h) (Option.some_ne_none p).symm
  uses p h := absurd (huses.symm.trans h) (Option.some_ne_none p).symm
  closes p h := absurd (hdestroys.symm.trans (CacheSpot.destroys_of_closes h))
    (Option.some_ne_none p).symm
  drains p h := absurd
    (hdestroys.symm.trans (CacheSpot.destroys_of_closes (CacheSpot.closes_of_drains h)))
    (Option.some_ne_none p).symm
  shards p h := absurd h (he p)

theorem Goes.passes {b : CacheSpot} (h : Goes s t (s.threads t).spot b e) : Passes s t b e where
  destroys := h.destroys
  registers := h.registers
  uses := h.uses
  closes := h.closes
  drains := h.drains
  shards p he := by
    subst he
    generalize (s.threads t).spot = a at h
    cases h
    rfl

theorem Move.passes (h : Move s t x e) : Passes s t x.spot e := by
  cases h with
  | go hspot h =>
      subst hspot
      exact h.passes
  | slowGone p cache hspot => exact .of_none rfl rfl rfl fun p he => by cases he
  | freeOrphan p c hspot =>
      rw [spot_dropCache]
      exact .of_none rfl rfl rfl fun p he => by cases he
  | leaveExit p c q hspot =>
      rw [spot_dropCache]
      exact .of_none rfl rfl rfl fun p he => by cases he
  | regBail p hspot => exact .of_none rfl rfl rfl fun p he => by cases he
  | regDone p c late hspot =>
      rw [spot_setKey]
      exact .of_none rfl rfl rfl fun p he => by cases he
  | exit hspot hkey => exact .of_none rfl rfl rfl fun p he => by cases he
  | exitCache c hspot hkey => exact .of_none rfl rfl rfl fun p he => by cases he
  | procOwn p c rest exited hspot hown =>
      -- the same spots as where the cache is another thread's
      rw [spot_setKey]
      refine ⟨fun q hq => .inl ?_, fun q hq => .inl ?_, fun q hq => .inl ?_, fun q hq => .inl ?_,
        fun q hq => .inl ?_, fun q he => by cases he⟩ <;> rw [hspot]
      · exact (destroys_nextCache rest).symm.trans hq
      · exact (registers_nextCache rest).symm.trans hq
      · exact (uses_nextCache rest).symm.trans hq
      · exact (closes_nextCache rest).symm.trans hq
      · exact (drains_nextCache rest).symm.trans hq

variable [DecidableEq T]

theorem threads_after (u : T) :
    (s.after t x e).threads u = if u = t then x else s.threads u := Function.update_apply _ _ _ _

theorem destroyed_after : ((s.after t x e).pools p).destroyed = true ↔
    (s.pools p).destroyed = true ∨ e = .markDestroyed p := destroyed_apply p

/-- **The gates hold in every step.** A thread that passes a gate finds nobody behind it, since the
counter counts everybody there; and nobody comes, since the pool is destroyed. -/
theorem Gates.after [Fintype T] (h : Gates s) (hcount : Counted s) (hmove : Move s t x e) :
    Gates (s.after t x e) := by
  have hpass := hmove.passes
  -- whoever may be inside, is there already or comes while the pool is alive
  have hregisters : ∀ u p, (s.pools p).destroyed = true →
      ((s.after t x e).threads u).spot.registers = some p →
      (s.threads u).spot.registers = some p := by
    intro u p hd hu
    rw [threads_after] at hu
    split_ifs at hu with heq
    · subst heq
      exact (hpass.registers p hu).resolve_right (by simp [hd])
    · exact hu
  have huses : ∀ u p, (s.pools p).destroyed = true →
      ((s.after t x e).threads u).spot.uses = some p → (s.threads u).spot.uses = some p := by
    intro u p hd hu
    rw [threads_after] at hu
    split_ifs at hu with heq
    · subst heq
      exact (hpass.uses p hu).resolve_right (by simp [hd])
    · exact hu
  constructor
  · intro u p hu
    rw [destroyed_after]
    rw [threads_after] at hu
    split_ifs at hu with heq
    · subst heq
      exact (hpass.destroys p hu).imp_left (h.destroyed u p)
    · exact .inl (h.destroyed u p hu)
  · intro u p hu v hv
    rw [threads_after] at hu
    split_ifs at hu with heq
    · subst heq
      rcases hpass.closes p hu with hold | ⟨hold, hnone⟩
      · have hdestroyed := h.destroyed u p (CacheSpot.destroys_of_closes hold)
        exact h.closed u p hold v (hregisters v p hdestroyed hv)
      · have hv' := hregisters v p (h.destroyed u p hold) hv
        exact ne_of_tally_le ((hcount.registrations p).symm.trans_le hnone) v
          (CacheSpot.registration_of_registers hv')
    · exact h.closed u p hu v
        (hregisters v p (h.destroyed u p (CacheSpot.destroys_of_closes hu)) hv)
  · intro u p hu v hv
    have hd : ∀ w, (s.threads w).spot.closes = some p → (s.pools p).destroyed = true :=
      fun w hw => h.destroyed w p (CacheSpot.destroys_of_closes hw)
    rw [threads_after] at hu
    split_ifs at hu with heq
    · subst heq
      rcases hpass.drains p hu with hold | ⟨hold, hnone⟩
      · exact h.drained u p hold v (huses v p (hd u (CacheSpot.closes_of_drains hold)) hv)
      · exact ne_of_tally_le ((hcount.users p).symm.trans_le hnone) v
          (CacheSpot.user_of_uses (huses v p (hd u hold) hv))
    · exact h.drained u p hu v (huses v p (hd u (CacheSpot.closes_of_drains hu)) hv)
  · intro p hp
    have hgone : (s.pools p).destroyed = true ∧
        ∀ u, (s.threads u).spot.registers ≠ some p ∧ (s.threads u).spot.uses ≠ some p := by
      rcases shards_apply p |>.1 hp with hold | he
      · exact h.gone p hold
      · have hdrain := hpass.shards p he
        have hclose := CacheSpot.closes_of_drains hdrain
        exact ⟨h.destroyed t p (CacheSpot.destroys_of_closes hclose),
          fun u => ⟨h.closed t p hclose u, h.drained t p hdrain u⟩⟩
    refine ⟨destroyed_after.2 (.inl hgone.1), fun u => ⟨fun hu => ?_, fun hu => ?_⟩⟩
    · exact (hgone.2 u).1 (hregisters u p hgone.1 hu)
    · exact (hgone.2 u).2 (huses u p hgone.1 hu)

/-- **In every reachable state** the counters are right and the gates hold. -/
theorem gates_of_reachable [Fintype T] (h : Reachable (cacheSystem T) s) : Counted s ∧ Gates s := by
  refine Reachable.invariant (I := fun s => Counted s ∧ Gates s) ?_ ?_ h
  · rintro s rfl
    refine ⟨⟨fun p => ?_, fun p => ?_⟩, ?_, ?_, ?_, ?_⟩
    all_goals simp [tally, CacheSpot.registration, CacheSpot.user, CacheSpot.destroys,
      CacheSpot.closes, CacheSpot.drains]
  · rintro s ⟨t, op⟩ s' ⟨hcount, hgates⟩ hstep
    obtain ⟨x, e, hmove, rfl⟩ := move_of_step hstep
    exact ⟨hcount.after hmove, hgates.after hcount hmove⟩

end CacheState

end Aura
