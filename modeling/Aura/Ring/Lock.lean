import Aura.Ring.State

/-!
# The two representations of the ring locks

`ring_lock`, `ring_trylock`, `ring_unlock` and their `cq_lock` counterparts (`adaptive_ring.h`), as
functions of the ring taken in one step. A ring with its `single_thread` flag set counts the
threads inside (`st_users`, `st_cq_users`); any other uses the mutex. Callers keep the flag that
`ring_lock` returned and hand it back to `ring_unlock`, which releases by it.

Taken in one step the re-check of the flag after the increment cannot fail.
-/

namespace Aura

namespace RingCtx

/-- `ring_lock`: `none` while the mutex is held; the returned flag is `true` for the counter. -/
def lock (r : RingCtx) : Option (Bool × RingCtx) :=
  if r.singleThread then some (true, { r with stUsers := r.stUsers + 1 })
  else if r.lockHeld then none
  else some (false, { r with lockHeld := true })

/-- `ring_trylock`: `none` when the mutex is held. -/
def trylock (r : RingCtx) : Option (Bool × RingCtx) := r.lock

/-- `ring_unlock`. -/
def unlock (st : Bool) (r : RingCtx) : RingCtx :=
  if st then { r with stUsers := r.stUsers - 1 } else { r with lockHeld := false }

/-- `ring_cq_lock`. -/
def cqLock (r : RingCtx) : Option (Bool × RingCtx) :=
  if r.singleThread then some (true, { r with stCqUsers := r.stCqUsers + 1 })
  else if r.cqLockHeld then none
  else some (false, { r with cqLockHeld := true })

/-- `ring_cq_unlock`. -/
def cqUnlock (st : Bool) (r : RingCtx) : RingCtx :=
  if st then { r with stCqUsers := r.stCqUsers - 1 } else { r with cqLockHeld := false }

variable {r r' : RingCtx} {st : Bool}

/-- The three ways `ring_lock` can go. -/
theorem lock_eq_some :
    r.lock = some (st, r') ↔
      (r.singleThread = true ∧ st = true ∧ r' = { r with stUsers := r.stUsers + 1 }) ∨
      (r.singleThread = false ∧ r.lockHeld = false ∧ st = false ∧
        r' = { r with lockHeld := true }) := by
  unfold lock
  by_cases hs : r.singleThread = true
  · rw [if_pos hs, Option.some.injEq, Prod.mk.injEq]
    constructor
    · rintro ⟨rfl, rfl⟩
      exact Or.inl ⟨hs, rfl, rfl⟩
    · rintro (⟨-, rfl, rfl⟩ | ⟨hs', -⟩)
      · exact ⟨rfl, rfl⟩
      · rw [hs] at hs'
        cases hs'
  · rw [if_neg hs]
    by_cases hl : r.lockHeld = true
    · simp [hs, hl]
    · rw [if_neg hl, Option.some.injEq, Prod.mk.injEq]
      constructor
      · rintro ⟨rfl, rfl⟩
        exact Or.inr ⟨by simpa using hs, by simpa using hl, rfl, rfl⟩
      · rintro (⟨hs', -⟩ | ⟨-, -, rfl, rfl⟩)
        · exact absurd hs' hs
        · exact ⟨rfl, rfl⟩

/-- Releasing what was just acquired restores the ring. -/
theorem unlock_lock (h : r.lock = some (st, r')) : r'.unlock st = r := by
  rcases lock_eq_some.mp h with ⟨-, rfl, rfl⟩ | ⟨-, hl, rfl, rfl⟩
  · simp [unlock]
  · simp [unlock, ← hl]

end RingCtx

end Aura
