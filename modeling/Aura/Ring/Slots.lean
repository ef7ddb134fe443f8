import Aura.Ring.State

/-!
# Request slots

`ring_get_request` and `ring_put_request` (`adaptive_ring.c`): the only two functions that touch
the free stack. Taking a slot resets the fields that differ between operations and clears
`in_pool`; returning one is a no-op (with a log line) for an index that is out of range, already in
the pool, or still pending.
-/

namespace Aura

/-- What `ring_get_request` writes into the slot it hands out. The fields every caller sets
itself (`fd`, `callback`, `user_data`, `ring_idx`, `submit_time_ns`, `op_type`) keep their old
values, and `op_idx` never changes. -/
def Request.reset (q : Request) : Request :=
  { q with
    offset := 0, buffer := none, len := 0, bufIndex := 0, iovcnt := 0, bufOffset := 0, iov := none,
    usesRegisteredBuffer := false, usesRegisteredFile := false, originalFd := -1,
    inPool := false, linked := false, pending := false }

/-- The bookkeeping fields of a slot agree. -/
def Request.SameSlot (q q' : Request) : Prop :=
  q'.opIdx = q.opIdx ∧ q'.pending = q.pending ∧ q'.inPool = q.inPool

/-- `ring_get_request`: pop the free stack. -/
def ringGetRequest (r : RingCtx) : Option (ℕ × RingCtx) :=
  match r.freeRequestStack with
  | [] => none
  | idx :: rest =>
      some (idx, ({ r with freeRequestStack := rest }).setRequest idx (r.requests idx).reset)

/-- `ring_put_request`: push the slot back, unless one of its three guards refuses. -/
def ringPutRequest (r : RingCtx) (opIdx : ℕ) : RingCtx :=
  if r.maxRequests ≤ opIdx then r
  else if (r.requests opIdx).inPool then r
  else if (r.requests opIdx).pending then r
  else
    ({ r with freeRequestStack := opIdx :: r.freeRequestStack }).setRequest opIdx
      { r.requests opIdx with inPool := true }

variable {r r' : RingCtx} {i j : ℕ}

/-- What a successful `ring_get_request` does. -/
theorem ringGetRequest_eq_some :
    ringGetRequest r = some (i, r') ↔
      ∃ rest, r.freeRequestStack = i :: rest ∧
        r' = ({ r with freeRequestStack := rest }).setRequest i (r.requests i).reset := by
  unfold ringGetRequest
  split
  · simp_all
  · next idx rest h =>
      simp only [Option.some.injEq, Prod.mk.injEq, h, List.cons.injEq]
      constructor
      · rintro ⟨rfl, rfl⟩
        exact ⟨rest, ⟨rfl, rfl⟩, rfl⟩
      · rintro ⟨rest', ⟨rfl, rfl⟩, rfl⟩
        exact ⟨rfl, rfl⟩

/-- `ring_get_request` fails exactly on an empty stack. -/
theorem ringGetRequest_eq_none : ringGetRequest r = none ↔ r.freeRequestStack = [] := by
  unfold ringGetRequest
  split <;> simp_all

/-- A slot that is in range, out of the pool and idle goes back on the stack. -/
theorem ringPutRequest_of_idle (hlt : i < r.maxRequests) (hpool : (r.requests i).inPool = false)
    (hpend : (r.requests i).pending = false) :
    ringPutRequest r i = ({ r with freeRequestStack := i :: r.freeRequestStack }).setRequest i
      { r.requests i with inPool := true } := by
  unfold ringPutRequest
  rw [if_neg (by omega), if_neg (by simp [hpool]), if_neg (by simp [hpend])]

/-- Each guard of `ring_put_request` leaves the ring alone. -/
theorem ringPutRequest_of_guard
    (h : r.maxRequests ≤ i ∨ (r.requests i).inPool = true ∨ (r.requests i).pending = true) :
    ringPutRequest r i = r := by
  unfold ringPutRequest
  split
  · rfl
  · split
    · rfl
    · split
      · rfl
      · simp_all

/-- `ring_put_request` touches nothing but the free stack and the slot. -/
theorem ringPutRequest_eq (r : RingCtx) (i : ℕ) :
    ∃ stack reqs, ringPutRequest r i = { r with freeRequestStack := stack, requests := reqs } := by
  unfold ringPutRequest
  split_ifs
  · exact ⟨r.freeRequestStack, r.requests, rfl⟩
  · exact ⟨r.freeRequestStack, r.requests, rfl⟩
  · exact ⟨r.freeRequestStack, r.requests, rfl⟩
  · exact ⟨_, _, rfl⟩

/-- Taking a slot and returning it unused restores the set of free slots. -/
theorem ringPutRequest_get_freeRequestStack (hget : ringGetRequest r = some (i, r'))
    (hlt : i < r.maxRequests) :
    (ringPutRequest r' i).freeRequestStack = r.freeRequestStack := by
  obtain ⟨rest, hstack, rfl⟩ := ringGetRequest_eq_some.mp hget
  rw [ringPutRequest_of_idle (by simpa [RingCtx.setRequest] using hlt) (by simp [Request.reset])
    (by simp [Request.reset])]
  simp [RingCtx.setRequest, hstack]

end Aura
