import Aura.Engine.Pinned
import Mathlib.Algebra.BigOperators.Group.Finset.Piecewise
import Mathlib.Algebra.Order.BigOperators.Group.Finset

/-!
# The books of a ring

Each ring counts its requests that use registered buffers (`fixed_buf_inflight`) and those that use
registered files (`fixed_file_inflight`).

* `RingCtx.pendingUses` — how many pending requests of a ring use a kind of table.
* `RingCtx.Booked` — the two counters are these numbers, and the free slots are idle.
* `RingCtx.SameBooks`, `RingCtx.Settles` — what flushes, locks and the kernel leave alone, and what
  completions do to the books.
* `Booked.submit` — a submission that counts its request keeps the books.
-/

namespace Aura

open Lib Lib.Prog

/-! ## Requests and tables -/

/-- The request depends on the lifetime of a registered table. -/
def Request.uses (q : Request) : RegType → Bool
  | .buffers => q.usesRegisteredBuffer
  | .files => q.usesRegisteredFile

/-- One for a pending request that uses the table. -/
def Request.stake (q : Request) (type : RegType) : ℕ := (q.pending && q.uses type).toNat

theorem Request.stake_of_idle {q : Request} (h : q.pending = false) (type : RegType) :
    q.stake type = 0 := by
  simp [stake, h]

/-- What a ring counts for a kind of table: `fixed_buf_inflight` or `fixed_file_inflight`. -/
def RingCtx.inflight (r : RingCtx) : RegType → UInt32
  | .buffers => r.fixedBufInflight
  | .files => r.fixedFileInflight

/-- The number of pending requests of a ring that use the table. -/
def RingCtx.pendingUses (r : RingCtx) (type : RegType) : ℕ :=
  ∑ j ∈ Finset.range r.maxRequests, (r.requests j).stake type

namespace RingCtx

variable {r r' r'' : RingCtx} {j : ℕ} {q : Request} {type : RegType}

/-- A slot is rewritten. -/
theorem pendingUses_update (r r' : RingCtx) (type : RegType) (hmax : r'.maxRequests = r.maxRequests)
    (hreq : r'.requests = Function.update r.requests j q) (hj : j < r.maxRequests) :
    r'.pendingUses type + (r.requests j).stake type = r.pendingUses type + q.stake type := by
  have hmem : j ∈ Finset.range r.maxRequests := Finset.mem_range.2 hj
  have hnew : r'.pendingUses type = ∑ k ∈ Finset.range r.maxRequests,
      Function.update (fun k => (r.requests k).stake type) j (q.stake type) k := by
    rw [pendingUses, hmax, hreq]
    refine Finset.sum_congr rfl fun k _ => ?_
    by_cases hk : k = j
    · subst hk
      simp
    · simp [hk]
  rw [hnew, Finset.sum_update_of_mem hmem, pendingUses, ← Finset.sum_sdiff
    (Finset.singleton_subset_iff.2 hmem), Finset.sum_singleton]
  omega

/-- Slots outside the ring are not counted. -/
theorem pendingUses_update_of_ge (r r' : RingCtx) (type : RegType)
    (hmax : r'.maxRequests = r.maxRequests)
    (hreq : r'.requests = Function.update r.requests j q) (hj : r.maxRequests ≤ j) :
    r'.pendingUses type = r.pendingUses type := by
  rw [pendingUses, pendingUses, hmax, hreq]
  refine Finset.sum_congr rfl fun k hk => ?_
  have hne : k ≠ j := by
    have hlt := Finset.mem_range.1 hk
    omega
  rw [Function.update_of_ne hne]

theorem pendingUses_le (r : RingCtx) (type : RegType) : r.pendingUses type ≤ r.maxRequests := by
  have hone : ∀ j ∈ Finset.range r.maxRequests, (r.requests j).stake type ≤ 1 := by
    intro j _
    exact Bool.toNat_le _
  simpa [pendingUses] using Finset.sum_le_sum hone

/-! ## The books -/

/-- **The books of a ring.** -/
structure Booked (r : RingCtx) : Prop where
  nodup : r.freeRequestStack.Nodup
  free : ∀ j ∈ r.freeRequestStack, j < r.maxRequests ∧ (r.requests j).inPool = true ∧
    (r.requests j).pending = false
  range : ∀ j, r.maxRequests ≤ j → (r.requests j).pending = false
  inflight : ∀ type, r.inflight type = UInt32.ofNat (r.pendingUses type)

/-- Nothing that is in the books has changed. -/
structure SameBooks (r r' : RingCtx) : Prop where
  requests : r'.requests = r.requests
  stack : r'.freeRequestStack = r.freeRequestStack
  max : r'.maxRequests = r.maxRequests
  inflight : r'.inflight = r.inflight

namespace SameBooks

theorem refl (r : RingCtx) : r.SameBooks r := ⟨rfl, rfl, rfl, rfl⟩

theorem trans (h : r.SameBooks r') (h' : r'.SameBooks r'') : r.SameBooks r'' :=
  ⟨h'.requests.trans h.requests, h'.stack.trans h.stack, h'.max.trans h.max,
    h'.inflight.trans h.inflight⟩

theorem pendingUses (h : r.SameBooks r') (type : RegType) :
    r'.pendingUses type = r.pendingUses type := by
  rw [RingCtx.pendingUses, RingCtx.pendingUses, h.max, h.requests]

theorem booked (h : r.SameBooks r') (hr : r.Booked) : r'.Booked where
  nodup := by rw [h.stack]; exact hr.nodup
  free := by rw [h.stack, h.max, h.requests]; exact hr.free
  range := by rw [h.max, h.requests]; exact hr.range
  inflight type := by rw [h.inflight, h.pendingUses, hr.inflight]

theorem of_quiet (h : RingQuiet r r') : r.SameBooks r' := by
  cases h with
  | post k res =>
      unfold RingCtx.kernelPost
      split
      · exact .refl r
      · exact ⟨rfl, rfl, rfl, rfl⟩
  | _ => exact ⟨rfl, rfl, rfl, rfl⟩

theorem lock {st : Bool} (h : r.lock = some (st, r')) : r.SameBooks r' := by
  rcases RingCtx.lock_eq_some.mp h with ⟨-, -, rfl⟩ | ⟨-, -, -, rfl⟩
  · exact ⟨rfl, rfl, rfl, rfl⟩
  · exact ⟨rfl, rfl, rfl, rfl⟩

theorem unlock (r : RingCtx) (st : Bool) : r.SameBooks (r.unlock st) := by
  cases st with
  | true => exact ⟨rfl, rfl, rfl, rfl⟩
  | false => exact ⟨rfl, rfl, rfl, rfl⟩

theorem cqLock {st : Bool} (h : r.cqLock = some (st, r')) : r.SameBooks r' := by
  unfold RingCtx.cqLock at h
  split_ifs at h with h₁ h₂
  · cases h
    exact ⟨rfl, rfl, rfl, rfl⟩
  · cases h
    exact ⟨rfl, rfl, rfl, rfl⟩

theorem cqUnlock (r : RingCtx) (st : Bool) : r.SameBooks (r.cqUnlock st) := by
  cases st with
  | true => exact ⟨rfl, rfl, rfl, rfl⟩
  | false => exact ⟨rfl, rfl, rfl, rfl⟩

theorem accept (r : RingCtx) (k : ℕ) : r.SameBooks (r.kernelAccept k) := ⟨rfl, rfl, rfl, rfl⟩

theorem reap (r : RingCtx) : r.SameBooks r.cqeSeen := ⟨rfl, rfl, rfl, rfl⟩

end SameBooks

/-! ## Slots -/

/-- A slot that is neither free nor pending. -/
structure Held (r : RingCtx) (j : ℕ) : Prop where
  lt : j < r.maxRequests
  inPool : (r.requests j).inPool = false
  pending : (r.requests j).pending = false

/-- An idle slot is rewritten, and perhaps its request is submitted and counted. -/
theorem Booked.write (r' : RingCtx) (h : r.Booked) (hheld : r.Held j)
    (hreq : r'.requests = Function.update r.requests j q) (hstack : r'.freeRequestStack =
      r.freeRequestStack) (hmax : r'.maxRequests = r.maxRequests)
    (hcount : ∀ type, r'.inflight type = r.inflight type + UInt32.ofNat (q.stake type)) :
    r'.Booked ∧ ∀ type, r'.pendingUses type = r.pendingUses type + q.stake type := by
  have hnot : ∀ k ∈ r.freeRequestStack, k ≠ j := by
    rintro k hk rfl
    exact absurd (hheld.inPool.symm.trans (h.free k hk).2.1) Bool.false_ne_true
  have huses : ∀ type, r'.pendingUses type = r.pendingUses type + q.stake type := by
    intro type
    have hupdate := pendingUses_update r r' type hmax hreq hheld.lt
    rwa [Request.stake_of_idle hheld.pending, Nat.add_zero] at hupdate
  refine ⟨⟨?_, fun k hk => ?_, fun k hk => ?_, fun type => ?_⟩, huses⟩
  · rw [hstack]
    exact h.nodup
  · rw [hstack] at hk
    rw [hmax, hreq, Function.update_of_ne (hnot k hk)]
    exact h.free k hk
  · rw [hmax] at hk
    have hne : k ≠ j := by
      have hlt := hheld.lt
      omega
    rw [hreq, Function.update_of_ne hne]
    exact h.range k hk
  · rw [hcount, huses, h.inflight]
    exact (UInt32.ofNat_add _ _).symm

/-- `ring_get_request` hands out an idle slot whose request uses no table. -/
theorem Booked.get (h : r.Booked) (hget : ringGetRequest r = some (j, r')) :
    r'.Booked ∧ r'.Held j ∧ r'.maxRequests = r.maxRequests ∧
      (∀ type, r'.pendingUses type = r.pendingUses type) ∧
      ∀ type, (r'.requests j).uses type = false := by
  obtain ⟨rest, hstack, rfl⟩ := ringGetRequest_eq_some.mp hget
  obtain ⟨hlt, -, hpend⟩ := h.free j (hstack ▸ List.mem_cons_self)
  have hnodup := h.nodup
  rw [hstack, List.nodup_cons] at hnodup
  obtain ⟨hnot, hnodup⟩ := hnodup
  have huses : ∀ type, RingCtx.pendingUses
      (({ r with freeRequestStack := rest }).setRequest j (r.requests j).reset) type =
      r.pendingUses type := by
    intro type
    have hupdate := pendingUses_update r
      (({ r with freeRequestStack := rest }).setRequest j (r.requests j).reset) type rfl rfl hlt
    rwa [Request.stake_of_idle hpend, Request.stake_of_idle (q := (r.requests j).reset) rfl,
      Nat.add_zero, Nat.add_zero] at hupdate
  have hself : (({ r with freeRequestStack := rest }).setRequest j
      (r.requests j).reset).requests j = (r.requests j).reset := setRequest_self _ _ _
  refine ⟨⟨hnodup, fun k hk => ?_, fun k hk => ?_, fun type => ?_⟩, ⟨hlt, ?_, ?_⟩, rfl, huses, ?_⟩
  · have hne : k ≠ j := fun heq => hnot (heq ▸ hk)
    rw [setRequest_of_ne _ _ _ hne]
    exact h.free k (hstack ▸ List.mem_cons_of_mem j hk)
  · have hne : k ≠ j := fun heq => absurd hlt (not_lt.2 (heq ▸ hk))
    rw [setRequest_of_ne _ _ _ hne]
    exact h.range k hk
  · rw [huses, ← h.inflight]
    cases type <;> rfl
  · rw [hself]
    rfl
  · rw [hself]
    rfl
  · intro type
    rw [hself]
    cases type <;> rfl

/-! ## Completions -/

/-- What completions do to the books: they are kept, and no request is added. -/
structure Settles (r r' : RingCtx) : Prop where
  max : r'.maxRequests = r.maxRequests
  booked : r.Booked → r'.Booked
  fewer : r.Booked → ∀ type, r'.pendingUses type ≤ r.pendingUses type

namespace Settles

theorem refl (r : RingCtx) : r.Settles r := ⟨rfl, id, fun _ _ => le_rfl⟩

theorem trans (h : r.Settles r') (h' : r'.Settles r'') : r.Settles r'' :=
  ⟨h'.max.trans h.max, h'.booked ∘ h.booked,
    fun hr type => (h'.fewer (h.booked hr) type).trans (h.fewer hr type)⟩

theorem of_same (h : r.SameBooks r') : r.Settles r' :=
  ⟨h.max, h.booked, fun _ type => (h.pendingUses type).le⟩

theorem get (hget : ringGetRequest r = some (j, r')) : r.Settles r' := by
  obtain ⟨rest, -, heq⟩ := ringGetRequest_eq_some.mp hget
  refine ⟨by rw [heq]; rfl, fun h => (h.get hget).1, fun h type => ?_⟩
  exact ((h.get hget).2.2.2.1 type).le

/-- `ring_put_request`. -/
theorem put (r : RingCtx) (j : ℕ) : r.Settles (ringPutRequest r j) := by
  unfold ringPutRequest
  split_ifs with hlt hpool hpend
  · exact .refl r
  · exact .refl r
  · exact .refl r
  rw [not_le] at hlt
  rw [Bool.not_eq_true] at hpool hpend
  set r' := ({ r with freeRequestStack := j :: r.freeRequestStack }).setRequest j
    { r.requests j with inPool := true } with hr'
  have huses : ∀ type, r'.pendingUses type = r.pendingUses type := by
    intro type
    have hupdate := pendingUses_update r r' type rfl rfl hlt
    have hstake : Request.stake { r.requests j with inPool := true } type =
        (r.requests j).stake type := by
      cases type <;> rfl
    omega
  refine ⟨rfl, fun h => ⟨?_, fun k hk => ?_, fun k hk => ?_, fun type => ?_⟩,
    fun _ type => (huses type).le⟩
  · refine List.nodup_cons.2 ⟨fun hmem => ?_, h.nodup⟩
    exact absurd (hpool.symm.trans (h.free j hmem).2.1) Bool.false_ne_true
  · by_cases hkj : k = j
    · subst hkj
      rw [hr', setRequest_self]
      exact ⟨hlt, rfl, hpend⟩
    · rw [hr', setRequest_of_ne _ _ _ hkj]
      exact h.free k ((List.mem_cons.1 hk).resolve_left hkj)
  · have hne : k ≠ j := fun heq => absurd hlt (not_lt.2 (heq ▸ hk))
    rw [hr', setRequest_of_ne _ _ _ hne]
    exact h.range k hk
  · rw [huses, ← h.inflight]
    cases type <;> rfl

/-- The counters of completed operations are in no book. -/
theorem retireEntry (r : RingCtx) (e : RetireEntry) : r.Settles (Aura.retireEntry r e) := by
  unfold Aura.retireEntry
  cases e.opIdx with
  | none => exact .refl r
  | some i =>
      have hcount : r.SameBooks (countCompleted r e) := by
        obtain ⟨ops, bytes, heq⟩ := countCompleted_eq r e
        rw [heq]
        exact ⟨rfl, rfl, rfl, rfl⟩
      exact (of_same hcount).trans (put _ i)

/-- `ring_retire_batch`. -/
theorem retireBatch (r : RingCtx) (es : List RetireEntry) : r.Settles (ringRetireBatch r es) := by
  have hfold : ∀ r : RingCtx, r.Settles (es.foldl Aura.retireEntry r) := by
    induction es with
    | nil => exact fun r => .refl r
    | cons e es ih => exact fun r => (retireEntry r e).trans (ih _)
  exact (hfold r).trans (of_same ⟨rfl, rfl, rfl, rfl⟩)

/-- The inline retirement of the fast drain. -/
theorem retireInline (r : RingCtx) (e : RetireEntry) : r.Settles (ringRetireInline r e) := by
  rw [ringRetireInline_eq_batch]
  exact retireBatch r [e]

/-- `process_completion` takes the request off the books. -/
theorem process (r : RingCtx) (now : ℤ) (req : Option ℕ) (res : ℤ) :
    r.Settles (processCompletion now r req res).2.2 := by
  cases req with
  | none => exact .refl r
  | some i =>
      cases hpend : (r.requests i).pending with
      | false =>
          rw [processCompletion_of_not_pending hpend]
          exact .refl r
      | true =>
          rw [processCompletion_of_pending hpend]
          dsimp only
          set r' := RingCtx.setRequest _ i { r.requests i with pending := false } with hr'
          have hstake : ∀ type, Request.stake { r.requests i with pending := false } type = 0 :=
            fun type => Request.stake_of_idle rfl type
          by_cases hi : i < r.maxRequests
          · have huses : ∀ type,
                r'.pendingUses type + (r.requests i).stake type = r.pendingUses type := by
              intro type
              have hupdate := pendingUses_update r r' type rfl rfl hi
              rwa [hstake, Nat.add_zero] at hupdate
            refine ⟨rfl, fun h => ⟨h.nodup, fun k hk => ?_, fun k hk => ?_, fun type => ?_⟩,
              fun _ type => ?_⟩
            · have hne : k ≠ i := by
                rintro rfl
                exact absurd ((h.free k hk).2.2.symm.trans hpend) Bool.false_ne_true
              rw [hr', setRequest_of_ne _ _ _ hne]
              exact h.free k hk
            · have hne : k ≠ i := fun heq => absurd hi (not_lt.2 (heq ▸ hk))
              rw [hr', setRequest_of_ne _ _ _ hne]
              exact h.range k hk
            · have hold := h.inflight type
              rw [← huses type, UInt32.ofNat_add] at hold
              have hnew : r'.inflight type =
                  r.inflight type - UInt32.ofNat ((r.requests i).stake type) := by
                rw [Request.stake, hpend, Bool.true_and]
                cases type with
                | buffers => cases hu : (r.requests i).usesRegisteredBuffer <;>
                    simp [hr', RingCtx.inflight, RingCtx.setRequest, Request.uses, hu]
                | files => cases hu : (r.requests i).usesRegisteredFile <;>
                    simp [hr', RingCtx.inflight, RingCtx.setRequest, Request.uses, hu]
              rw [hnew, hold, UInt32.add_sub_cancel]
            · have hle := huses type
              omega
          · -- a slot outside the ring is never pending
            rw [not_lt] at hi
            refine ⟨rfl, fun h => ?_, fun _ type => ?_⟩
            · exact absurd ((h.range i hi).symm.trans hpend) Bool.false_ne_true
            · exact (pendingUses_update_of_ge r r' type rfl rfl hi).le

end Settles

end RingCtx

end Aura
