import Aura.Ring.Fast
import Aura.Ring.Lifecycle

/-!
# Queued entries

`queued_sqes` counts the entries that are prepared and that the kernel has not accepted. Every
`ring_submit_*` function raises it and the two flushes lower it, whatever the kernel answers.

* `queueStep` — the slot machine with its flushes spelled out: the flush that is called, and the
  answer of `io_uring_submit`.
* `queue_accounts` — in every state of every run the counter is the length of the submission queue,
  at most `pending_count`, and a request that holds a slot finds an entry. -/

namespace Aura

open Lib

/-! ## Flushes as steps -/

/-- The ring after a flush: `fast` tells the two apart. -/
def flushRing (fast : Bool) (spurious : ℕ) (answer : ℤ) (r : RingCtx) : RingCtx :=
  if fast then (FlushState.flushFast { ring := r } answer).2.ring
  else (FlushState.flush { ring := r } answer spurious).2.ring

/-- The labels: those of the slot machine, and flushes. -/
inductive QueueAction
  | slot (a : SlotAction)
  | flush (fast : Bool) (spurious : ℕ) (answer : ℤ)

/-- The step that stands for a flush in the slot machine. -/
def SlotAction.isAccept : SlotAction → Bool
  | .accept _ => true
  | _ => false

/-- One step. A submit fails, or the kernel accepts at most what is prepared. -/
def queueStep (s : SlotState) : QueueAction → Option SlotState
  | .slot a => if a.isAccept then none else slotStep s a
  | .flush fast spurious answer =>
      if answer ≤ s.ring.sq.length then
        some { s with ring := flushRing fast spurious answer s.ring }
      else none

/-- The slot machine of a ring with `queueDepth` slots, with its flushes spelled out. -/
def queueSystem (queueDepth : ℕ) : System SlotState QueueAction :=
  System.ofFn (slotSystem queueDepth).init queueStep

variable {r r' : RingCtx} {s s' : SlotState} {n i : ℕ}

/-- **The counter is right**: it is the number of entries in the submission queue. -/
def RingCtx.Counted (r : RingCtx) : Prop := r.queuedSqes = r.sq.length

/-- A failing submit leaves the queue as it is. -/
theorem kernelAccept_of_neg {answer : ℤ} (h : answer < 0) : r.kernelAccept answer.toNat = r := by
  have hzero : answer.toNat = 0 := Int.toNat_of_nonpos h.le
  rw [hzero]
  simp [RingCtx.kernelAccept]

/-- What `ring_flush_fast` does: nothing, or it accounts for what the kernel accepts. -/
theorem flushFast_ring (answer : ℤ) : (FlushState.flushFast { ring := r } answer).2.ring = r ∨
    0 ≤ answer ∧ (FlushState.flushFast { ring := r } answer).2.ring =
      (r.kernelAccept answer.toNat).accountSubmit answer := by
  unfold FlushState.flushFast FlushState.ioUringSubmit FlushState.onRing
  dsimp only
  by_cases hqueued : r.queuedSqes = 0
  · rw [if_pos hqueued]
    exact Or.inl rfl
  · rw [if_neg hqueued]
    by_cases herr : answer < 0
    · rw [if_pos herr]
      exact Or.inl (kernelAccept_of_neg herr)
    · rw [if_neg herr]
      refine Or.inr ⟨not_lt.mp herr, ?_⟩
      unfold RingCtx.accountSubmit
      by_cases hpos : answer > 0
      · have hsub (queued : ℤ) : (if answer < queued then answer else queued) =
            min answer queued := by split_ifs <;> omega
        rw [if_pos hpos, if_pos hpos, ← hsub]
      · rw [if_neg hpos, if_neg hpos]

/-- **What a flush does**: nothing, or it accounts for what the kernel accepts. -/
theorem flushRing_cases (fast : Bool) (spurious : ℕ) (answer : ℤ) (r : RingCtx) :
    flushRing fast spurious answer r = r ∨
    0 ≤ answer ∧
      flushRing fast spurious answer r = (r.kernelAccept answer.toNat).accountSubmit answer := by
  cases fast with
  | true => exact flushFast_ring answer
  | false =>
      cases hinit : r.ringInitialized with
      | true =>
          have hsame : flushRing false spurious answer r =
              (FlushState.flushFast { ring := r } answer).2.ring :=
            congrArg (·.2.ring) (FlushState.flushFast_eq { ring := r } hinit answer spurious).symm
          rw [hsame]
          exact flushFast_ring answer
      | false =>
          refine Or.inl ?_
          unfold flushRing FlushState.flush
          simp [hinit]

/-! ## The counter through the steps -/

theorem Submitted.counted (hr : Submitted r i r') (h : r.Counted) : r'.Counted := by
  obtain ⟨sqe, op, t, sc, -, -, rfl⟩ := hr
  unfold RingCtx.Counted RingCtx.prepared RingCtx.setRequest at *
  rw [List.length_append, List.length_singleton]
  push_cast
  rw [h]

theorem counted_put (h : r.Counted) : (ringPutRequest r i).Counted := by
  obtain ⟨stack, reqs, heq⟩ := ringPutRequest_eq r i
  rw [heq]
  exact h

theorem counted_get (hget : ringGetRequest r = some (i, r')) (h : r.Counted) : r'.Counted := by
  obtain ⟨rest, -, rfl⟩ := ringGetRequest_eq_some.mp hget
  exact h

/-- A flush lowers the counter by what the kernel accepts. -/
theorem counted_accept {k : ℕ} (hk : k ≤ r.sq.length) (h : r.Counted) :
    ((r.kernelAccept k).accountSubmit k).Counted := by
  unfold RingCtx.Counted at *
  unfold RingCtx.kernelAccept RingCtx.accountSubmit
  dsimp only
  rw [h, List.length_drop]
  split_ifs <;> omega

theorem counted_process (h : r.Counted) (now : ℤ) (req : Option ℕ) (res : ℤ) :
    (processCompletion now r req res).2.2.Counted := by
  obtain ⟨a, b, f, reqs, heq⟩ := processCompletion_eq now r req res
  rw [heq]
  exact h

theorem counted_retire (h : r.Counted) (es : List RetireEntry) :
    (ringRetireBatch r es).Counted := by
  obtain ⟨stack, reqs, ops, bytes, pending, heq⟩ := ringRetireBatch_eq r es
  rw [heq]
  exact h

theorem counted_cancel (h : s.ring.Counted) (target : ℕ) : (s.cancel target).ring.Counted := by
  unfold SlotState.cancel
  split
  · exact h
  · split
    · exact h
    · next i s₁ hget =>
        obtain ⟨⟨i', r⟩, hr, heq⟩ := Option.map_eq_some_iff.mp hget
        cases heq
        have hr' : r.Counted := counted_get hr h
        have hfilled : (r.setRequest i ((r.requests i).fill
            (SlotState.cancelRequest r.ringIdx (r.requests i)))).Counted := hr'
        dsimp only
        split
        · exact counted_put hfilled
        · next r' hr' => exact (ringSubmitCancel_spec hr').2.counted hfilled

/-- **Every step of the slot machine** keeps the counter right. -/
theorem slotStep_counted {a : SlotAction} (h : s.ring.Counted) (hs : slotStep s a = some s') :
    s'.ring.Counted := by
  cases a with
  | get =>
      obtain ⟨⟨i, t⟩, hget, rfl⟩ := Option.map_eq_some_iff.mp hs
      obtain ⟨⟨i', r⟩, hr, heq⟩ := Option.map_eq_some_iff.mp hget
      cases heq
      exact counted_get hr h
  | put i =>
      obtain ⟨-, rfl⟩ : i ∉ s.retiring ∧ s.put i = s' := by simpa [slotStep] using hs
      exact counted_put h
  | fill i q =>
      obtain ⟨-, rfl⟩ : i ∈ s.acquired ∧ s.fill i q = s' := by simpa [slotStep] using hs
      exact h
  | submit now b op i =>
      obtain ⟨-, rfl⟩ : i ∈ s.acquired ∧ s.submit now b op i = s' := by simpa [slotStep] using hs
      unfold SlotState.submit
      split
      · exact h
      · next r hr => exact ((submits_ringSubmit b op).submitted hr).counted h
  | cancel target =>
      obtain ⟨-, rfl⟩ : target < s.ring.maxRequests ∧ s.cancel target = s' := by
        simpa [slotStep] using hs
      exact counted_cancel h target
  | accept k =>
      obtain ⟨hk, rfl⟩ : k ≤ s.ring.sq.length ∧ s.accept k = s' := by simpa [slotStep] using hs
      exact counted_accept hk h
  | post k res =>
      cases hs
      unfold SlotState.post RingCtx.kernelPost
      split <;> exact h
  | openDrain =>
      cases hs
      exact h
  | reap f =>
      simp only [slotStep, SlotState.reap] at hs
      split at hs
      · split at hs
        · cases hs
          exact h
        · cases hs
      · cases hs
  | process now f =>
      simp only [slotStep, SlotState.process] at hs
      split at hs
      · cases hs
        exact counted_process h now _ _
      · cases hs
  | retire f =>
      simp only [slotStep, SlotState.retire] at hs
      split at hs
      · cases hs
        exact counted_retire h _
      · cases hs
  | reapFast now f =>
      simp only [slotStep, SlotState.reapFast] at hs
      split at hs
      · next c cq _ _ =>
          cases hs
          exact counted_process (r := { s.ring with cq }) h now _ _
      · cases hs
  | retireFast f =>
      simp only [slotStep, SlotState.retireFast] at hs
      split at hs
      · cases hs
        rw [ringRetireInline_eq_batch]
        exact counted_retire h _
      · cases hs
  | closeDrain f =>
      simp only [slotStep] at hs
      split at hs
      · cases hs
        exact h
      · cases hs

/-! ## Runs -/

/-- **Every step keeps the slots in order and the counter right.** -/
theorem queueStep_inv {a : QueueAction} (h : s.Inv n ∧ s.ring.Counted)
    (hs : queueStep s a = some s') : s'.Inv n ∧ s'.ring.Counted := by
  cases a with
  | slot b =>
      cases hb : b.isAccept with
      | true => simp [queueStep, hb] at hs
      | false =>
          have hstep : slotStep s b = some s' := by simpa [queueStep, hb] using hs
          exact ⟨slotStep_inv h.1 hstep, slotStep_counted h.2 hstep⟩
  | flush fast spurious answer =>
      obtain ⟨hle, rfl⟩ : answer ≤ s.ring.sq.length ∧
          { s with ring := flushRing fast spurious answer s.ring } = s' := by
        simpa [queueStep] using hs
      rcases flushRing_cases fast spurious answer s.ring with heq | ⟨hpos, heq⟩
      · rw [heq]
        exact h
      · have hnat : ((answer.toNat : ℕ) : ℤ) = answer := Int.toNat_of_nonneg hpos
        have hk : answer.toNat ≤ s.ring.sq.length := by omega
        have haccept : s.accept answer.toNat =
            { s with ring := flushRing fast spurious answer s.ring } := by
          rw [heq, SlotState.accept, hnat]
        rw [← haccept]
        exact ⟨h.1.accept _, counted_accept hk h.2⟩

theorem queueSystem_inv (h : Reachable (queueSystem n) s) : s.Inv n ∧ s.ring.Counted := by
  refine h.invariant (I := fun s => s.Inv n ∧ s.ring.Counted) ?_ fun _ _ _ hi hstep =>
    queueStep_inv hi hstep
  rintro s ⟨sqEntries, ringIdx, needsEnable, rfl⟩
  exact ⟨SlotState.inv_init n sqEntries ringIdx needsEnable, rfl⟩

/-- Prepared entries and acquired slots are different slots of the ring. -/
theorem SlotState.Inv.queue_le (h : s.Inv n) : s.acquired.length + s.ring.sq.length ≤ n := by
  have hlen := h.partition.length_eq
  simp only [List.length_append, List.length_range, outstanding, List.length_map] at hlen
  omega

/-- A submission finds an entry while the queue is not full. -/
theorem submitGetSqe_ne (h : r.sq.length < r.sqEntries) : submitGetSqe r ≠ .error EBUSY := by
  unfold submitGetSqe
  rw [if_neg (not_le.mpr h)]
  split_ifs
  · exact fun heq => absurd (Except.error.inj heq) (by decide)
  · exact fun heq => absurd (Except.error.inj heq) (by decide)
  · exact fun heq => nomatch heq

/-- **The accounts of queued entries.** In every state that a ring can reach by acquisitions,
returns, submissions, cancels, completions and flushes in any order, where every submit fails or the
kernel accepts part of what is prepared: `queued_sqes` is the number of entries prepared and not
accepted, which is between 0 and `pending_count`; and if the submission queue has an entry for every
request, then `io_uring_get_sqe` does not fail for a request that holds a slot, nor for a cancel
that just took one. -/
theorem queue_accounts (h : Reachable (queueSystem n) s) :
    s.ring.queuedSqes = s.ring.sq.length ∧ 0 ≤ s.ring.queuedSqes ∧
    s.ring.queuedSqes ≤ s.ring.pendingCount ∧
    (s.ring.maxRequests ≤ s.ring.sqEntries →
      (∀ i ∈ s.acquired, submitGetSqe s.ring ≠ .error EBUSY) ∧
      ∀ i s', s.get = some (i, s') → submitGetSqe s'.ring ≠ .error EBUSY) := by
  obtain ⟨hinv, hcount⟩ := queueSystem_inv h
  refine ⟨hcount, ?_, ?_, fun hentries => ⟨fun i hi => ?_, fun i s' hget => ?_⟩⟩
  · rw [hcount]
    exact Int.natCast_nonneg _
  · have hpending := hinv.pendingCount
    simp only [SlotState.outstanding, List.length_append, List.length_map] at hpending
    rw [hcount, hpending]
    push_cast
    omega
  · have hle := hinv.queue_le
    have hpos := List.length_pos_of_mem hi
    rw [hinv.max] at hentries
    exact submitGetSqe_ne (by omega)
  · have hle := (hinv.get hget).queue_le
    obtain ⟨⟨i', r⟩, hr, heq⟩ := Option.map_eq_some_iff.mp hget
    cases heq
    obtain ⟨rest, -, rfl⟩ := ringGetRequest_eq_some.mp hr
    rw [hinv.max] at hentries
    rw [List.length_cons] at hle
    refine submitGetSqe_ne ?_
    change s.ring.sq.length < s.ring.sqEntries
    change s.acquired.length + 1 + s.ring.sq.length ≤ n at hle
    omega

/-- After one read was submitted and a second slot taken, a flush that accepts nothing leaves one
entry queued. -/
theorem queue_accounts_read : ∃ s, execute queueStep { ring := ringInit 2 2 0 false }
    [.slot .get, .slot (.submit 5 true .read 1), .slot .get, .flush false 1 (-EAGAIN)] = some s ∧
    s.acquired = [0] ∧ s.ring.queuedSqes = 1 ∧ s.ring.queuedSqes ≤ s.ring.pendingCount ∧
    submitGetSqe s.ring ≠ .error EBUSY := by
  have hrun : (execute queueStep { ring := ringInit 2 2 0 false }
    [.slot .get, .slot (.submit 5 true .read 1), .slot .get,
      .flush false 1 (-EAGAIN)]).isSome := by decide
  have hs := (Option.some_get hrun).symm
  have hreach : Reachable (queueSystem 2) _ := Reachable.of_execute ⟨2, 0, false, rfl⟩ hs
  have h := queue_accounts hreach
  exact ⟨_, hs, rfl, rfl, h.2.2.1, (h.2.2.2 (le_refl 2)).1 0 List.mem_cons_self⟩

end Aura
