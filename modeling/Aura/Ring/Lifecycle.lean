import Aura.Ring.Invariant

/-!
# The life cycle of request slots

* `slotStep_inv` — every step of the slot machine keeps the slot invariant.
* `slotSystem_inv` — so every reachable state satisfies it.
* `slotSystem_lifecycle` — what that says: the free stack, the acquired slots and the
  submitted-and-not-retired slots partition the request array, the flags and `pending_count` agree,
  no slot is handed out before its previous request was retired, and every submitted request has
  its callback invoked exactly once.
-/

namespace Aura

open Lib Lib.Lifecycle

namespace SlotState

variable {s s' : SlotState} {n : ℕ}

/-! ## Every step keeps the invariant -/

theorem Inv.submit (h : s.Inv n) {i : ℕ} (hmem : i ∈ s.acquired) (now : ℤ) (b : Bool)
    (op : OpType) : (s.submit now b op i).Inv n := by
  unfold SlotState.submit
  split
  · exact h
  · next r hr => exact h.submitted hmem ((submits_ringSubmit b op).submitted hr)

theorem Inv.reap (h : s.Inv n) {f : ℕ} (hs : s.reap f = some s') : s'.Inv n := by
  unfold SlotState.reap at hs
  split at hs
  case h_1 fr c cq hf hcq =>
    split at hs
    · cases hs
      exact h.reaped hf hcq
    · cases hs
  case h_2 => cases hs

theorem Inv.retire (h : s.Inv n) {f : ℕ} (hs : s.retire f = some s') : s'.Inv n := by
  unfold SlotState.retire at hs
  split at hs
  case h_1 e es hf =>
    cases hs
    exact h.retireBatch hf
  case h_2 => cases hs

/-- A turn of the fast drain is a reap followed by processing. -/
theorem Inv.reapFast (h : s.Inv n) {now : ℤ} {f : ℕ} (hs : s.reapFast now f = some s') :
    s'.Inv n := by
  unfold SlotState.reapFast at hs
  split at hs
  case h_1 c cq hf hcq =>
    obtain ⟨hlt, -⟩ := List.getElem?_eq_some_iff.mp hf
    refine (h.reaped hf hcq).process (?_ : SlotState.process _ now f = some s')
    simp only [SlotState.process, List.getElem?_set_self hlt, List.nil_append, List.set_set]
    exact hs
  case h_2 => cases hs

theorem Inv.retireFast (h : s.Inv n) {f : ℕ} (hs : s.retireFast f = some s') : s'.Inv n := by
  unfold SlotState.retireFast at hs
  split at hs
  case h_1 e hf =>
    cases hs
    exact h.retireOne hf
  case h_2 => cases hs

/-- Opening a drain adds an activation that holds nothing. -/
theorem Inv.openDrain (h : s.Inv n) : Inv n { s with frames := s.frames ++ [{}] } := by
  refine h.stay rfl rfl ?_ (by simp [outstanding, retiring])
  intro j
  constructor
  all_goals simp [outstanding, retiring]

/-- A drain returns once it holds nothing. -/
theorem Inv.closeDrain (h : s.Inv n) {f : ℕ} (hf : s.frames[f]? = some ⟨[], []⟩) :
    Inv n { s with frames := s.frames.eraseIdx f } := by
  obtain ⟨hlt, hget⟩ := List.getElem?_eq_some_iff.mp hf
  have hperm := (List.getElem_cons_eraseIdx_perm hlt).symm
  rw [hget] at hperm
  have hbatch := hperm.flatMap_right fun fr => fr.batch.filterMap (·.req)
  have hretire := hperm.flatMap_right fun fr => fr.retire.filterMap (·.opIdx)
  simp only [List.flatMap_cons, List.filterMap_nil, List.nil_append] at hbatch hretire
  refine h.stay rfl rfl ?_ ?_
  · intro j
    constructor
    case running => simp [outstanding, hbatch.count_eq j]
    case finished => exact (hretire.count_eq j).symm
    all_goals rfl
  · simp only [outstanding, retiring, List.length_append, hbatch.length_eq, hretire.length_eq]
    omega

end SlotState

open SlotState

/-- **Every step of the slot machine keeps the slot invariant.** -/
theorem slotStep_inv {n : ℕ} {s s' : SlotState} {a : SlotAction} (h : s.Inv n)
    (hs : slotStep s a = some s') : s'.Inv n := by
  cases a with
  | get =>
      obtain ⟨⟨i, t⟩, hget, rfl⟩ := Option.map_eq_some_iff.mp hs
      exact h.get hget
  | put i =>
      obtain ⟨hret, rfl⟩ : i ∉ s.retiring ∧ s.put i = s' := by
        simpa [slotStep] using hs
      exact h.put hret
  | fill i q =>
      obtain ⟨hmem, rfl⟩ : i ∈ s.acquired ∧ s.fill i q = s' := by
        simpa [slotStep] using hs
      exact h.fill hmem q
  | submit now b op i =>
      obtain ⟨hmem, rfl⟩ : i ∈ s.acquired ∧ s.submit now b op i = s' := by
        simpa [slotStep] using hs
      exact h.submit hmem now b op
  | cancel target =>
      obtain ⟨-, rfl⟩ : target < s.ring.maxRequests ∧ s.cancel target = s' := by
        simpa [slotStep] using hs
      exact h.cancel target
  | accept k =>
      obtain ⟨-, rfl⟩ : k ≤ s.ring.sq.length ∧ s.accept k = s' := by
        simpa [slotStep] using hs
      exact h.accept k
  | post k res =>
      cases hs
      exact h.post k res
  | openDrain =>
      cases hs
      exact h.openDrain
  | reap f => exact h.reap hs
  | process now f => exact h.process hs
  | retire f => exact h.retire hs
  | reapFast now f => exact h.reapFast hs
  | retireFast f => exact h.retireFast hs
  | closeDrain f =>
      simp only [slotStep] at hs
      split at hs
      case h_1 hf =>
        cases hs
        exact h.closeDrain hf
      case h_2 => cases hs

/-- The slot invariant holds in every reachable state. -/
theorem slotSystem_inv {n : ℕ} {s : SlotState} (h : Reachable (slotSystem n) s) : s.Inv n := by
  refine h.invariant (I := SlotState.Inv n) ?_ fun _ _ _ hi hstep => slotStep_inv hi hstep
  rintro s ⟨sqEntries, ringIdx, needsEnable, rfl⟩
  exact inv_init n sqEntries ringIdx needsEnable

/-! ## What the invariant says -/

namespace SlotState.Inv

variable {n : ℕ} {s : SlotState} (h : s.Inv n)

include h

/-- Every slot of the ring is on exactly one of the four lists, once. -/
theorem tally_eq_one {i : ℕ} (hi : i < n) : s.tally i = 1 := by
  obtain ⟨p, -, hok⟩ := h.slots i hi
  simp only [tally, hok.free, hok.held, hok.running, hok.finished]
  cases p <;> simp [Lifecycle.Phase.unfinished]

/-- **The four lists partition the request array.** -/
theorem partition :
    (s.ring.freeRequestStack ++ s.acquired ++ (s.outstanding ++ s.retiring)).Perm
      (List.range n) := by
  rw [List.perm_iff_count]
  intro i
  have htally : (s.ring.freeRequestStack ++ s.acquired ++ (s.outstanding ++ s.retiring)).count i =
      s.tally i := by
    simp only [List.count_append, tally]
    omega
  rw [htally]
  by_cases hi : i < n
  · rw [h.tally_eq_one hi, List.count_eq_one_of_mem List.nodup_range (List.mem_range.mpr hi)]
  · rw [h.outside i (by omega), List.count_eq_zero_of_not_mem (by simpa using hi)]

theorem inPool_iff {i : ℕ} (hi : i < n) :
    (s.ring.requests i).inPool = true ↔ i ∈ s.ring.freeRequestStack := by
  obtain ⟨p, -, hok⟩ := h.slots i hi
  rw [hok.inPool, ← List.count_pos_iff, hok.free]
  by_cases hp : p = .free <;> simp [hp]

theorem phase_isSome {i : ℕ} (hi : i < n) : (phaseAfter i s.history).isSome := by
  obtain ⟨p, hp, -⟩ := h.slots i hi
  simp [hp]

/-- A request that was submitted is either outstanding, and nothing has happened to its slot
since, or the next event of its slot is the call of its own callback. -/
theorem callback_of_start {i : ℕ} {k : Option ℕ × ℕ} {past later : List SlotEvent} (hi : i < n)
    (hh : s.history = past ++ .start i k :: later) :
    (i ∈ s.outstanding ∧ ∀ e ∈ later, e.slot ≠ i) ∨
      ∃ l₁ l₂, later = l₁ ++ .finish i k :: l₂ ∧ ∀ e ∈ l₁, e.slot ≠ i := by
  have hsome := h.phase_isSome hi
  rw [hh] at hsome
  rcases next_of_start hsome with ⟨hrun, hrest⟩ | hfin
  · left
    obtain ⟨p, hp, hok⟩ := h.slots i hi
    rw [hh, hrun] at hp
    cases hp
    exact ⟨List.count_pos_iff.mp (by rw [hok.running]; exact Nat.one_pos), hrest⟩
  · exact Or.inr hfin

/-- Callbacks invoked for a slot are the requests submitted from it, less the outstanding one. -/
theorem starts_eq_finishes {i : ℕ} (hi : i < n) :
    starts i s.history = finishes i s.history + s.outstanding.count i := by
  obtain ⟨p, hp, hok⟩ := h.slots i hi
  rw [hok.running]
  exact (starts_eq hp).1

end SlotState.Inv

/-- **The life cycle of request slots.** In every state that a ring can reach by acquisitions,
returns, submissions, cancels, kernel steps and drains in any order:

* the free stack holds no duplicate and no index out of range;
* the free stack, the acquired slots and the submitted-and-not-retired slots partition the
  request array;
* a slot is on the stack iff its `in_pool` flag is set;
* `pending_count` is the number of submitted-and-not-retired requests;
* whenever a slot was handed out, every request submitted from it before had been retired;
* after a submission the next event of its slot, if any, is the call of its own callback, and
  calls equal submissions for every slot with nothing outstanding. -/
theorem slotSystem_lifecycle {n : ℕ} {s : SlotState} (h : Reachable (slotSystem n) s) :
    (s.ring.freeRequestStack.Nodup ∧ ∀ i ∈ s.ring.freeRequestStack, i < s.ring.maxRequests) ∧
    (s.ring.freeRequestStack ++ s.acquired ++ (s.outstanding ++ s.retiring)).Perm
      (List.range s.ring.maxRequests) ∧
    (∀ i < s.ring.maxRequests,
      (s.ring.requests i).inPool = true ↔ i ∈ s.ring.freeRequestStack) ∧
    s.ring.pendingCount = (s.outstanding ++ s.retiring).length ∧
    (∀ i < s.ring.maxRequests, ∀ past later, s.history = past ++ .acquire i :: later →
      starts i past = retires i past) ∧
    ∀ i < s.ring.maxRequests,
      (∀ past later k, s.history = past ++ .start i k :: later →
        (i ∈ s.outstanding ∧ ∀ e ∈ later, e.slot ≠ i) ∨
          ∃ l₁ l₂, later = l₁ ++ .finish i k :: l₂ ∧ ∀ e ∈ l₁, e.slot ≠ i) ∧
      starts i s.history = finishes i s.history + s.outstanding.count i := by
  have hinv := slotSystem_inv h
  have hpart := hinv.partition
  rw [hinv.max]
  refine ⟨⟨?_, ?_⟩, hpart, fun i hi => hinv.inPool_iff hi, ?_, ?_, fun i hi => ⟨?_, ?_⟩⟩
  · have hnodup := hpart.nodup_iff.mpr List.nodup_range
    exact (List.nodup_append.mp (List.nodup_append.mp hnodup).1).1
  · intro i hi
    exact List.mem_range.mp (hpart.subset (by simp [hi]))
  · rw [hinv.pendingCount, List.length_append]
    push_cast
    rfl
  · intro i hi past later hh
    have hsome := hinv.phase_isSome hi
    rw [hh] at hsome
    exact acquire_of_retired hsome
  · intro past later k hh
    exact hinv.callback_of_start hi hh
  · exact hinv.starts_eq_finishes hi

/-- One read through a ring: taken, submitted, accepted, completed, reaped and retired. -/
def readRun (i : ℕ) : List SlotAction :=
  [.get, .submit 5 true .read i, .accept 1, .post 0 7, .openDrain, .reapFast 9 0, .retireFast 0]

/-- After one read on a ring of two slots both are free again. -/
theorem slotSystem_lifecycle_read :
    ∃ s, execute slotStep { ring := ringInit 2 2 0 false } (readRun 1) = some s ∧
      s.history = [.acquire 1, .start 1 (none, 0), .finish 1 (none, 0), .retire 1] ∧
      (s.ring.freeRequestStack ++ s.acquired ++ (s.outstanding ++ s.retiring)).Perm
        (List.range s.ring.maxRequests) := by
  have hrun : (execute slotStep { ring := ringInit 2 2 0 false } (readRun 1)).isSome := rfl
  have hs := (Option.some_get hrun).symm
  exact ⟨_, hs, rfl, (slotSystem_lifecycle (Reachable.of_execute ⟨2, 0, false, rfl⟩ hs)).2.1⟩

end Aura
