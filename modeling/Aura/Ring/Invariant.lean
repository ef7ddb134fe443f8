import Aura.Ring.Machine

/-!
# The slot invariant

What every step of the slot machine preserves. It is local to a slot: `SlotOk s i p` says that slot
`i`, whose life cycle stands at phase `p`, is on exactly the list that belongs to `p` (free stack,
acquired, outstanding or retiring), once, and that its flags agree. `SlotState.Inv` asks this of
every slot, with the phase the history gives, and counts `pending_count`.

* `Inv.of_slots` reduces a step to what it does to each slot; `Inv.move` to what it does to the one
  slot its event is about.
* One lemma per action follows (`Inv.get`, `Inv.put`, …).
-/

namespace Aura

open Lib Lib.Lifecycle

/-- The phases of a request slot. -/
abbrev SlotPhase := Lifecycle.Phase (Option ℕ × ℕ)

namespace SlotState

/-- Slot `i` is where phase `p` says it is, once, and its flags agree. -/
structure SlotOk (s : SlotState) (i : ℕ) (p : SlotPhase) : Prop where
  free : s.ring.freeRequestStack.count i = if p = .free then 1 else 0
  held : s.acquired.count i = if p = .held then 1 else 0
  running : s.outstanding.count i = p.unfinished
  finished : s.retiring.count i = if p = .finished then 1 else 0
  inPool : (s.ring.requests i).inPool = decide (p = .free)
  pending : (s.ring.requests i).pending = decide (p.unfinished = 1)
  opIdx : (s.ring.requests i).opIdx = i
  job : ∀ k, p = .running k → (s.ring.requests i).job = k

/-- How often `i` is on the four lists. -/
def tally (s : SlotState) (i : ℕ) : ℕ :=
  s.ring.freeRequestStack.count i + s.acquired.count i + s.outstanding.count i +
    s.retiring.count i

/-- The slot invariant of a ring with `n` slots. -/
structure Inv (n : ℕ) (s : SlotState) : Prop where
  max : s.ring.maxRequests = n
  outside : ∀ i, n ≤ i → s.tally i = 0
  slots : ∀ i, i < n → ∃ p, phaseAfter i s.history = some p ∧ s.SlotOk i p
  pendingCount : s.ring.pendingCount = s.outstanding.length + s.retiring.length

/-- Nothing about slot `j` differs between the two states. -/
structure SameAt (s s' : SlotState) (j : ℕ) : Prop where
  free : s'.ring.freeRequestStack.count j = s.ring.freeRequestStack.count j
  held : s'.acquired.count j = s.acquired.count j
  running : s'.outstanding.count j = s.outstanding.count j
  finished : s'.retiring.count j = s.retiring.count j
  request : s'.ring.requests j = s.ring.requests j

variable {s s' : SlotState} {n i j : ℕ} {p : SlotPhase}

theorem SameAt.slotOk (h : SameAt s s' j) (hok : s.SlotOk j p) : s'.SlotOk j p where
  free := by rw [h.free, hok.free]
  held := by rw [h.held, hok.held]
  running := by rw [h.running, hok.running]
  finished := by rw [h.finished, hok.finished]
  inPool := by rw [h.request, hok.inPool]
  pending := by rw [h.request, hok.pending]
  opIdx := by rw [h.request, hok.opIdx]
  job := by rw [h.request]; exact hok.job

theorem SameAt.tally (h : SameAt s s' j) : s'.tally j = s.tally j := by
  simp only [SlotState.tally, h.free, h.held, h.running, h.finished]

namespace SlotOk

variable (h : s.SlotOk i p)

include h

theorem phase_of_free (hi : i ∈ s.ring.freeRequestStack) : p = .free := by
  have hpos := List.count_pos_iff.mpr hi
  rw [h.free] at hpos
  by_contra hne
  simp [hne] at hpos

theorem phase_of_acquired (hi : i ∈ s.acquired) : p = .held := by
  have hpos := List.count_pos_iff.mpr hi
  rw [h.held] at hpos
  by_contra hne
  simp [hne] at hpos

theorem phase_of_retiring (hi : i ∈ s.retiring) : p = .finished := by
  have hpos := List.count_pos_iff.mpr hi
  rw [h.finished] at hpos
  by_contra hne
  simp [hne] at hpos

theorem phase_of_outstanding (hi : i ∈ s.outstanding) : p = .running (s.ring.requests i).job := by
  have hpos := List.count_pos_iff.mpr hi
  rw [h.running] at hpos
  cases p with
  | running k => rw [h.job k rfl]
  | free | held | finished => simp [Lifecycle.Phase.unfinished] at hpos

end SlotOk

namespace Inv

variable (h : s.Inv n)

include h

/-- A slot on any of the lists is in range. -/
theorem lt_of_tally (hi : 0 < s.tally i) : i < n := by
  by_contra hle
  have := h.outside i (by omega)
  omega

/-- A held slot is not waiting to be retired. -/
theorem not_mem_retiring (hi : i ∈ s.acquired) : i ∉ s.retiring := by
  intro hret
  have hpos := List.count_pos_iff.mpr hi
  obtain ⟨p, -, hok⟩ := h.slots i (h.lt_of_tally (by simp only [tally]; omega))
  have hfin := hok.phase_of_retiring hret
  rw [hok.phase_of_acquired hi] at hfin
  cases hfin

/-- A step keeps the invariant if it keeps every slot in order and `pending_count` right. -/
theorem of_slots (hmax : s'.ring.maxRequests = s.ring.maxRequests)
    (hout : ∀ j, n ≤ j → s'.tally j = s.tally j)
    (hslot : ∀ j, j < n → ∀ p, phaseAfter j s.history = some p → s.SlotOk j p →
      ∃ p', phaseAfter j s'.history = some p' ∧ s'.SlotOk j p')
    (hcount : s'.ring.pendingCount - s.ring.pendingCount =
      (s'.outstanding.length + s'.retiring.length : ℤ) -
        (s.outstanding.length + s.retiring.length)) : s'.Inv n where
  max := hmax.trans h.max
  outside j hj := (hout j hj).trans (h.outside j hj)
  slots j hj := by
    obtain ⟨p, hp, hok⟩ := h.slots j hj
    exact hslot j hj p hp hok
  pendingCount := by
    have := h.pendingCount
    omega

/-- A step without an event that leaves every slot alone. -/
theorem stay (hhist : s'.history = s.history)
    (hmax : s'.ring.maxRequests = s.ring.maxRequests) (hsame : ∀ j, SameAt s s' j)
    (hcount : s'.ring.pendingCount - s.ring.pendingCount =
      (s'.outstanding.length + s'.retiring.length : ℤ) -
        (s.outstanding.length + s.retiring.length)) : s'.Inv n :=
  h.of_slots hmax (fun j _ => (hsame j).tally)
    (fun j _ p hp hok => ⟨p, by rw [hhist, hp], (hsame j).slotOk hok⟩) hcount

/-- A step with one event: the slot it is about moves to the event's phase, the others stay. -/
theorem move {e : SlotEvent} (hi : 0 < s.tally e.slot)
    (hhist : s'.history = s.history ++ [e])
    (hmax : s'.ring.maxRequests = s.ring.maxRequests)
    (hsame : ∀ j, j ≠ e.slot → SameAt s s' j)
    (hmove : ∀ p, s.SlotOk e.slot p → ∃ p', p.step e = some p' ∧ s'.SlotOk e.slot p')
    (hcount : s'.ring.pendingCount - s.ring.pendingCount =
      (s'.outstanding.length + s'.retiring.length : ℤ) -
        (s.outstanding.length + s.retiring.length)) : s'.Inv n := by
  have hlt := h.lt_of_tally hi
  refine h.of_slots hmax (fun j hj => (hsame j (by omega)).tally) ?_ hcount
  intro j _ p hp hok
  by_cases hj : j = e.slot
  · subst hj
    obtain ⟨p', hstep, hok'⟩ := hmove p hok
    exact ⟨p', by rw [hhist, phaseAfter_snoc, if_pos rfl, hp]; exact hstep, hok'⟩
  · refine ⟨p, ?_, (hsame j hj).slotOk hok⟩
    rw [hhist, phaseAfter_snoc, if_neg (Ne.symm hj), hp]

end Inv

/-! ## The initial state -/

/-- A fresh ring has every slot on the free stack. -/
theorem inv_init (n sqEntries : ℕ) (ringIdx : ℤ) (needsEnable : Bool) :
    Inv n { ring := ringInit n sqEntries ringIdx needsEnable } where
  max := rfl
  outside i hi := by
    have : i ∉ (List.range n).reverse := by simp [hi]
    simp [tally, outstanding, retiring, ringInit, List.count_eq_zero_of_not_mem this]
  slots i hi := by
    have hone : (List.range n).count i = 1 :=
      List.count_eq_one_of_mem List.nodup_range (List.mem_range.mpr hi)
    refine ⟨.free, rfl, ?_⟩
    constructor <;>
      simp [outstanding, retiring, ringInit, hi, hone, Lifecycle.Phase.unfinished,
        List.count_reverse]
  pendingCount := by simp [outstanding, retiring, ringInit]

/-! ## Taking, returning and submitting slots -/

/-- `ring_get_request` moves the top of the stack to its caller. -/
theorem Inv.get (h : s.Inv n) (hget : s.get = some (i, s')) : s'.Inv n := by
  obtain ⟨⟨i', r⟩, hr, heq⟩ := Option.map_eq_some_iff.mp hget
  cases heq
  obtain ⟨rest, hstack, rfl⟩ := ringGetRequest_eq_some.mp hr
  have hmem : i ∈ s.ring.freeRequestStack := by simp [hstack]
  have hpos := List.count_pos_iff.mpr hmem
  refine h.move (e := .acquire i) ?_ rfl rfl ?_ ?_ ?_
  · simp only [tally, Event.slot]
    omega
  · intro j hj
    have hj : j ≠ i := hj
    constructor
    all_goals simp [outstanding, retiring, RingCtx.setRequest, hstack, hj, Ne.symm hj]
  · intro p hok
    obtain rfl := hok.phase_of_free hmem
    refine ⟨.held, rfl, ?_⟩
    obtain ⟨hfree, hheld, hrun, hfin, -, -, hidx, -⟩ := hok
    simp only [Event.slot, hstack, List.count_cons_self] at hfree hheld hrun hfin hidx ⊢
    constructor
    all_goals simp_all [outstanding, retiring, RingCtx.setRequest, Request.reset,
      Lifecycle.Phase.unfinished]
  · simp [outstanding, retiring, RingCtx.setRequest]

/-- `ring_put_request` by a caller returns a slot it holds, and does nothing to any other slot
that no drain is about to retire. -/
theorem Inv.put (h : s.Inv n) (hret : i ∉ s.retiring) : (s.put i).Inv n := by
  by_cases hmem : i ∈ s.acquired
  · have hpos := List.count_pos_iff.mpr hmem
    have hlt : i < n := h.lt_of_tally (by simp only [tally]; omega)
    obtain ⟨p, -, hok⟩ := h.slots i hlt
    obtain rfl := hok.phase_of_acquired hmem
    have hput := ringPutRequest_of_idle (r := s.ring) (i := i) (by rw [h.max]; exact hlt)
      (by simpa using hok.inPool) (by simpa [Lifecycle.Phase.unfinished] using hok.pending)
    refine h.move (e := .abandon i) ?_ (by simp [SlotState.put, hmem]) ?_ ?_ ?_ ?_
    · simp only [tally, Event.slot]
      omega
    · simp [SlotState.put, hput, RingCtx.setRequest]
    · intro j hj
      have hj : j ≠ i := hj
      constructor
      all_goals simp [SlotState.put, hput, outstanding, retiring, RingCtx.setRequest, hj,
        Ne.symm hj]
    · intro p hok
      obtain rfl := hok.phase_of_acquired hmem
      refine ⟨.free, rfl, ?_⟩
      obtain ⟨hfree, hheld, hrun, hfin, -, hpend, hidx, -⟩ := hok
      simp only [Event.slot] at hfree hheld hrun hfin hpend hidx ⊢
      constructor
      all_goals simp_all [SlotState.put, outstanding, retiring, RingCtx.setRequest,
        Lifecycle.Phase.unfinished]
    · simp [SlotState.put, hput, outstanding, retiring, RingCtx.setRequest]
  · -- a slot that is not held is out of range, in the pool, or pending
    have hguard : ringPutRequest s.ring i = s.ring := by
      refine ringPutRequest_of_guard ?_
      by_cases hlt : i < n
      · right
        obtain ⟨p, -, hok⟩ := h.slots i hlt
        have hheld := hok.held
        have hfin := hok.finished
        rw [List.count_eq_zero_of_not_mem hmem] at hheld
        rw [List.count_eq_zero_of_not_mem hret] at hfin
        cases p <;> simp [hok.inPool, hok.pending, Lifecycle.Phase.unfinished] at hheld hfin ⊢
      · left
        rw [h.max]
        omega
    have heq : s.put i = s := by
      simp [SlotState.put, hguard, hmem, List.erase_of_not_mem hmem]
    rwa [heq]

/-- A caller writing the fields of a slot it holds. -/
theorem Inv.fill (h : s.Inv n) (hmem : i ∈ s.acquired) (q : Request) : (s.fill i q).Inv n := by
  refine h.of_slots rfl (fun j _ => rfl) ?_ (by simp [SlotState.fill, outstanding, retiring,
    RingCtx.setRequest])
  intro j _ p hp hok
  refine ⟨p, hp, ?_⟩
  by_cases hj : j = i
  · subst hj
    obtain rfl := hok.phase_of_acquired hmem
    obtain ⟨hfree, hheld, hrun, hfin, hpool, hpend, hidx, -⟩ := hok
    constructor
    all_goals simp_all [SlotState.fill, outstanding, retiring, RingCtx.setRequest, Request.fill]
  · refine SameAt.slotOk (s := s) ?_ hok
    constructor
    all_goals simp [SlotState.fill, outstanding, retiring, RingCtx.setRequest, hj]

/-- A successful submission of a held slot. -/
theorem Inv.submitted (h : s.Inv n) (hmem : i ∈ s.acquired) {r : RingCtx}
    (hr : Submitted s.ring i r) : (s.submitted i r).Inv n := by
  obtain ⟨sqe, op, t, sc, hdata, -, rfl⟩ := hr
  have hpos := List.count_pos_iff.mpr hmem
  refine h.move (e := .start i (s.ring.requests i).job) ?_ rfl rfl ?_ ?_ ?_
  · simp only [tally, Event.slot]
    omega
  · intro j hj
    have hj : j ≠ i := hj
    constructor
    all_goals simp [SlotState.submitted, outstanding, retiring, RingCtx.prepared,
      RingCtx.setRequest, hj, hdata, Ne.symm hj]
  · intro p hok
    obtain rfl := hok.phase_of_acquired hmem
    refine ⟨.running (s.ring.requests i).job, rfl, ?_⟩
    obtain ⟨hfree, hheld, hrun, hfin, hpool, -, hidx, -⟩ := hok
    simp only [Event.slot, outstanding, retiring, List.count_append]
      at hfree hheld hrun hfin hpool hidx ⊢
    constructor
    all_goals simp_all [SlotState.submitted, outstanding, retiring, RingCtx.prepared,
      RingCtx.setRequest, Lifecycle.Phase.unfinished, Request.job]
  · simp only [SlotState.submitted, outstanding, retiring, RingCtx.prepared, RingCtx.setRequest,
      List.length_append, List.length_map, List.length_cons, List.length_nil]
    omega

/-- The body of `aura_cancel`: a slot is taken and then either submitted or returned. -/
theorem Inv.cancel (h : s.Inv n) (target : ℕ) : (s.cancel target).Inv n := by
  unfold SlotState.cancel
  split
  · exact h
  · split
    · exact h
    · next i s₁ hget =>
        have h₁ := h.get hget
        have hmem : i ∈ s₁.acquired := by
          obtain ⟨⟨i', r⟩, -, heq⟩ := Option.map_eq_some_iff.mp hget
          cases heq
          simp
        have h₂ := h₁.fill hmem (cancelRequest s₁.ring.ringIdx (s₁.ring.requests i))
        dsimp only
        split
        · exact h₂.put (h₂.not_mem_retiring hmem)
        · next r hr => exact h₂.submitted hmem (ringSubmitCancel_spec hr).2

/-! ## The kernel -/

/-- The kernel accepting entries moves them within the outstanding ones. -/
theorem Inv.accept (h : s.Inv n) (k : ℕ) : (s.accept k).Inv n := by
  have hsplit : ∀ l : List Sqe, l = l.take k ++ l.drop k :=
    fun l => (List.take_append_drop k l).symm
  refine h.stay rfl rfl ?_ ?_
  · intro j
    constructor
    case running =>
      have := congrArg (fun l : List Sqe => (l.map (·.userData)).count j) (hsplit s.ring.sq)
      simp only [List.map_append, List.count_append] at this
      simp only [SlotState.accept, outstanding, RingCtx.kernelAccept, RingCtx.accountSubmit,
        List.map_append, List.count_append]
      omega
    all_goals rfl
  · have := congrArg List.length (hsplit s.ring.sq)
    simp only [List.length_append] at this
    simp only [SlotState.accept, outstanding, retiring, RingCtx.kernelAccept,
      RingCtx.accountSubmit, List.length_append, List.length_map]
    omega

/-- A completion moves its entry within the outstanding ones. -/
theorem Inv.post (h : s.Inv n) (k : ℕ) (res : ℤ) : (s.post k res).Inv n := by
  unfold SlotState.post RingCtx.kernelPost
  split
  · exact h
  · next sqe hk =>
      obtain ⟨hlt, hget⟩ := List.getElem?_eq_some_iff.mp hk
      have hperm : (sqe :: s.ring.inKernel.eraseIdx k).Perm s.ring.inKernel := by
        rw [← hget]
        exact List.getElem_cons_eraseIdx_perm hlt
      refine h.stay rfl rfl ?_ ?_
      · intro j
        constructor
        case running =>
          have := (hperm.map (·.userData)).count_eq j
          simp only [List.map_cons, List.count_cons] at this
          simp only [outstanding, List.filterMap_append, List.count_append, List.filterMap_cons,
            List.filterMap_nil, List.count_cons, List.count_nil]
          omega
        all_goals rfl
      · have := hperm.length_eq
        simp only [List.length_cons] at this
        simp only [outstanding, retiring, List.filterMap_append, List.length_append,
          List.filterMap_cons, List.filterMap_nil, List.length_cons, List.length_nil,
          List.length_map]
        omega

/-! ## Drains -/

/-- Replacing one activation in the list of activations. -/
theorem frames_set {f : ℕ} {fr : Frame} (hf : s.frames[f]? = some fr) :
    ∃ pre post, s.frames = pre ++ fr :: post ∧
      ∀ x, (pre ++ fr :: post).set f x = pre ++ x :: post := by
  obtain ⟨hlt, hget⟩ := List.getElem?_eq_some_iff.mp hf
  have hframes : s.frames = s.frames.take f ++ fr :: s.frames.drop (f + 1) := by
    rw [← hget, List.getElem_cons_drop, List.take_append_drop]
  refine ⟨s.frames.take f, s.frames.drop (f + 1), hframes, fun x => ?_⟩
  rw [← hframes, List.set_eq_take_append_cons_drop, if_pos hlt]

/-- Reaping moves a completion from the queue to the batch of a drain. -/
theorem Inv.reaped (h : s.Inv n) {f : ℕ} {fr : Frame} {c : Cqe} {cq : List Cqe}
    (hf : s.frames[f]? = some fr) (hcq : s.ring.cq = c :: cq) :
    Inv n { s with
      ring := { s.ring with cq }
      frames := s.frames.set f { fr with batch := fr.batch ++ [c] } } := by
  obtain ⟨pre, post, hframes, hset⟩ := frames_set hf
  refine h.stay rfl rfl ?_ ?_
  · intro j
    constructor
    case running =>
      simp only [outstanding, hset, hframes, hcq, List.filterMap_cons, List.flatMap_append,
        List.flatMap_cons, List.filterMap_append, List.count_append, List.filterMap_nil]
      cases c.req <;> simp only [List.count_cons, List.count_nil] <;> omega
    case finished => simp [retiring, hset, hframes]
    all_goals rfl
  · simp only [outstanding, retiring, hset, hframes, hcq, List.filterMap_cons, List.flatMap_append,
      List.flatMap_cons, List.filterMap_append, List.length_append, List.filterMap_nil]
    cases c.req <;> simp only [List.length_cons, List.length_nil] <;> omega

/-- `process_completion`: the slot stops being pending and waits for its retirement. -/
theorem Inv.process (h : s.Inv n) {now : ℤ} {f : ℕ} (hp : s.process now f = some s') :
    s'.Inv n := by
  unfold SlotState.process at hp
  split at hp
  case h_2 => cases hp
  case h_1 c batch ret hf =>
    obtain ⟨pre, post, hframes, hset⟩ := frames_set hf
    cases hreq : c.req with
    | none =>
        simp only [hreq, processCompletion_none, completionEvent, List.append_nil,
          Option.some.injEq] at hp
        subst hp
        refine h.stay rfl rfl ?_ (by simp [outstanding, retiring, hset, hframes, hreq])
        intro j
        constructor
        all_goals simp [outstanding, retiring, hset, hframes, hreq]
    | some i =>
        have hmem : i ∈ s.outstanding := by simp [outstanding, hframes, hreq]
        have hpos := List.count_pos_iff.mpr hmem
        have htally : 0 < s.tally i := by simp only [tally]; omega
        obtain ⟨p, -, hok⟩ := h.slots i (h.lt_of_tally htally)
        obtain rfl := hok.phase_of_outstanding hmem
        have hpend : (s.ring.requests i).pending = true := by
          simpa [Lifecycle.Phase.unfinished] using hok.pending
        simp only [hreq, processCompletion_of_pending hpend, completionEvent, hok.opIdx,
          Option.some.injEq] at hp
        subst hp
        refine h.move (e := .finish i (s.ring.requests i).job) htally rfl rfl ?_ ?_ ?_
        · intro j hj
          have hj : j ≠ i := hj
          constructor
          all_goals simp [outstanding, retiring, hset, hframes, hreq, RingCtx.setRequest, hj,
            Ne.symm hj]
        · intro p hok
          obtain rfl := hok.phase_of_outstanding hmem
          refine ⟨.finished, by simp [Lifecycle.Phase.step], ?_⟩
          obtain ⟨hfree, hheld, hrun, hfin, hpool, -, hidx, -⟩ := hok
          simp only [Event.slot_finish, outstanding, retiring, hframes, hreq, List.count_append,
            List.flatMap_append, List.flatMap_cons, List.filterMap_cons, List.count_cons_self,
            Lifecycle.Phase.unfinished] at hfree hheld hrun hfin hpool hidx
          constructor
          case running =>
            simp only [outstanding, hframes, hset, RingCtx.setRequest, Event.slot_finish,
              List.count_append, List.flatMap_append, List.flatMap_cons, Lifecycle.Phase.unfinished]
            omega
          all_goals simp_all [retiring, RingCtx.setRequest, Lifecycle.Phase.unfinished]
        · simp [outstanding, retiring, hset, hframes, hreq, RingCtx.setRequest]
          omega

/-- The events of retired entries. -/
def retireEvents (es : List RetireEntry) : List SlotEvent := (es.filterMap (·.opIdx)).map .retire

/-- Retiring one processed entry of a drain. -/
theorem Inv.retireOne (h : s.Inv n) {f : ℕ} {b : List Cqe} {e : RetireEntry}
    {es : List RetireEntry} (hf : s.frames[f]? = some ⟨b, e :: es⟩) :
    Inv n { s with
      ring := ringRetireInline s.ring e
      frames := s.frames.set f ⟨b, es⟩
      history := s.history ++ retireEvents [e] } := by
  obtain ⟨pre, post, hframes, hset⟩ := frames_set hf
  cases hidx : e.opIdx with
  | none =>
      have hring : ringRetireInline s.ring e = s.ring := by simp [ringRetireInline, hidx]
      refine h.stay (by simp [retireEvents, hidx]) (by rw [hring]) ?_ ?_
      · intro j
        constructor
        all_goals simp [hring, outstanding, retiring, hframes, hset, hidx]
      · simp [hring, outstanding, retiring, hframes, hset, hidx]
  | some i =>
      have hmem : i ∈ s.retiring := by simp [retiring, hframes, hidx]
      have hpos := List.count_pos_iff.mpr hmem
      have htally : 0 < s.tally i := by simp only [tally]; omega
      have hlt := h.lt_of_tally htally
      obtain ⟨p, -, hok⟩ := h.slots i hlt
      obtain rfl := hok.phase_of_retiring hmem
      obtain ⟨ops, bytes, hring⟩ := ringRetireInline_of_idle hidx (by rw [h.max]; exact hlt)
        (by simpa using hok.inPool) (by simpa [Lifecycle.Phase.unfinished] using hok.pending)
      refine h.move (e := .retire i) htally (by simp [retireEvents, hidx])
        (by simp [hring, RingCtx.setRequest]) ?_ ?_ ?_
      · intro j hj
        have hj : j ≠ i := hj
        constructor
        all_goals simp [hring, outstanding, retiring, hframes, hset, hidx, RingCtx.setRequest, hj,
          Ne.symm hj]
      · intro p hok
        obtain rfl := hok.phase_of_retiring hmem
        refine ⟨.free, rfl, ?_⟩
        obtain ⟨hfree, hheld, hrun, hfin, -, hpend, hself, -⟩ := hok
        simp only [Event.slot_retire, outstanding, retiring, hframes, hidx, List.count_append,
          List.flatMap_append, List.flatMap_cons, List.filterMap_cons, List.count_cons_self,
          Lifecycle.Phase.unfinished] at hfree hheld hrun hfin hpend hself
        constructor
        case finished =>
          simp only [retiring, hframes, hset, Event.slot_retire, List.count_append,
            List.flatMap_append, List.flatMap_cons]
          simp only [if_true] at hfin
          simp
          omega
        all_goals simp_all [outstanding, RingCtx.setRequest, Lifecycle.Phase.unfinished]
      · simp [hring, outstanding, retiring, hframes, hset, hidx, RingCtx.setRequest]

/-- `ring_retire_batch`: the entries of a drain are retired one after the other. -/
theorem Inv.retireBatch {f : ℕ} {b : List Cqe} {es : List RetireEntry} (h : s.Inv n)
    (hf : s.frames[f]? = some ⟨b, es⟩) :
    Inv n { s with
      ring := ringRetireBatch s.ring es
      frames := s.frames.set f ⟨b, []⟩
      history := s.history ++ retireEvents es } := by
  induction es generalizing s with
  | nil =>
      have hset : s.frames.set f ⟨b, []⟩ = s.frames := by
        obtain ⟨hlt, hget⟩ := List.getElem?_eq_some_iff.mp hf
        rw [← hget, List.set_getElem_self]
      simpa [ringRetireBatch, retireEvents, hset] using h
  | cons e es ih =>
      obtain ⟨hlt, -⟩ := List.getElem?_eq_some_iff.mp hf
      have hrest := ih (h.retireOne hf) (by simp [hlt])
      have hev : retireEvents (e :: es) = retireEvents [e] ++ retireEvents es := by
        simp only [retireEvents, ← List.map_append, ← List.filterMap_append, List.singleton_append]
      simpa [ringRetireBatch_cons, hev] using hrest

end SlotState

end Aura
