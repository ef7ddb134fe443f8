import Aura.Lib.Lifecycle
import Aura.Lib.System
import Aura.Ring.Complete

/-!
# The slot machine of one ring

Everything that happens to the request slots of one ring, as a transition system over the ring
context. A step is one of the atomic actions the library makes on the ring:

* `get`, `put`, `fill` and `submit` are what a submission does between taking a slot and handing
  its entry to the ring; `cancel` is the body of `aura_cancel` under the ring lock;
* `accept` and `post` are the kernel's steps: it accepts any number of prepared entries at a flush,
  and completes any entry it holds at any time, exactly once;
* a drain is an activation of `ring_drain_cqes` or `ring_drain_cqes_fast` on some call stack
  (`Frame`). It reaps completions into its batch, runs `process_completion` on them one by one,
  and retires what it processed, in a batch under the ring lock or inline.

Any number of drains may be open at once and each may take its next step at any time. In particular
everything a callback does — submissions and cancels on the same ring, or a poll, which opens
another drain — happens between the `process` step that invoked it and the next step of its drain;
drains on other threads interleave the same way.

`acquired` and `history` are specification state: the slots held by a caller that has not submitted
them, and the life-cycle events so far. The payload of a job is the request's callback and user
data.
-/

namespace Aura

open Lib Lib.Lifecycle

/-- The `ring_submit_*` function of an operation type; cancels have their own
(`ringSubmitCancel`). -/
def ringSubmit (ftruncateSupported : Bool) : OpType → RingSubmitFn
  | .read => ringSubmitRead
  | .write => ringSubmitWrite
  | .readv => ringSubmitReadv
  | .writev => ringSubmitWritev
  | .fsync => ringSubmitFsync
  | .fdatasync => ringSubmitFdatasync
  | .readFixed => ringSubmitReadFixed
  | .writeFixed => ringSubmitWriteFixed
  | .openat => ringSubmitOpenat
  | .close => ringSubmitClose
  | .statx => ringSubmitStatx
  | .fallocate => ringSubmitFallocate
  | .ftruncate => ringSubmitFtruncate ftruncateSupported
  | .syncFileRange => ringSubmitSyncFileRange
  | .cancel => fun _ _ _ => .error EINVAL

theorem submits_ringSubmit (b : Bool) (op : OpType) : (ringSubmit b op).Submits := by
  cases op
  case read | write | readFixed | writeFixed => exact submits_buffer _
  case readv | writev => exact submits_vectored _
  case fallocate => exact submits_fallocate
  case ftruncate => exact submits_ftruncate b
  case syncFileRange => exact submits_syncFileRange
  case cancel => exact fun _ _ _ _ h => nomatch h
  all_goals exact submits_meta _ _

/-- What a caller may write into a slot it holds: every field but the slot's own bookkeeping
(`op_idx`, `pending`, `in_pool`). -/
def Request.fill (old new : Request) : Request :=
  { new with opIdx := old.opIdx, pending := old.pending, inPool := old.inPool }

/-- The job of a request: its callback and the user data passed to it. -/
def Request.job (q : Request) : Option ℕ × ℕ := (q.callback, q.userData)

/-- One activation of a drain: completions reaped and not processed, and entries processed and not
retired. -/
structure Frame where
  batch : List Cqe := []
  retire : List RetireEntry := []

/-- The events of the slots of a ring. -/
abbrev SlotEvent := Event ℕ (Option ℕ × ℕ)

/-- The ring with the activations of its drains, and the specification state. -/
structure SlotState where
  ring : RingCtx
  acquired : List ℕ := []
  frames : List Frame := []
  history : List SlotEvent := []

namespace SlotState

variable (s : SlotState)

/-- Slots submitted and not yet processed: prepared, held by the kernel, completed, or reaped. -/
def outstanding : List ℕ :=
  s.ring.sq.map (·.userData) ++ s.ring.inKernel.map (·.userData) ++
    s.ring.cq.filterMap (·.req) ++ s.frames.flatMap fun f => f.batch.filterMap (·.req)

/-- Slots processed and not yet retired. -/
def retiring : List ℕ := s.frames.flatMap fun f => f.retire.filterMap (·.opIdx)

/-! ## The actions -/

/-- `ring_get_request`. -/
def get : Option (ℕ × SlotState) :=
  (ringGetRequest s.ring).map fun (i, r) =>
    (i, { s with ring := r, acquired := i :: s.acquired, history := s.history ++ [.acquire i] })

/-- `ring_put_request` by a caller. -/
def put (i : ℕ) : SlotState :=
  { s with
    ring := ringPutRequest s.ring i
    acquired := s.acquired.erase i
    history := if i ∈ s.acquired then s.history ++ [.abandon i] else s.history }

/-- The caller writes the fields of a slot it holds. -/
def fill (i : ℕ) (q : Request) : SlotState :=
  { s with ring := s.ring.setRequest i ((s.ring.requests i).fill q) }

/-- Record that the slot `i` was submitted and the ring became `r`. -/
def submitted (i : ℕ) (r : RingCtx) : SlotState :=
  { s with
    ring := r
    acquired := s.acquired.erase i
    history := s.history ++ [.start i (s.ring.requests i).job] }

/-- `ring_submit_*` of a held slot. -/
def submit (now : ℤ) (ftruncateSupported : Bool) (op : OpType) (i : ℕ) : SlotState :=
  match ringSubmit ftruncateSupported op now s.ring i with
  | .error _ => s
  | .ok r => s.submitted i r

/-- The request of a cancel, as `aura_cancel` fills it: no descriptor, no callback. -/
def cancelRequest (ringIdx : ℤ) (q : Request) : Request :=
  { q with ringIdx, fd := -1, originalFd := -1, callback := none, userData := 0 }

/-- The body of `aura_cancel` under the ring lock, up to its flush: take a slot, submit the cancel
of `target`, return the slot if that fails. -/
def cancel (target : ℕ) : SlotState :=
  if !(s.ring.requests target).pending then s
  else
    match s.get with
    | none => s
    | some (i, s₁) =>
        let s₂ := s₁.fill i (cancelRequest s₁.ring.ringIdx (s₁.ring.requests i))
        match ringSubmitCancel s₂.ring i target with
        | .error _ => s₂.put i
        | .ok r => s₂.submitted i r

/-- A flush at which the kernel accepts `k` entries. -/
def accept (k : ℕ) : SlotState :=
  { s with ring := (s.ring.kernelAccept k).accountSubmit k }

/-- The kernel completes the `k`-th entry it holds. -/
def post (k : ℕ) (res : ℤ) : SlotState := { s with ring := s.ring.kernelPost k res }

/-- Reap the next completion into the batch of drain `f`. -/
def reap (f : ℕ) : Option SlotState :=
  match s.frames[f]?, s.ring.cq with
  | some fr, c :: cq =>
      if fr.retire = [] ∧ fr.batch.length < s.ring.pollBatchSize then
        some { s with
          ring := { s.ring with cq }
          frames := s.frames.set f { fr with batch := fr.batch ++ [c] } }
      else none
  | _, _ => none

/-- The life-cycle event of a processed completion: its callback is invoked. -/
def completionEvent : Option Request → List SlotEvent
  | none => []
  | some q => [.finish q.opIdx q.job]

/-- `process_completion` of the next reaped completion of drain `f`. -/
def process (now : ℤ) (f : ℕ) : Option SlotState :=
  match s.frames[f]? with
  | some ⟨c :: batch, retire⟩ =>
      let (e, q, r) := processCompletion now s.ring c.req c.res
      some { s with
        ring := r
        frames := s.frames.set f ⟨batch, retire ++ [e]⟩
        history := s.history ++ completionEvent q }
  | _ => none

/-- `ring_retire_batch` of drain `f`, once its batch is processed. -/
def retire (f : ℕ) : Option SlotState :=
  match s.frames[f]? with
  | some ⟨[], e :: es⟩ =>
      some { s with
        ring := ringRetireBatch s.ring (e :: es)
        frames := s.frames.set f {}
        history := s.history ++ ((e :: es).filterMap (·.opIdx)).map .retire }
  | _ => none

/-- One turn of the loop of `ring_drain_cqes_fast`: reap one completion and process it. -/
def reapFast (now : ℤ) (f : ℕ) : Option SlotState :=
  match s.frames[f]?, s.ring.cq with
  | some ⟨[], []⟩, c :: cq =>
      let (e, q, r) := processCompletion now { s.ring with cq } c.req c.res
      some { s with
        ring := r
        frames := s.frames.set f ⟨[], [e]⟩
        history := s.history ++ completionEvent q }
  | _, _ => none

/-- The inline retirement that ends the turn. -/
def retireFast (f : ℕ) : Option SlotState :=
  match s.frames[f]? with
  | some ⟨[], [e]⟩ =>
      some { s with
        ring := ringRetireInline s.ring e
        frames := s.frames.set f {}
        history := s.history ++ ([e].filterMap (·.opIdx)).map .retire }
  | _ => none

end SlotState

/-- The labels of the slot machine. -/
inductive SlotAction
  | get
  | put (i : ℕ)
  | fill (i : ℕ) (q : Request)
  | submit (now : ℤ) (ftruncateSupported : Bool) (op : OpType) (i : ℕ)
  | cancel (target : ℕ)
  | accept (k : ℕ)
  | post (k : ℕ) (res : ℤ)
  | openDrain
  | reap (f : ℕ)
  | process (now : ℤ) (f : ℕ)
  | retire (f : ℕ)
  | reapFast (now : ℤ) (f : ℕ)
  | retireFast (f : ℕ)
  | closeDrain (f : ℕ)

/-- One step. A caller fills and submits only slots it holds, and never returns a slot that a drain
is about to retire; the target of a cancel is a slot of the ring. -/
def slotStep (s : SlotState) : SlotAction → Option SlotState
  | .get => s.get.map (·.2)
  | .put i => if i ∈ s.retiring then none else some (s.put i)
  | .fill i q => if i ∈ s.acquired then some (s.fill i q) else none
  | .submit now b op i => if i ∈ s.acquired then some (s.submit now b op i) else none
  | .cancel target => if target < s.ring.maxRequests then some (s.cancel target) else none
  | .accept k => if k ≤ s.ring.sq.length then some (s.accept k) else none
  | .post k res => some (s.post k res)
  | .openDrain => some { s with frames := s.frames ++ [{}] }
  | .reap f => s.reap f
  | .process now f => s.process now f
  | .retire f => s.retire f
  | .reapFast now f => s.reapFast now f
  | .retireFast f => s.retireFast f
  | .closeDrain f =>
      match s.frames[f]? with
      | some ⟨[], []⟩ => some { s with frames := s.frames.eraseIdx f }
      | _ => none

/-- The slot machine of a ring with `queueDepth` slots. -/
def slotSystem (queueDepth : ℕ) : System SlotState SlotAction :=
  System.ofFn
    (fun s => ∃ sqEntries ringIdx needsEnable,
      s = { ring := ringInit queueDepth sqEntries ringIdx needsEnable })
    slotStep

end Aura
