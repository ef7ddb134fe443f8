import Mathlib.Algebra.Order.Ring.Int
import Mathlib.Logic.Function.Basic
import Mathlib.Tactic.SplitIfs
import Aura.Lib.System

/-!
# The futures of the Rust bindings

`submit_async` gives the library a boxed callback and makes an `IoFuture` of the request that comes
back. The callback runs on the thread that processes the completion, while any other thread may poll
the future or drop it; they share the state behind a mutex, the flag `request_consumed` and the
request slot, which the library uses again for other operations.

Every atomic load and store, every section under the mutex and every call of the library is one
step, for any number of operations on any number of threads.

* `IoOp.Turn` — the steps of one operation, one for each branch.
* `IoOp.Ok` — the protocol of one operation.
* **`io_future_protocol`** — the callback's context is freed once, the result is delivered once, and
  no wake-up is lost.
* **`cancel_reaches`** — what is cancelled when a future is dropped.
-/

namespace Aura

open Lib

/-! ## One operation -/

/-- What the trampoline makes of the `isize` that the library reports: an error number, `EIO` if it
does not fit an `i32`, or a count. -/
def rustResult (result : ℤ) : Except ℤ ℤ :=
  if result < 0 then .error (if -result < 2 ^ 31 then -result else 5) else .ok result

/-- Where the callback is. -/
inductive CallbackSpot
  /-- The library has not called it. -/
  | idle
  /-- `callback_trampoline`, before the load of `magic`. -/
  | peek (result : ℤ)
  /-- Before the store that clears it. -/
  | clear (result : ℤ)
  /-- Before the store to `request_consumed`. -/
  | consume (result : ℤ)
  /-- Before the section that stores the result and takes the waker. -/
  | publish (result : ℤ)
  | wake (waker : Option ℕ)
  /-- Before the context is dropped. -/
  | free
  /-- Back in the library. -/
  | done
  /-- Back in the library, from a context that was not valid. -/
  | invalid
  /-- The library has the request slot back. -/
  | retired
deriving DecidableEq

/-- Where the program is with the future. -/
inductive FutureSpot
  | absent
  /-- `submit_async`, before the call of the library. -/
  | submitting
  /-- The library has taken the operation; the future is about to be made. -/
  | accepted
  /-- The library has refused it: `drop_context`, before `magic` is cleared. -/
  | refused
  | dropContext
  | failed
  | live
  /-- `poll` has returned the result. -/
  | ready
  /-- `Drop`, before the first load of `request_consumed`. -/
  | dropping
  | dropRead
  | dropRecheck
  | dropCancel
  | dropped
deriving DecidableEq

/-- An operation: its `IoState`, the flag, its context and the request slot. -/
structure IoOp where
  result : Option (Except ℤ ℤ) := none
  waker : Option ℕ := none
  requestConsumed : Bool := false
  /-- Is `CALLBACK_MAGIC` in the context? -/
  magic : Bool := false
  /-- How often the context was freed. -/
  frees : ℕ := 0
  request : Option ℕ := none
  callback : CallbackSpot := .idle
  future : FutureSpot := .absent
  /-- What the library has reported, what polls have returned, and the waker of the last poll if it
  has returned nothing and the waker was not woken since. -/
  reported : Option ℤ := none
  delivered : List (Except ℤ ℤ) := []
  asleep : Option ℕ := none

/-- What a step does outside of the operation. -/
inductive SlotEffect
  | nothing
  | occupy (slot : ℕ)
  /-- The operation in the slot is not pending any more. -/
  | complete
  | release
  /-- `aura_cancel` of the request. -/
  | cancel
deriving DecidableEq

/-- What may happen to an operation next. -/
inductive FutureAct
  | submit
  /-- The library takes the operation, in a request slot that is free. -/
  | accept (slot : ℕ)
  | refuse
  /-- The thread in `submit_async` or in `Drop` takes its next step. -/
  | advance
  | poll (waker : ℕ)
  | drop
  /-- The library processes the completion and calls the callback. -/
  | complete (result : ℤ)
  /-- The callback takes its next step. -/
  | run
  /-- The library takes the request slot back. -/
  | retire

namespace IoOp

/-- The next step of the callback. -/
def runCallback (x : IoOp) : Option IoOp :=
  match x.callback with
  | .peek r => some { x with callback := if x.magic then .clear r else .invalid }
  | .clear r => some { x with callback := .consume r, magic := false }
  | .consume r => some { x with callback := .publish r, requestConsumed := true }
  | .publish r =>
    some { x with callback := .wake x.waker, result := some (rustResult r), waker := none }
  | .wake w =>
    some { x with callback := .free, asleep := if x.asleep = w then none else x.asleep }
  | .free => some { x with callback := .done, frees := x.frees + 1 }
  | _ => none

/-- The next step of `submit_async` or `Drop`. -/
def advance (x : IoOp) : Option (IoOp × SlotEffect) :=
  match x.future with
  | .accepted => some ({ x with future := .live }, .nothing)
  | .refused => some ({ x with future := .dropContext, magic := false }, .nothing)
  | .dropContext => some ({ x with future := .failed, frees := x.frees + 1 }, .nothing)
  | .dropping =>
    some ({ x with future := if x.requestConsumed then .dropped else .dropRead }, .nothing)
  | .dropRead =>
    some ({ x with future := if x.result.isNone then .dropRecheck else .dropped }, .nothing)
  | .dropRecheck =>
    some ({ x with future := if x.requestConsumed then .dropped else .dropCancel }, .nothing)
  | .dropCancel => some ({ x with future := .dropped }, .cancel)
  | _ => none

/-- `poll` of the future. -/
def poll (x : IoOp) (waker : ℕ) : IoOp :=
  match x.result with
  | some r =>
    { x with result := none, future := .ready, delivered := r :: x.delivered, asleep := none }
  | none => { x with waker := some waker, asleep := some waker }

/-- The next step of the operation. -/
def turn (x : IoOp) : FutureAct → Option (IoOp × SlotEffect)
  | .submit =>
    if x.future = .absent then some ({ x with future := .submitting, magic := true }, .nothing)
    else none
  | .accept slot =>
    if x.future = .submitting then
      some ({ x with future := .accepted, request := some slot }, .occupy slot)
    else none
  | .refuse =>
    if x.future = .submitting then some ({ x with future := .refused }, .nothing) else none
  | .advance => x.advance
  | .poll waker => if x.future = .live then some (x.poll waker, .nothing) else none
  | .drop =>
    if x.future = .live ∨ x.future = .ready then some ({ x with future := .dropping }, .nothing)
    else none
  | .complete r =>
    if x.request.isSome ∧ x.callback = .idle then
      some ({ x with callback := .peek r, reported := some r }, .complete)
    else none
  | .run => x.runCallback.map (·, .nothing)
  | .retire =>
    if x.callback = .done ∨ x.callback = .invalid then
      some ({ x with callback := .retired }, .release)
    else none

/-- The steps of one operation, one for each branch. -/
inductive Turn : IoOp → FutureAct → IoOp → SlotEffect → Prop
  | submit {x : IoOp} (h : x.future = .absent) :
      Turn x .submit { x with future := .submitting, magic := true } .nothing
  | accept {x : IoOp} {slot : ℕ} (h : x.future = .submitting) :
      Turn x (.accept slot) { x with future := .accepted, request := some slot } (.occupy slot)
  | refuse {x : IoOp} (h : x.future = .submitting) :
      Turn x .refuse { x with future := .refused } .nothing
  | made {x : IoOp} (h : x.future = .accepted) :
      Turn x .advance { x with future := .live } .nothing
  | unmark {x : IoOp} (h : x.future = .refused) :
      Turn x .advance { x with future := .dropContext, magic := false } .nothing
  | dropContext {x : IoOp} (h : x.future = .dropContext) :
      Turn x .advance { x with future := .failed, frees := x.frees + 1 } .nothing
  | ready {x : IoOp} {waker : ℕ} {r : Except ℤ ℤ} (h : x.future = .live) (hr : x.result = some r) :
      Turn x (.poll waker) { x with
        result := none, future := .ready, delivered := r :: x.delivered, asleep := none } .nothing
  | pending {x : IoOp} {waker : ℕ} (h : x.future = .live) (hr : x.result = none) :
      Turn x (.poll waker) { x with waker := some waker, asleep := some waker } .nothing
  | drop {x : IoOp} (h : x.future = .live ∨ x.future = .ready) :
      Turn x .drop { x with future := .dropping } .nothing
  /-- The rest of `Drop`, up to the call of `aura_cancel`. -/
  | dropping {x : IoOp} {f : FutureSpot}
      (h : x.future = .dropping ∨ x.future = .dropRead ∨ x.future = .dropRecheck)
      (hf : f = .dropped ∨ f = .dropRead ∨ f = .dropRecheck ∨ f = .dropCancel) :
      Turn x .advance { x with future := f } .nothing
  | cancel {x : IoOp} (h : x.future = .dropCancel) :
      Turn x .advance { x with future := .dropped } .cancel
  | complete {x : IoOp} {r : ℤ} (h : x.request.isSome) (hx : x.callback = .idle) :
      Turn x (.complete r) { x with callback := .peek r, reported := some r } .complete
  | peek {x : IoOp} {r : ℤ} (h : x.callback = .peek r) :
      Turn x .run { x with callback := if x.magic then .clear r else .invalid } .nothing
  | clear {x : IoOp} {r : ℤ} (h : x.callback = .clear r) :
      Turn x .run { x with callback := .consume r, magic := false } .nothing
  | consume {x : IoOp} {r : ℤ} (h : x.callback = .consume r) :
      Turn x .run { x with callback := .publish r, requestConsumed := true } .nothing
  | publish {x : IoOp} {r : ℤ} (h : x.callback = .publish r) :
      Turn x .run { x with
        callback := .wake x.waker, result := some (rustResult r), waker := none } .nothing
  | wake {x : IoOp} {w : Option ℕ} (h : x.callback = .wake w) :
      Turn x .run { x with
        callback := .free, asleep := if x.asleep = w then none else x.asleep } .nothing
  | free {x : IoOp} (h : x.callback = .free) :
      Turn x .run { x with callback := .done, frees := x.frees + 1 } .nothing
  | retire {x : IoOp} (h : x.callback = .done ∨ x.callback = .invalid) :
      Turn x .retire { x with callback := .retired } .release

/-- A step is one of these. -/
theorem turn_cases {x y : IoOp} {a : FutureAct} {e : SlotEffect} (h : x.turn a = some (y, e)) :
    Turn x a y e := by
  cases a with
  | submit =>
    simp only [turn, Option.ite_none_right_eq_some] at h
    obtain ⟨hx, ⟨⟩⟩ := h
    exact .submit hx
  | accept slot =>
    simp only [turn, Option.ite_none_right_eq_some] at h
    obtain ⟨hx, ⟨⟩⟩ := h
    exact .accept hx
  | refuse =>
    simp only [turn, Option.ite_none_right_eq_some] at h
    obtain ⟨hx, ⟨⟩⟩ := h
    exact .refuse hx
  | advance =>
    simp only [turn, advance] at h
    split at h
    · obtain ⟨⟩ := h
      exact .made ‹_›
    · obtain ⟨⟩ := h
      exact .unmark ‹_›
    · obtain ⟨⟩ := h
      exact .dropContext ‹_›
    · obtain ⟨⟩ := h
      exact .dropping (.inl ‹_›) (by split_ifs <;> simp)
    · obtain ⟨⟩ := h
      exact .dropping (.inr (.inl ‹_›)) (by split_ifs <;> simp)
    · obtain ⟨⟩ := h
      exact .dropping (.inr (.inr ‹_›)) (by split_ifs <;> simp)
    · obtain ⟨⟩ := h
      exact .cancel ‹_›
    · cases h
  | poll waker =>
    simp only [turn, Option.ite_none_right_eq_some] at h
    obtain ⟨hx, h⟩ := h
    unfold poll at h
    split at h
    · obtain ⟨⟩ := h
      exact .ready hx ‹_›
    · obtain ⟨⟩ := h
      exact .pending hx ‹_›
  | drop =>
    simp only [turn, Option.ite_none_right_eq_some] at h
    obtain ⟨hx, ⟨⟩⟩ := h
    exact .drop hx
  | complete r =>
    simp only [turn, Option.ite_none_right_eq_some] at h
    obtain ⟨⟨hx, hc⟩, ⟨⟩⟩ := h
    exact .complete hx hc
  | run =>
    obtain ⟨z, hz, hzy⟩ := Option.map_eq_some_iff.1 h
    obtain ⟨rfl, rfl⟩ := Prod.mk.inj hzy
    unfold runCallback at hz
    split at hz
    · obtain ⟨⟩ := hz
      exact .peek ‹_›
    · obtain ⟨⟩ := hz
      exact .clear ‹_›
    · obtain ⟨⟩ := hz
      exact .consume ‹_›
    · obtain ⟨⟩ := hz
      exact .publish ‹_›
    · obtain ⟨⟩ := hz
      exact .wake ‹_›
    · obtain ⟨⟩ := hz
      exact .free ‹_›
    · cases hz
  | retire =>
    simp only [turn, Option.ite_none_right_eq_some] at h
    obtain ⟨hx, ⟨⟩⟩ := h
    exact .retire hx

end IoOp

namespace CallbackSpot

/-- Is the context still marked by `CALLBACK_MAGIC`? -/
def marked : CallbackSpot → Bool
  | idle | peek _ | clear _ => true
  | _ => false

/-- Has the callback stored to `request_consumed`? -/
def consumed : CallbackSpot → Bool
  | publish _ | wake _ | free | done | retired => true
  | _ => false

/-- Has the callback stored the result? -/
def published : CallbackSpot → Bool
  | wake _ | free | done | retired => true
  | _ => false

/-- Has the callback woken the waker? -/
def woken : CallbackSpot → Bool
  | free | done | retired => true
  | _ => false

/-- Has the callback dropped its context? -/
def freed : CallbackSpot → Bool
  | done | retired => true
  | _ => false

/-- What the callback was called with, as long as it has not stored it. -/
def carries : CallbackSpot → Option ℤ
  | peek r | clear r | consume r | publish r => some r
  | _ => none

theorem published_of_woken {x : CallbackSpot} (h : x.woken = true) : x.published = true := by
  cases x <;> first | rfl | cases h

end CallbackSpot

namespace FutureSpot

/-- Has the library the operation? -/
def taken : FutureSpot → Bool
  | absent | submitting | refused | dropContext | failed => false
  | _ => true

/-- Is there a context that `submit_async` has not begun to drop? -/
def hasContext : FutureSpot → Bool
  | absent | dropContext | failed => false
  | _ => true

/-- May the result still be there? -/
def waits : FutureSpot → Bool
  | accepted | live => true
  | _ => false

theorem hasContext_of_taken {x : FutureSpot} (h : x.taken = true) : x.hasContext = true := by
  cases x <;> first | rfl | cases h

end FutureSpot

namespace IoOp

/-- The protocol of one operation. -/
structure Ok (x : IoOp) : Prop where
  valid : x.callback ≠ .invalid
  untaken : x.future.taken = false → x.callback = .idle ∧ x.request = none ∧ x.waker = none
  taken : x.future.taken = true → x.request.isSome = true
  magic : x.magic = (x.callback.marked && x.future.hasContext)
  frees : x.frees = if x.callback.freed = true ∨ x.future = .failed then 1 else 0
  consumed : x.requestConsumed = x.callback.consumed
  unreported : x.callback = .idle → x.reported = none
  carries : ∀ r, x.callback.carries = some r → x.reported = some r
  unpublished : x.callback.published = false → x.result = none ∧ x.delivered = [] ∧
    x.asleep = x.waker ∧ x.future ≠ .ready
  published : x.callback.published = true → x.waker = none ∧ ∃ r, x.reported = some r ∧
    (x.result = some (rustResult r) ∧ x.delivered = [] ∧ x.future ≠ .ready ∨
      x.result = none ∧ x.delivered = [rustResult r] ∧ x.future.waits = false)
  wakes : ∀ w, x.callback = .wake w → x.asleep = none ∨ x.asleep = w
  woken : x.callback.woken = true → x.asleep = none

/-- An operation that there is not yet. -/
theorem ok_default : Ok {} where
  valid h := nomatch h
  untaken _ := ⟨rfl, rfl, rfl⟩
  taken h := nomatch h
  magic := rfl
  frees := rfl
  consumed := rfl
  unreported _ := rfl
  carries _ h := nomatch h
  unpublished _ := ⟨rfl, rfl, rfl, fun h => nomatch h⟩
  published h := nomatch h
  wakes _ h := nomatch h
  woken h := nomatch h

/-- A callback that was called has its context. -/
theorem Ok.magic_of_peek {x : IoOp} (h : x.Ok) {r : ℤ} (hx : x.callback = .peek r) :
    x.magic = true := by
  have htaken : x.future.taken = true := by
    cases ht : x.future.taken with
    | true => rfl
    | false => exact nomatch hx.symm.trans (h.untaken ht).1
  rw [h.magic, hx, FutureSpot.hasContext_of_taken htaken]
  rfl

/-- A future whose result is stored gets it. -/
theorem Ok.unpublished_of_pending {x : IoOp} (h : x.Ok) (hx : x.future = .live)
    (hr : x.result = none) : x.callback.published = false := by
  cases hp : x.callback.published with
  | false => rfl
  | true =>
    obtain ⟨-, r, -, ⟨hs, -, -⟩ | ⟨-, -, hw⟩⟩ := h.published hp
    · exact nomatch hr.symm.trans hs
    · exact nomatch (congrArg FutureSpot.waits hx).symm.trans hw

/-- The steps of the callback keep the protocol. -/
theorem Ok.run {x y : IoOp} {e : SlotEffect} (h : x.Ok) (ht : Turn x .run y e) : y.Ok := by
  have hpeek := @Ok.magic_of_peek x h
  obtain ⟨h₁, h₂, h₃, h₄, h₅, h₆, h₇, h₈, h₉, h₁₀, h₁₁, h₁₂⟩ := h
  cases ht <;> constructor <;>
    grind -linarith [CallbackSpot.marked, CallbackSpot.consumed, CallbackSpot.published,
      CallbackSpot.woken, CallbackSpot.freed, CallbackSpot.carries, FutureSpot.taken]

/-- So do those of `submit_async` and `Drop`. -/
theorem Ok.advance {x y : IoOp} {e : SlotEffect} (h : x.Ok) (ht : Turn x .advance y e) :
    y.Ok := by
  obtain ⟨h₁, h₂, h₃, h₄, h₅, h₆, h₇, h₈, h₉, h₁₀, h₁₁, h₁₂⟩ := h
  cases ht <;> constructor <;>
    grind -linarith [CallbackSpot.freed, CallbackSpot.marked, FutureSpot.taken,
      FutureSpot.hasContext, FutureSpot.waits]

/-- A poll keeps the protocol. -/
theorem Ok.poll {x y : IoOp} {waker : ℕ} {e : SlotEffect} (h : x.Ok)
    (ht : Turn x (.poll waker) y e) : y.Ok := by
  have hpending := @Ok.unpublished_of_pending x h
  have hwoken := @CallbackSpot.published_of_woken x.callback
  obtain ⟨h₁, h₂, h₃, h₄, h₅, h₆, h₇, h₈, h₉, h₁₀, h₁₁, h₁₂⟩ := h
  cases ht <;> constructor <;>
    grind -linarith [CallbackSpot.published, FutureSpot.taken, FutureSpot.hasContext,
      FutureSpot.waits]

/-- Every step keeps the protocol. -/
theorem Ok.turn {x y : IoOp} {a : FutureAct} {e : SlotEffect} (h : x.Ok) (ht : Turn x a y e) :
    y.Ok := by
  cases a with
  | run => exact h.run ht
  | advance => exact h.advance ht
  | poll waker => exact h.poll ht
  | _ =>
    obtain ⟨h₁, h₂, h₃, h₄, h₅, h₆, h₇, h₈, h₉, h₁₀, h₁₁, h₁₂⟩ := h
    cases ht
    constructor <;>
      grind -linarith [CallbackSpot.marked, CallbackSpot.consumed, CallbackSpot.published,
        CallbackSpot.woken, CallbackSpot.freed, CallbackSpot.carries, FutureSpot.taken,
        FutureSpot.hasContext, FutureSpot.waits]

/-- The operation has the request slot, and is pending or not. -/
def Holds (x : IoOp) (slot : ℕ) (pending : Bool) : Prop :=
  x.request = some slot ∧ x.callback ≠ .retired ∧ pending = decide (x.callback = .idle)

theorem not_holds_default {slot : ℕ} {b : Bool} : ¬Holds {} slot b := fun h => nomatch h.1

variable {x y : IoOp} {a : FutureAct} {m : ℕ} {b : Bool}

/-- Most steps leave the request slot alone. -/
theorem Turn.holds {e : SlotEffect} (ht : Turn x a y e) (he : e = .nothing ∨ e = .cancel) :
    y.Holds m b ↔ x.Holds m b := by
  cases ht <;> grind [Holds]

/-- An operation that is taken had no slot. -/
theorem Ok.holds_of_occupy {n : ℕ} (h : x.Ok) (ht : Turn x a y (.occupy n)) :
    (∀ k c, ¬x.Holds k c) ∧ (y.Holds m b ↔ m = n ∧ b = true) := by
  cases ht with
  | accept hx =>
    have hnone := h.untaken (by rw [hx]; rfl)
    grind [Holds]

/-- A completion ends the time in which the operation is pending. -/
theorem Turn.holds_of_complete (ht : Turn x a y .complete) :
    ∃ n, x.request = some n ∧ x.Holds n true ∧ (y.Holds m b ↔ m = n ∧ b = false) := by
  cases ht with
  | complete h hx =>
    obtain ⟨n, hn⟩ := Option.isSome_iff_exists.1 h
    refine ⟨n, hn, ?_⟩
    grind [Holds]

/-- A slot is taken back from an operation that is complete. -/
theorem Ok.holds_of_release (h : x.Ok) (ht : Turn x a y .release) :
    ∃ n, x.request = some n ∧ x.Holds n false ∧ ¬y.Holds m b := by
  cases ht with
  | retire hx =>
    have htaken : x.future.taken = true := by
      cases hf : x.future.taken with
      | true => rfl
      | false => grind [h.untaken hf]
    obtain ⟨n, hn⟩ := Option.isSome_iff_exists.1 (h.taken htaken)
    refine ⟨n, hn, ?_⟩
    grind [Holds]

end IoOp

/-! ## All of them -/

/-- The operations and the request slots: the operation in a slot, and whether it is pending. -/
structure FutureState where
  ops : ℕ → IoOp := fun _ => {}
  slots : ℕ → Option (ℕ × Bool) := fun _ => none
  /-- The calls of `aura_cancel`: the operation whose future was dropped, and the one that the
  library was asked to cancel, if the request was pending. -/
  cancels : List (ℕ × Option ℕ) := []

namespace FutureState

variable (s : FutureState)

/-- The operation that is pending in the slot. -/
def pendingIn (slot : ℕ) : Option ℕ :=
  match s.slots slot with
  | some (o, true) => some o
  | _ => none

/-- The slots after a step of the operation. -/
def slotsAfter (o : ℕ) : SlotEffect → ℕ → Option (ℕ × Bool)
  | .occupy slot => Function.update s.slots slot (some (o, true))
  | .complete => ((s.ops o).request.elim s.slots fun slot =>
      Function.update s.slots slot (some (o, false)))
  | .release => ((s.ops o).request.elim s.slots fun slot => Function.update s.slots slot none)
  | _ => s.slots

/-- The state after a step of the operation. -/
def after (o : ℕ) (x : IoOp) (e : SlotEffect) : FutureState where
  ops := Function.update s.ops o x
  slots := s.slotsAfter o e
  cancels :=
    if e = .cancel then (o, (s.ops o).request.bind s.pendingIn) :: s.cancels else s.cancels

/-- A slot can only be given to an operation when it is free. -/
def allows : SlotEffect → Bool
  | .occupy slot => (s.slots slot).isNone
  | _ => true

/-- One step of an operation. -/
def step (l : ℕ × FutureAct) : Option FutureState :=
  match (s.ops l.1).turn l.2 with
  | some (x, e) => if s.allows e then some (s.after l.1 x e) else none
  | none => none

end FutureState

/-- All operations, in any order; at first there are none. -/
def futureSystem : System FutureState (ℕ × FutureAct) :=
  System.ofFn (fun s => s = {}) fun s l => s.step l

namespace FutureState

variable {s s' : FutureState} {o slot : ℕ}

/-- A step of the system is a step of one operation. -/
theorem step_cases {l : ℕ × FutureAct} (h : s.step l = some s') :
    ∃ x e, IoOp.Turn (s.ops l.1) l.2 x e ∧ s.allows e = true ∧ s' = s.after l.1 x e := by
  unfold step at h
  split at h
  · rename_i x e ht
    rw [Option.ite_none_right_eq_some] at h
    obtain ⟨hallows, ⟨⟩⟩ := h
    exact ⟨x, e, IoOp.turn_cases ht, hallows, rfl⟩
  · cases h

/-- Each operation is in its protocol, and the slots are those that the operations hold. -/
structure Ok (s : FutureState) : Prop where
  ops : ∀ o, (s.ops o).Ok
  slots : ∀ slot o b, s.slots slot = some (o, b) ↔ (s.ops o).Holds slot b

theorem ok_default : Ok {} where
  ops _ := IoOp.ok_default
  slots _ _ _ := ⟨(nomatch ·), fun h => absurd h IoOp.not_holds_default⟩

/-- A step keeps the slots to their operations. -/
theorem Ok.slots_after {x : IoOp} {a : FutureAct} {e : SlotEffect} (h : s.Ok)
    (ht : IoOp.Turn (s.ops o) a x e) (hallows : s.allows e = true) (slot o' : ℕ) (b : Bool) :
    s.slotsAfter o e slot = some (o', b) ↔ (Function.update s.ops o x o').Holds slot b := by
  have hslots := h.slots
  cases e with
  | nothing =>
    have hx := ht.holds (m := slot) (b := b) (.inl rfl)
    simp only [slotsAfter, Function.update_apply]
    split_ifs <;> grind
  | cancel =>
    have hx := ht.holds (m := slot) (b := b) (.inr rfl)
    simp only [slotsAfter, Function.update_apply]
    split_ifs <;> grind
  | occupy n =>
    obtain ⟨hnone, hy⟩ := (h.ops o).holds_of_occupy (m := slot) (b := b) ht
    have hfree : s.slots n = none := Option.isNone_iff_eq_none.1 hallows
    simp only [slotsAfter, Function.update_apply]
    split_ifs <;> grind
  | complete =>
    obtain ⟨n, hn, hx, hy⟩ := ht.holds_of_complete (m := slot) (b := b)
    have hown := (hslots n o true).2 hx
    simp only [slotsAfter, hn, Option.elim_some, Function.update_apply]
    split_ifs <;> grind [IoOp.Holds]
  | release =>
    obtain ⟨n, hn, hx, hy⟩ := (h.ops o).holds_of_release (m := slot) (b := b) ht
    have hown := (hslots n o false).2 hx
    simp only [slotsAfter, hn, Option.elim_some, Function.update_apply]
    split_ifs <;> grind [IoOp.Holds]

theorem Ok.step {l : ℕ × FutureAct} (h : s.Ok) (hs : s.step l = some s') : s'.Ok := by
  obtain ⟨x, e, ht, hallows, rfl⟩ := step_cases hs
  constructor
  · intro o
    by_cases ho : o = l.1
    · subst ho
      simpa only [after, Function.update_self] using (h.ops _).turn ht
    · simpa only [after, Function.update_of_ne ho] using h.ops o
  · exact h.slots_after ht hallows

theorem ok_of_reachable (h : Reachable futureSystem s) : s.Ok :=
  Reachable.invariant (fun _ hs => hs ▸ ok_default) (fun _ _ _ h hs => h.step hs) h

/-- What a dropped future cancels, as long as its request slot was not given back. -/
theorem Ok.pendingIn (h : s.Ok) (hx : (s.ops o).future = .dropCancel)
    (hc : (s.ops o).callback ≠ .retired) :
    (s.ops o).request.bind s.pendingIn = some o ∨ (s.ops o).request.bind s.pendingIn = none := by
  obtain ⟨n, hn⟩ := Option.isSome_iff_exists.1 ((h.ops o).taken (by rw [hx]; rfl))
  have hown := (h.slots n o (decide ((s.ops o).callback = .idle))).2 ⟨hn, hc, rfl⟩
  simp only [hn, Option.bind_some, FutureState.pendingIn, hown]
  cases decide ((s.ops o).callback = .idle) with
  | true => exact .inl rfl
  | false => exact .inr rfl

/-- The step is not the call of `aura_cancel` for a request whose slot was given back. -/
def CancelsInTime (s : FutureState) (l : ℕ × FutureAct) : Prop :=
  (s.ops l.1).future = .dropCancel → (s.ops l.1).callback ≠ .retired

/-- Such a step adds at most a call for the operation itself. -/
theorem Ok.cancels {l : ℕ × FutureAct} {c : ℕ × Option ℕ} (h : s.Ok) (hl : s.CancelsInTime l)
    (hs : s.step l = some s') (hc : c ∈ s'.cancels) :
    c ∈ s.cancels ∨ c.2 = some c.1 ∨ c.2 = none := by
  obtain ⟨x, e, ht, -, rfl⟩ := step_cases hs
  by_cases he : e = .cancel
  · subst he
    have hx : (s.ops l.1).future = .dropCancel := by
      generalize l.2 = a at ht
      cases ht
      assumption
    simp only [after, ↓reduceIte, List.mem_cons] at hc
    rcases hc with rfl | hc
    · exact .inr (h.pendingIn hx (hl hx))
    · exact .inl hc
  · simp only [after, if_neg he] at hc
    exact .inl hc

end FutureState

/-! ## What a program can rely on -/

/-- **The futures of the Rust bindings**: in every order of steps the callback is never called with
a context that is not valid and uses none that is freed; the context is freed once, by the callback
or by a submission that fails; polls return the result that the library reports, and once; and when
the callback has run to its end, a future that was not polled since has its result and its last
waker was woken. -/
theorem io_future_protocol {s : FutureState} (h : Reachable futureSystem s) (o : ℕ) :
    (s.ops o).callback ≠ .invalid ∧
    ((s.ops o).frees = if (s.ops o).callback.freed = true ∨ (s.ops o).future = .failed
      then 1 else 0) ∧
    ((s.ops o).future = .failed → (s.ops o).reported = none) ∧
    (∀ r, r ∈ (s.ops o).delivered →
      (s.ops o).delivered = [r] ∧ ∃ n, (s.ops o).reported = some n ∧ r = rustResult n) ∧
    ((s.ops o).callback.woken = true → (s.ops o).future.waits = true →
      (s.ops o).asleep = none ∧
        ∃ n, (s.ops o).reported = some n ∧ (s.ops o).result = some (rustResult n)) := by
  have hx := (FutureState.ok_of_reachable h).ops o
  refine ⟨hx.valid, hx.frees, ?_, ?_, ?_⟩
  · intro hf
    exact hx.unreported (hx.untaken (by rw [hf]; rfl)).1
  · intro r hr
    cases hp : (s.ops o).callback.published with
    | false =>
      rw [(hx.unpublished hp).2.1] at hr
      exact absurd hr List.not_mem_nil
    | true =>
      obtain ⟨-, n, hn, ⟨-, hd, -⟩ | ⟨-, hd, -⟩⟩ := hx.published hp
      · rw [hd] at hr
        exact absurd hr List.not_mem_nil
      · rw [hd, List.mem_singleton] at hr
        exact ⟨by rw [hd, hr], n, hn, hr⟩
  · intro hw hf
    obtain ⟨-, n, hn, ⟨hr, -, -⟩ | ⟨-, -, hf'⟩⟩ := hx.published (CallbackSpot.published_of_woken hw)
    · exact ⟨hx.woken hw, n, hn, hr⟩
    · exact absurd hf (by rw [hf']; exact Bool.false_ne_true)

/-- An operation of which the future is polled before the callback runs and afterwards. -/
def awaitedRun : List (ℕ × FutureAct) :=
  [(0, .submit), (0, .accept 4), (0, .advance), (0, .poll 9), (0, .complete 512), (0, .run),
    (0, .run), (0, .run), (0, .run), (0, .run), (0, .run), (0, .poll 9), (0, .retire)]

theorem io_future_protocol_awaited :
    ∃ s, (execute FutureState.step {} awaitedRun = some s ∧ (s.ops 0).reported = some 512) ∧
      (s.ops 0).callback ≠ .invalid ∧ (s.ops 0).delivered.length = 1 := by
  have hrun : ((execute FutureState.step {} awaitedRun).map fun s =>
      ((s.ops 0).reported, (s.ops 0).delivered.length)) = some (some 512, 1) := by decide +kernel
  obtain ⟨s, hs, hx⟩ := Option.map_eq_some_iff.1 hrun
  obtain ⟨hreported, hlength⟩ := Prod.mk.inj hx
  have h := io_future_protocol (Reachable.of_execute rfl hs) 0
  exact ⟨s, ⟨hs, hreported⟩, h.1, hlength⟩

/-- A future is dropped while its callback runs, and its slot goes to another operation before
`aura_cancel` is called. -/
def lateCancelRun : List (ℕ × FutureAct) :=
  [(0, .submit), (0, .accept 4), (0, .advance), (0, .drop), (0, .advance), (0, .advance),
    (0, .advance), (0, .complete 512), (0, .run), (0, .run), (0, .run), (0, .run), (0, .run),
    (0, .run), (0, .retire), (1, .submit), (1, .accept 4), (0, .advance)]

/-- **What is cancelled when a future is dropped**: the operation of the future or nothing, in every
run in which no request slot is given back between the second load of `request_consumed` and the
call of `aura_cancel`. In other runs `aura_cancel` may find another operation in the slot, and
cancels that one. -/
theorem cancel_reaches :
    (∀ s, Reachable (futureSystem.restrict FutureState.CancelsInTime) s → ∀ c ∈ s.cancels,
      c.2 = some c.1 ∨ c.2 = none) ∧
    ∃ s, Reachable futureSystem s ∧ s.cancels = [(0, some 1)] := by
  constructor
  · intro s h
    refine (Reachable.invariant (I := fun s => s.Ok ∧ ∀ c ∈ s.cancels, c.2 = some c.1 ∨ c.2 = none)
      ?_ ?_ h).2
    · rintro _ rfl
      exact ⟨FutureState.ok_default, fun c hc => absurd hc List.not_mem_nil⟩
    · intro s l s' ⟨hok, hcancels⟩ ⟨hl, hs⟩
      refine ⟨hok.step hs, fun c hc => ?_⟩
      rcases hok.cancels hl hs hc with hc | hc
      · exact hcancels c hc
      · exact hc
  · have hrun : ((execute FutureState.step {} lateCancelRun).map (·.cancels)) =
        some [(0, some 1)] := by decide +kernel
    obtain ⟨s, hs, hc⟩ := Option.map_eq_some_iff.1 hrun
    exact ⟨s, Reachable.of_execute rfl hs, hc⟩

end Aura
