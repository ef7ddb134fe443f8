import Mathlib.Data.List.Basic

/-!
# Batched and inline retirement

A loop that takes items one by one can finish each of them before it takes the next, or it can
process a batch and finish the batch afterwards. Both do the same if finishing an item commutes with
processing a later one.

* `Retiring` — what `process` and `retire` are, and when they commute.
* `Retiring.batch_eq_inline` — a batch does what the items do one after the other.
-/

namespace Aura.Lib

variable {σ α β : Type*}

/-- A loop over items `α`: processing one leaves an entry `β`, which is retired later. -/
structure Retiring (σ α β : Type*) where
  /-- Process an item. -/
  process : α → σ → β × σ
  /-- Retire the entry that it left. -/
  retire : β → σ → σ

namespace Retiring

variable (L : Retiring σ α β)

/-- Process the items of a batch in order. -/
def processAll : List α → σ → List β × σ
  | [], s => ([], s)
  | a :: as, s =>
      let p := L.process a s
      let q := processAll as p.2
      (p.1 :: q.1, q.2)

/-- Retire the entries of a batch in order. -/
def retireAll (bs : List β) (s : σ) : σ := bs.foldl (fun s b => L.retire b s) s

/-- Process and retire one item after the other. -/
def inline : List α → σ → σ
  | [], s => s
  | a :: as, s => inline as (L.retire (L.process a s).1 (L.process a s).2)

/-- One turn after the other. -/
theorem inline_append (as bs : List α) (s : σ) :
    L.inline (as ++ bs) s = L.inline bs (L.inline as s) := by
  induction as generalizing s with
  | nil => rfl
  | cons a as ih => exact ih _

/-- **Retirement commutes with processing** on the states `Good`: `Done b s` says that the item of
`b` has been processed. -/
structure Commutes (Good : σ → Prop) (Done : β → σ → Prop) : Prop where
  good_process : ∀ a s, Good s → Good (L.process a s).2
  good_retire : ∀ b s, Good s → Good (L.retire b s)
  done : ∀ a s, Good s → Done (L.process a s).1 (L.process a s).2
  done_process : ∀ a b s, Good s → Done b s → Done b (L.process a s).2
  comm : ∀ a b s, Good s → Done b s →
    L.process a (L.retire b s) = ((L.process a s).1, L.retire b (L.process a s).2)

/-- What processing and retiring leave alone may change before or after them. -/
theorem inline_frame {f : σ → σ}
    (hp : ∀ a s, L.process a (f s) = ((L.process a s).1, f (L.process a s).2))
    (hr : ∀ b s, L.retire b (f s) = f (L.retire b s)) (as : List α) (s : σ) :
    L.inline as (f s) = f (L.inline as s) := by
  induction as generalizing s with
  | nil => rfl
  | cons a as ih =>
      unfold inline
      rw [hp, hr]
      exact ih _

variable {L} {Good : σ → Prop} {Done : β → σ → Prop}

/-- An entry may be retired before or after a batch is processed. -/
theorem Commutes.processAll_retire (h : L.Commutes Good Done) (as : List α) {b : β} {s : σ}
    (hs : Good s) (hb : Done b s) :
    L.processAll as (L.retire b s) =
      ((L.processAll as s).1, L.retire b (L.processAll as s).2) := by
  induction as generalizing s with
  | nil => rfl
  | cons a as ih =>
      unfold processAll
      dsimp only
      rw [h.comm a b s hs hb, ih (h.good_process a s hs) (h.done_process a b s hs hb)]

/-- **A batch does what its items do one after the other.** -/
theorem Commutes.batch_eq_inline (h : L.Commutes Good Done) (as : List α) {s : σ} (hs : Good s) :
    L.retireAll (L.processAll as s).1 (L.processAll as s).2 = L.inline as s := by
  induction as generalizing s with
  | nil => rfl
  | cons a as ih =>
      have hgood := h.good_process a s hs
      have hmove := h.processAll_retire as hgood (h.done a s hs)
      have hrest := ih (h.good_retire (L.process a s).1 _ hgood)
      rw [hmove] at hrest
      exact hrest

/-- Processing a batch keeps the states good. -/
theorem Commutes.good_processAll (h : L.Commutes Good Done) (as : List α) {s : σ} (hs : Good s) :
    Good (L.processAll as s).2 := by
  induction as generalizing s with
  | nil => exact hs
  | cons a as ih => exact ih (h.good_process a s hs)

/-- The items keep the states good. -/
theorem Commutes.good_inline (h : L.Commutes Good Done) (as : List α) {s : σ} (hs : Good s) :
    Good (L.inline as s) := by
  induction as generalizing s with
  | nil => exact hs
  | cons a as ih => exact ih (h.good_retire _ _ (h.good_process a s hs))

end Retiring

end Aura.Lib
