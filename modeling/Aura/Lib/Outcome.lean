import Mathlib.Order.Basic
import Mathlib.Tactic.Common

/-!
# Programs over a state that may hang

`Prog σ α` is a computation over a state `σ` that either returns a value or never returns
(a lock that is never released, a wait that is never woken, a loop that does not end). A
computation that hangs still has a state, the one it hangs in, so a safety property can speak
about it.

* `Prog` is a monad; the `@[simp]` equations (`bind_apply`, `read_apply`, `modify_apply`, …)
  run a program on a state.
* `bind_eq_ret` peels the first computation off a program that returned.
* `Composes K` says that the property `K` of programs is kept by the ways programs are put
  together, and `Steps M K` that single steps from `M` have it, so `K` is proved along the program
  text, function by function.
* `Keeps R p` and `Ensures R p` say that `p` relates the state before to the state after by `R`, the
  one whether it returns or hangs, the other when it returns. For a preorder `R` both compose.
-/

namespace Aura.Lib

/-- The outcome of running a computation. -/
inductive Outcome (σ α : Type) where
  /-- It returned `a` in state `s`. -/
  | ret (a : α) (s : σ)
  /-- It never returns, and is stuck in state `s`. -/
  | hang (s : σ)
deriving Repr, DecidableEq

namespace Outcome

variable {σ α β : Type}

/-- The state the computation returned in or hangs in. -/
def state : Outcome σ α → σ
  | ret _ s => s
  | hang s => s

/-- The value returned, if any. -/
def value? : Outcome σ α → Option α
  | ret a _ => some a
  | hang _ => none

/-- Continue after a computation that returned. -/
def bind : Outcome σ α → (α → σ → Outcome σ β) → Outcome σ β
  | ret a s, f => f a s
  | hang s, _ => hang s

@[simp] theorem state_ret (a : α) (s : σ) : (ret a s).state = s := rfl
@[simp] theorem state_hang (s : σ) : (hang s : Outcome σ α).state = s := rfl
@[simp] theorem bind_ret (a : α) (s : σ) (f : α → σ → Outcome σ β) : (ret a s).bind f = f a s := rfl
@[simp] theorem bind_hang (s : σ) (f : α → σ → Outcome σ β) :
    (hang s : Outcome σ α).bind f = hang s := rfl

/-- A composite that returned did so through a first part that returned. -/
theorem bind_eq_ret {o : Outcome σ α} {f : α → σ → Outcome σ β} {b : β} {s' : σ} :
    o.bind f = ret b s' ↔ ∃ a s, o = ret a s ∧ f a s = ret b s' := by
  cases o <;> simp

end Outcome

/-- A computation over a state. -/
def Prog (σ α : Type) : Type := σ → Outcome σ α

namespace Prog

variable {σ α β : Type}

instance : Monad (Prog σ) where
  pure a := fun s => .ret a s
  bind p f := fun s => (p s).bind fun a s' => f a s'

/-- The part of the state selected by `f`. -/
def read (f : σ → α) : Prog σ α := fun s => .ret (f s) s

/-- Change the state. -/
def modify (f : σ → σ) : Prog σ Unit := fun s => .ret () (f s)

/-- A change of the state that also yields a value. -/
def update (f : σ → α × σ) : Prog σ α := fun s => .ret (f s).1 (f s).2

/-- A change of the state that waits for ever when it is not possible. -/
def await (f : σ → Option (α × σ)) : Prog σ α := fun s =>
  match f s with
  | none => .hang s
  | some (a, s') => .ret a s'

/-- Never return. -/
def block : Prog σ α := fun s => .hang s

/-- Run a program only if the condition holds. -/
def when (c : Bool) (p : Prog σ Unit) : Prog σ Unit := if c then p else pure ()

@[simp] theorem when_true (p : Prog σ Unit) : when true p = p := rfl
@[simp] theorem when_false (p : Prog σ Unit) : when false p = pure () := rfl

@[simp] theorem pure_apply (a : α) (s : σ) : (pure a : Prog σ α) s = .ret a s := rfl
@[simp] theorem bind_apply (p : Prog σ α) (f : α → Prog σ β) (s : σ) :
    (p >>= f) s = (p s).bind fun a s' => f a s' := rfl
@[simp] theorem read_apply (f : σ → α) (s : σ) : read f s = .ret (f s) s := rfl
@[simp] theorem modify_apply (f : σ → σ) (s : σ) : modify f s = .ret () (f s) := rfl
@[simp] theorem update_apply (f : σ → α × σ) (s : σ) : update f s = .ret (f s).1 (f s).2 := rfl
@[simp] theorem await_apply (f : σ → Option (α × σ)) (s : σ) :
    await f s = match f s with | none => .hang s | some (a, s') => .ret a s' := rfl
@[simp] theorem block_apply (s : σ) : (block : Prog σ α) s = .hang s := rfl

@[simp] theorem ite_apply (c : Prop) [Decidable c] (p q : Prog σ α) (s : σ) :
    (if c then p else q) s = if c then p s else q s := by
  split <;> rfl

theorem pure_bind (a : α) (f : α → Prog σ β) : (pure a >>= f) = f a := rfl

theorem bind_pure (p : Prog σ α) : (p >>= fun a => pure a) = p := by
  funext s
  change (p s).bind (fun a s' => .ret a s') = p s
  cases p s <;> rfl

theorem bind_assoc {γ : Type} (p : Prog σ α) (f : α → Prog σ β) (g : β → Prog σ γ) :
    p >>= f >>= g = p >>= fun a => f a >>= g := by
  funext s
  change ((p s).bind fun a s' => f a s').bind _ = (p s).bind _
  cases p s <;> rfl

/-- Peel the first computation off a program that returned. -/
theorem bind_eq_ret {p : Prog σ α} {f : α → Prog σ β} {s s' : σ} {b : β} :
    (p >>= f) s = .ret b s' ↔ ∃ a s₁, p s = .ret a s₁ ∧ f a s₁ = .ret b s' :=
  Outcome.bind_eq_ret

/-! ## Properties that follow the program text -/

/-- A property of programs that is kept by the ways programs are put together. -/
structure Composes (K : (α : Type) → Prog σ α → Prop) : Prop where
  pure : ∀ {α : Type} (a : α), K α (Pure.pure a)
  read : ∀ {α : Type} (f : σ → α), K α (Prog.read f)
  block : ∀ {α : Type}, K α Prog.block
  bind : ∀ {α β : Type} {p : Prog σ α} {f : α → Prog σ β}, K α p → (∀ a, K β (f a)) →
    K β (p >>= f)

/-- A property that every program of a single step from `M` has. -/
structure Steps (M : σ → σ → Prop) (K : (α : Type) → Prog σ α → Prop) : Prop where
  modify : ∀ {f : σ → σ}, (∀ s, M s (f s)) → K Unit (Prog.modify f)
  update : ∀ {α : Type} {f : σ → α × σ}, (∀ s, M s (f s).2) → K α (Prog.update f)
  await : ∀ {α : Type} {f : σ → Option (α × σ)}, (∀ s a s', f s = some (a, s') → M s s') →
    K α (Prog.await f)

namespace Composes

variable {K : (α : Type) → Prog σ α → Prop}

/-- One program after another. -/
theorem andThen (h : Composes K) {p : Prog σ α} {q : Prog σ β} (hp : K α p) (hq : K β q) :
    K β (do let _ ← p; q) := h.bind hp fun _ => hq

theorem ite (_h : Composes K) {c : Prop} [Decidable c] {p q : Prog σ α} (hp : K α p)
    (hq : K α q) : K α (if c then p else q) := by
  split
  · exact hp
  · exact hq

theorem when (h : Composes K) {c : Bool} {p : Prog σ Unit} (hp : K Unit p) :
    K Unit (Prog.when c p) := by
  cases c
  · exact h.pure ()
  · exact hp

end Composes

/-- Fewer steps, more properties. -/
theorem Steps.mono {M M' : σ → σ → Prop} {K : (α : Type) → Prog σ α → Prop} (h : Steps M K)
    (hM : ∀ {s s'}, M' s s' → M s s') : Steps M' K where
  modify hf := h.modify fun s => hM (hf s)
  update hf := h.update fun s => hM (hf s)
  await hf := h.await fun s a s' hs => hM (hf s a s' hs)

/-! ## Relating the state before to the state after -/

/-- `p` relates the state before to the state after by `R`, whether it returns or hangs. -/
def Keeps (R : σ → σ → Prop) (p : Prog σ α) : Prop := ∀ s, R s (p s).state

/-- `p` relates the state before to the state it returns in by `R`. -/
def Ensures (R : σ → σ → Prop) (p : Prog σ α) : Prop := ∀ s a s', p s = .ret a s' → R s s'

section relations

variable {R M : σ → σ → Prop}

theorem Keeps.ensures {p : Prog σ α} (h : Keeps R p) : Ensures R p := by
  intro s a s' hs
  have := h s
  rwa [hs] at this

theorem Keeps.composes (hrefl : ∀ s, R s s) (htrans : ∀ {s t u}, R s t → R t u → R s u) :
    Composes fun (α : Type) (p : Prog σ α) => Keeps R p where
  pure _ := hrefl
  read _ := hrefl
  block := hrefl
  bind {α β p f} hp hf := by
    intro s
    have h := hp s
    rw [bind_apply]
    cases hps : p s with
    | ret a s₁ =>
        rw [hps] at h
        exact htrans h (hf a s₁)
    | hang s₁ =>
        rw [hps] at h
        exact h

/-- Continue from a state that is related by programs that keep the relation. -/
theorem Keeps.bind_of (htrans : ∀ {s t u}, R s t → R t u → R s u) {p : Prog σ α}
    {f : α → Prog σ β} {s s₁ : σ} (hp : R s (p s₁).state) (hf : ∀ a, Keeps R (f a)) :
    R s ((p >>= f) s₁).state := by
  rw [bind_apply]
  cases hps : p s₁ with
  | ret a s₂ =>
      rw [hps] at hp
      exact htrans hp (hf a s₂)
  | hang s₂ =>
      rw [hps] at hp
      exact hp

theorem Keeps.steps (hrefl : ∀ s, R s s) (hM : ∀ {s s'}, M s s' → R s s') :
    Steps M fun (α : Type) (p : Prog σ α) => Keeps R p where
  modify hf s := hM (hf s)
  update hf s := hM (hf s)
  await {α f} hf := by
    intro s
    rw [await_apply]
    cases hs : f s with
    | none => exact hrefl s
    | some p => exact hM (hf s p.1 p.2 hs)

theorem Ensures.composes (hrefl : ∀ s, R s s) (htrans : ∀ {s t u}, R s t → R t u → R s u) :
    Composes fun (α : Type) (p : Prog σ α) => Ensures R p where
  pure a := by
    intro s a' s' hs
    cases hs
    exact hrefl s
  read f := by
    intro s a' s' hs
    cases hs
    exact hrefl s
  block := nofun
  bind hp hf := by
    intro s b s' hs
    obtain ⟨a, s₁, ha, hb⟩ := bind_eq_ret.mp hs
    exact htrans (hp s a s₁ ha) (hf a s₁ b s' hb)

theorem Ensures.steps (hM : ∀ {s s'}, M s s' → R s s') :
    Steps M fun (α : Type) (p : Prog σ α) => Ensures R p where
  modify hf := by
    intro s a s' hs
    cases hs
    exact hM (hf s)
  update hf := by
    intro s a s' hs
    cases hs
    exact hM (hf s)
  await {α f} hf := by
    intro s a s' hs
    rw [await_apply] at hs
    cases hfs : f s with
    | none => simp [hfs] at hs
    | some p =>
        simp only [hfs, Outcome.ret.injEq] at hs
        obtain ⟨rfl, rfl⟩ := hs
        exact hM (hf s _ _ hfs)

end relations

end Prog

end Aura.Lib
