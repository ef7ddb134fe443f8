import Mathlib.Algebra.BigOperators.Group.Finset.Basic
import Mathlib.Algebra.Order.BigOperators.Group.Finset
import Mathlib.Algebra.Order.Ring.Nat
import Mathlib.Data.Int.Order.Basic
import Mathlib.Order.WellFounded
import Aura.Lib.System

/-!
# Pipelines of asynchronous operations

The control flow of a tool that keeps a fixed number of slots busy: a first batch of submissions, a
loop that waits for completions and refills the free slots, and a last wait for what is still
active. Callbacks run inside the two waits only. What a submission and a callback do is a parameter
(`Pipeline`); `PipelineState` adds the program point and the interrupt flag.

* `Pipeline.Keeps.reachable`: an invariant of submissions and callbacks holds throughout. A
  condition on them may be assumed, and restricts the runs.
* `Pipeline.exited`: why the loop was left.
* `Pipeline.Progress.terminates`, `Pipeline.Progress.enabled`: where every completion is progress
  and an idle pipeline can submit, no run in which all operations complete goes on for ever, and
  none gets stuck before the end. -/

namespace Aura.Lib

/-- Where the code stands: in the first batch at a slot, at the test of the loop, waiting in it, in
the refill at a slot, in the last wait, or at the end. -/
inductive PipelinePc
  | initial (i : ℕ)
  | loop
  | waiting
  | fill (i : ℕ)
  | drain
  | returned
deriving DecidableEq

/-- The parts of a pipeline over a context `σ`, with answers of the surroundings in `A`. A
completion is `none` if the operation is not in flight or cannot have that result; a context in
which the program has `crashed` allows no step. -/
structure Pipeline (σ A Op : Type*) where
  depth : ℕ
  slotFree : σ → ℕ → Bool
  allDone : σ → Bool
  error : σ → ℤ
  setError : σ → ℤ → σ
  activeOps : σ → ℤ
  submit : A → ℕ → σ → σ
  complete : A → Op → ℤ → σ → Option σ
  crashed : σ → Bool

structure PipelineState (σ : Type*) where
  core : σ
  pc : PipelinePc := .initial 0
  interrupted : Bool := false

/-- The code moves on, a callback runs, the wait of the loop returns (with an `errno` that ends the
loop, or 0), or the interrupt arrives. -/
inductive PipelineLabel (A Op : Type*)
  | run (a : A)
  | complete (a : A) (op : Op) (result : ℤ)
  | waitReturns (errno : ℕ)
  | interrupt

/-- What a step does to the context. -/
inductive PipelineAct (A Op : Type*)
  | submit (a : A) (i : ℕ)
  | complete (a : A) (op : Op) (result : ℤ)

namespace Pipeline

variable {σ A Op : Type*} (P : Pipeline σ A Op)

/-- No error was recorded and no interrupt arrived. -/
def Goes (s : PipelineState σ) : Prop := P.error s.core = 0 ∧ s.interrupted = false

instance (s : PipelineState σ) : Decidable (P.Goes s) := inferInstanceAs (Decidable (_ ∧ _))

/-- One step of the code. -/
def run (a : A) (s : PipelineState σ) : Option (PipelineState σ) :=
  match s.pc with
  | .initial i => some <|
      if i < P.depth ∧ P.Goes s then
        { s with core := P.submit a i s.core, pc := .initial (i + 1) }
      else { s with pc := .loop }
  | .loop => some
      { s with pc := if P.allDone s.core = false ∧ P.Goes s then .waiting else .drain }
  | .fill i => some <|
      if i < P.depth then
        { s with
          core := if P.slotFree s.core i = true ∧ P.Goes s then P.submit a i s.core else s.core
          pc := .fill (i + 1) }
      else { s with pc := .loop }
  | .drain => if P.activeOps s.core ≤ 0 then some { s with pc := .returned } else none
  | .waiting => none
  | .returned => none

/-- Callbacks run inside a wait. -/
def callback (a : A) (op : Op) (result : ℤ) (s : PipelineState σ) : Option (PipelineState σ) :=
  if s.pc = .waiting ∨ s.pc = .drain then
    (P.complete a op result s.core).map fun core => { s with core }
  else none

/-- One step. -/
def step (s : PipelineState σ) (l : PipelineLabel A Op) : Option (PipelineState σ) :=
  if P.crashed s.core then none else
    match l with
    | .run a => P.run a s
    | .complete a op result => P.callback a op result s
    | .waitReturns errno =>
        if s.pc = .waiting then
          some (if errno = 0 then { s with pc := .fill 0 }
            else { s with core := P.setError s.core (-errno), pc := .drain })
        else none
    | .interrupt => if s.interrupted then none else some { s with interrupted := true }

/-- The submission or the callback of a step. -/
def act (s : PipelineState σ) : PipelineLabel A Op → Option (PipelineAct A Op)
  | .run a =>
      match s.pc with
      | .initial i => if i < P.depth ∧ P.Goes s then some (.submit a i) else none
      | .fill i =>
          if i < P.depth ∧ P.slotFree s.core i = true ∧ P.Goes s then some (.submit a i) else none
      | _ => none
  | .complete a op result => some (.complete a op result)
  | _ => none

/-- A condition on submissions and callbacks, as one on steps. -/
def Allows (ok : σ → PipelineAct A Op → Prop) (s : PipelineState σ) (l : PipelineLabel A Op) :
    Prop := ∀ x ∈ P.act s l, ok s.core x

instance (ok : σ → PipelineAct A Op → Prop) [∀ core x, Decidable (ok core x)]
    (s : PipelineState σ) (l : PipelineLabel A Op) : Decidable (P.Allows ok s l) :=
  match h : P.act s l with
  | none => .isTrue fun x hx => by
      rw [h] at hx
      cases hx
  | some x => decidable_of_iff (ok s.core x)
      ⟨fun hok y hy => by
        rw [h] at hy
        obtain rfl := Option.some.inj hy
        exact hok,
      fun hall => hall x h⟩

/-- The pipeline from a context on. -/
def system (core : σ) : System (PipelineState σ) (PipelineLabel A Op) :=
  System.ofFn (fun s => s = { core }) P.step

/-! ## Steps -/

variable {P} {s s' : PipelineState σ} {l : PipelineLabel A Op} {ok : σ → PipelineAct A Op → Prop}

/-- The loop is left for good. -/
def Quits (P : Pipeline σ A Op) (s : PipelineState σ) : Prop :=
  P.error s.core ≠ 0 ∨ s.interrupted = true ∨ P.allDone s.core = true

instance (s : PipelineState σ) : Decidable (P.Quits s) := inferInstanceAs (Decidable (_ ∨ _))

theorem not_quits_iff : ¬ P.Quits s ↔ P.allDone s.core = false ∧ P.Goes s := by
  unfold Quits Goes
  cases P.allDone s.core <;> cases s.interrupted <;> simp

/-- **What a step can do**, one constructor for each way through the code. -/
inductive Stepped (P : Pipeline σ A Op) (s : PipelineState σ) :
    PipelineLabel A Op → PipelineState σ → Prop
  | first (a : A) (i : ℕ) (hpc : s.pc = .initial i) (hi : i < P.depth) (hgoes : P.Goes s) :
      Stepped P s (.run a) { s with core := P.submit a i s.core, pc := .initial (i + 1) }
  | started (a : A) (i : ℕ) (hpc : s.pc = .initial i) (hno : ¬ (i < P.depth ∧ P.Goes s)) :
      Stepped P s (.run a) { s with pc := .loop }
  | enter (a : A) (hpc : s.pc = .loop) (hgo : ¬ P.Quits s) :
      Stepped P s (.run a) { s with pc := .waiting }
  | leave (a : A) (hpc : s.pc = .loop) (hquit : P.Quits s) :
      Stepped P s (.run a) { s with pc := .drain }
  | refill (a : A) (i : ℕ) (hpc : s.pc = .fill i) (hi : i < P.depth)
      (hfree : P.slotFree s.core i = true) (hgoes : P.Goes s) :
      Stepped P s (.run a) { s with core := P.submit a i s.core, pc := .fill (i + 1) }
  | skip (a : A) (i : ℕ) (hpc : s.pc = .fill i) (hi : i < P.depth)
      (hno : ¬ (P.slotFree s.core i = true ∧ P.Goes s)) :
      Stepped P s (.run a) { s with pc := .fill (i + 1) }
  | filled (a : A) (i : ℕ) (hpc : s.pc = .fill i) (hi : ¬ i < P.depth) :
      Stepped P s (.run a) { s with pc := .loop }
  | finish (a : A) (hpc : s.pc = .drain) (hidle : P.activeOps s.core ≤ 0) :
      Stepped P s (.run a) { s with pc := .returned }
  | callback (a : A) (op : Op) (result : ℤ) (core : σ) (hpc : s.pc = .waiting ∨ s.pc = .drain)
      (heq : P.complete a op result s.core = some core) :
      Stepped P s (.complete a op result) { s with core }
  | woken (hpc : s.pc = .waiting) : Stepped P s (.waitReturns 0) { s with pc := .fill 0 }
  | fail (errno : ℕ) (herrno : errno ≠ 0) (hpc : s.pc = .waiting) :
      Stepped P s (.waitReturns errno)
        { s with core := P.setError s.core (-errno), pc := .drain }
  | interrupt (hno : s.interrupted = false) : Stepped P s .interrupt { s with interrupted := true }

/-- The constructors cover every step. -/
theorem step_stepped (h : P.step s l = some s') : P.Stepped s l s' := by
  unfold Pipeline.step at h
  by_cases hcrash : P.crashed s.core = true
  · rw [if_pos hcrash] at h
    cases h
  rw [if_neg hcrash] at h
  cases l with
  | run a =>
      change P.run a s = some s' at h
      unfold Pipeline.run at h
      cases hpc : s.pc with
      | initial i =>
          simp only [hpc, Option.some.injEq] at h
          subst h
          by_cases hgo : i < P.depth ∧ P.Goes s
          · rw [if_pos hgo]
            exact .first a i hpc hgo.1 hgo.2
          · rw [if_neg hgo]
            exact .started a i hpc hgo
      | loop =>
          simp only [hpc, Option.some.injEq] at h
          subst h
          by_cases hgo : P.allDone s.core = false ∧ P.Goes s
          · rw [if_pos hgo]
            exact .enter a hpc (not_quits_iff.mpr hgo)
          · rw [if_neg hgo]
            exact .leave a hpc (not_not.mp fun hno => hgo (not_quits_iff.mp hno))
      | fill i =>
          simp only [hpc, Option.some.injEq] at h
          subst h
          by_cases hi : i < P.depth
          · rw [if_pos hi]
            by_cases hgo : P.slotFree s.core i = true ∧ P.Goes s
            · rw [if_pos hgo]
              exact .refill a i hpc hi hgo.1 hgo.2
            · rw [if_neg hgo]
              exact .skip a i hpc hi hgo
          · rw [if_neg hi]
            exact .filled a i hpc hi
      | drain =>
          simp only [hpc] at h
          split_ifs at h with hidle
          cases h
          exact .finish a hpc hidle
      | waiting =>
          simp only [hpc] at h
          cases h
      | returned =>
          simp only [hpc] at h
          cases h
  | complete a op result =>
      change P.callback a op result s = some s' at h
      unfold Pipeline.callback at h
      split_ifs at h with hpc
      obtain ⟨core, heq, rfl⟩ := Option.map_eq_some_iff.mp h
      exact .callback a op result core hpc heq
  | waitReturns errno =>
      dsimp only at h
      split_ifs at h with hpc herrno
      · cases h
        subst herrno
        exact .woken hpc
      · cases h
        exact .fail errno herrno hpc
  | interrupt =>
      dsimp only at h
      split_ifs at h with hno
      cases h
      exact .interrupt (Bool.eq_false_of_not_eq_true hno)

/-- The first batch goes from slot to slot. -/
theorem Stepped.initial (h : P.Stepped s l s') {k : ℕ} (hk : s'.pc = .initial k) :
    (s.pc = .initial k ∧ s'.core = s.core) ∨
      ∃ i a, k = i + 1 ∧ s.pc = .initial i ∧ s'.core = P.submit a i s.core := by
  cases h with
  | first a i hpc hi hgoes =>
      cases hk
      exact .inr ⟨i, a, rfl, hpc, rfl⟩
  | callback a op result core hpc heq =>
      change s.pc = .initial k at hk
      rw [hk] at hpc
      rcases hpc with hpc | hpc <;> cases hpc
  | interrupt hno => exact .inl ⟨hk, rfl⟩
  | _ => cases hk

/-! ## Invariants -/

/-- `I` is kept by every submission in a free slot, every callback and every recorded error, where
submissions and callbacks meet the condition `ok`; a submission leaves the other slots alone. -/
structure Keeps (P : Pipeline σ A Op) (ok : σ → PipelineAct A Op → Prop) (I : σ → Prop) :
    Prop where
  submit : ∀ {core a i}, I core → i < P.depth → P.slotFree core i = true → P.error core = 0 →
    ok core (.submit a i) → I (P.submit a i core)
  complete : ∀ {core core' a op result}, I core → ok core (.complete a op result) →
    P.complete a op result core = some core' → I core'
  setError : ∀ {core e}, I core → I (P.setError core e)
  others : ∀ {core a i j}, j ≠ i → P.slotFree (P.submit a i core) j = P.slotFree core j

variable {I : σ → Prop} {core₀ : σ}

/-- What holds at every point: the invariant, and in the first batch the rest of the slots is
free. -/
def Kept (P : Pipeline σ A Op) (I : σ → Prop) (s : PipelineState σ) : Prop :=
  I s.core ∧ ∀ i, s.pc = .initial i → ∀ j, i ≤ j → j < P.depth → P.slotFree s.core j = true

theorem Keeps.step (h : P.Keeps ok I) (hs : P.Kept I s) (hok : P.Allows ok s l)
    (hstep : P.Stepped s l s') : P.Kept I s' := by
  obtain ⟨hI, hfirst⟩ := hs
  refine ⟨?_, fun k hk j hkj hj => ?_⟩
  · cases hstep with
    | first a i hpc hi hgoes =>
        have hact : P.act s (.run a) = some (.submit a i) := by
          simp only [act, hpc, if_pos (And.intro hi hgoes)]
        exact h.submit hI hi (hfirst i hpc i (le_refl i) hi) hgoes.1 (hok _ hact)
    | refill a i hpc hi hfree hgoes =>
        have hact : P.act s (.run a) = some (.submit a i) := by
          simp only [act, hpc, if_pos (And.intro hi (And.intro hfree hgoes))]
        exact h.submit hI hi hfree hgoes.1 (hok _ hact)
    | callback a op result core hpc heq => exact h.complete hI (hok _ rfl) heq
    | fail errno herrno hpc => exact h.setError hI
    | _ => exact hI
  · rcases hstep.initial hk with ⟨hpc, hcore⟩ | ⟨i, a, rfl, hpc, hcore⟩
    · rw [hcore]
      exact hfirst k hpc j hkj hj
    · rw [hcore, h.others (by omega)]
      exact hfirst i hpc j (by omega) hj

/-- At the start. -/
theorem Kept.init (h₀ : I core₀) (hfree : ∀ i < P.depth, P.slotFree core₀ i = true) :
    P.Kept I { core := core₀ } :=
  ⟨h₀, fun _ _ j _ hj => hfree j hj⟩

/-- **An invariant of submissions and callbacks holds throughout.** -/
theorem Keeps.reachable (h : P.Keeps ok I) (h₀ : I core₀)
    (hfree : ∀ i < P.depth, P.slotFree core₀ i = true)
    (hs : Reachable ((P.system core₀).restrict (P.Allows ok)) s) : P.Kept I s := by
  refine Reachable.invariant ?_ ?_ hs
  · rintro s rfl
    exact Kept.init h₀ hfree
  · rintro s l s' hs ⟨hok, hstep⟩
    exact h.step hs hok (step_stepped hstep)

/-- At the end nothing is active. -/
theorem idle_of_returned (hs : Reachable ((P.system core₀).restrict (P.Allows ok)) s)
    (hpc : s.pc = .returned) : P.activeOps s.core ≤ 0 := by
  refine Reachable.invariant
    (I := fun s => s.pc = .returned → P.activeOps s.core ≤ 0) ?_ ?_ hs hpc
  · rintro s rfl hpc
    cases hpc
  · rintro s l s' hidle ⟨-, hstep⟩ hpc'
    cases step_stepped hstep with
    | finish a hpc hactive => exact hactive
    | callback a op result core hpc heq =>
        change s.pc = .returned at hpc'
        rw [hpc'] at hpc
        rcases hpc with hpc | hpc <;> cases hpc
    | interrupt hno => exact hidle hpc'
    | _ => cases hpc'

/-- Recorded errors stay, and so do finished tasks. -/
structure Settles (P : Pipeline σ A Op) (ok : σ → PipelineAct A Op → Prop) (I : σ → Prop) :
    Prop where
  error : ∀ {core core' a op result}, I core → ok core (.complete a op result) →
    P.complete a op result core = some core' → P.error core ≠ 0 → P.error core' ≠ 0
  done : ∀ {core core' a op result}, I core → ok core (.complete a op result) →
    P.complete a op result core = some core' → P.allDone core = true → P.allDone core' = true
  fail : ∀ {core e}, e ≠ 0 → P.error (P.setError core e) ≠ 0

/-- **Why the loop was left.** -/
theorem exited (h : P.Keeps ok I) (hsettle : P.Settles ok I) (h₀ : I core₀)
    (hfree : ∀ i < P.depth, P.slotFree core₀ i = true)
    (hs : Reachable ((P.system core₀).restrict (P.Allows ok)) s)
    (hpc : s.pc = .drain ∨ s.pc = .returned) : P.Quits s := by
  have hinv : P.Kept I s ∧ (s.pc = .drain ∨ s.pc = .returned → P.Quits s) := by
    refine Reachable.invariant
      (I := fun s => P.Kept I s ∧ (s.pc = .drain ∨ s.pc = .returned → P.Quits s)) ?_ ?_ hs
    · rintro s rfl
      refine ⟨Kept.init h₀ hfree, ?_⟩
      rintro (hpc | hpc) <;> cases hpc
    · rintro s l s' ⟨hkept, hquit⟩ ⟨hok, hstep⟩
      have hstepped := step_stepped hstep
      refine ⟨h.step hkept hok hstepped, fun hpc' => ?_⟩
      cases hstepped with
      | leave a hpc hquit => exact hquit
      | finish a hpc hidle => exact hquit (.inl hpc)
      | callback a op result core hpc heq =>
          have hokc := hok _ rfl
          rcases hquit hpc' with herr | hint | hdone
          · exact .inl (hsettle.error hkept.1 hokc heq herr)
          · exact .inr (.inl hint)
          · exact .inr (.inr (hsettle.done hkept.1 hokc heq hdone))
      | fail errno herrno hpc => exact .inl (hsettle.fail (by omega))
      | interrupt hno => exact .inr (.inl rfl)
      | _ => rcases hpc' with hpc' | hpc' <;> cases hpc'
  exact hinv.2 hpc

/-! ## Progress -/

/-- A measure that is a sum over tasks falls with the part of one task. -/
theorem sum_range_add_le {f g : ℕ → ℕ} {n t : ℕ} (k : ℕ) (ht : t < n)
    (hrest : ∀ t', t' ≠ t → f t' = g t') (h : f t + k ≤ g t) :
    ∑ i ∈ Finset.range n, f i + k ≤ ∑ i ∈ Finset.range n, g i := by
  rw [← Finset.sum_erase_add _ _ (Finset.mem_range.mpr ht),
    ← Finset.sum_erase_add (Finset.range n) g (Finset.mem_range.mpr ht)]
  have hsame : ∑ i ∈ (Finset.range n).erase t, f i = ∑ i ∈ (Finset.range n).erase t, g i :=
    Finset.sum_congr rfl fun i hi => hrest i (Finset.ne_of_mem_erase hi)
  omega

/-- What makes a pipeline end. The measure `μ` falls at every completion, and where nothing is in
flight also at a submission, as long as something is left to do and no error was recorded. -/
structure Progress (P : Pipeline σ A Op) (ok : σ → PipelineAct A Op → Prop) (I : σ → Prop)
    (busy : σ → Op → Prop) (μ : σ → ℕ) : Prop where
  depth_pos : 0 < P.depth
  alive : ∀ {core}, I core → P.crashed core = false
  active : ∀ {core}, I core → 0 < P.activeOps core → ∃ op, busy core op
  complete_lt : ∀ {core core' a op result}, I core → ok core (.complete a op result) →
    P.complete a op result core = some core' → μ core' < μ core
  submit_le : ∀ {core a i}, I core → P.slotFree core i = true → P.error core = 0 →
    ok core (.submit a i) → μ (P.submit a i core) ≤ μ core
  setError_le : ∀ {core e}, μ (P.setError core e) ≤ μ core
  setError_of_ne : ∀ {core e}, P.error core ≠ 0 → P.setError core e = core
  setError_ne : ∀ {core e}, e ≠ 0 → P.error (P.setError core e) ≠ 0
  idle_free : ∀ {core i}, I core → (∀ op, ¬ busy core op) → i < P.depth → P.slotFree core i = true
  idle_submit : ∀ {core a i}, I core → (∀ op, ¬ busy core op) → P.error core = 0 →
    P.allDone core = false → i < P.depth → ok core (.submit a i) →
    μ (P.submit a i core) < μ core ∨ P.error (P.submit a i core) ≠ 0
  done_submit : ∀ {core a i}, I core → P.allDone core = true → P.submit a i core = core
  can_submit : ∀ {core}, I core → ∀ i, ∃ a, ok core (.submit a i)
  can_complete : ∀ {core op}, I core → busy core op →
    ∃ a result core', ok core (.complete a op result) ∧ P.complete a op result core = some core'

namespace Progress

variable {busy : σ → Op → Prop} {μ : σ → ℕ}

/-- Progress under a stronger condition and invariant. -/
theorem mono (h : P.Progress ok I busy μ) {ok' : σ → PipelineAct A Op → Prop} {I' : σ → Prop}
    (hI : ∀ {core}, I' core → I core)
    (hsubmit : ∀ {core a i}, I' core → ok' core (.submit a i) → ok core (.submit a i))
    (hcomplete : ∀ {core core' a op result}, I' core → ok' core (.complete a op result) →
      P.complete a op result core = some core' → ok core (.complete a op result))
    (can_submit : ∀ {core}, I' core → ∀ i, ∃ a, ok' core (.submit a i))
    (can_complete : ∀ {core op}, I' core → busy core op →
      ∃ a result core', ok' core (.complete a op result) ∧
        P.complete a op result core = some core') : P.Progress ok' I' busy μ where
  depth_pos := h.depth_pos
  alive hcore := h.alive (hI hcore)
  active hcore := h.active (hI hcore)
  complete_lt hcore hx heq := h.complete_lt (hI hcore) (hcomplete hcore hx heq) heq
  submit_le hcore hfree hzero hx := h.submit_le (hI hcore) hfree hzero (hsubmit hcore hx)
  setError_le := h.setError_le
  setError_of_ne := h.setError_of_ne
  setError_ne := h.setError_ne
  idle_free hcore := h.idle_free (hI hcore)
  idle_submit hcore hidle hzero hdone hi hx :=
    h.idle_submit (hI hcore) hidle hzero hdone hi (hsubmit hcore hx)
  done_submit hcore := h.done_submit (hI hcore)
  can_submit := can_submit
  can_complete := can_complete

/-- **No deadlock**: before the end the code can move, or an operation can complete. -/
theorem enabled (h : P.Progress ok I busy μ) (hs : P.Kept I s) (hpc : s.pc ≠ .returned) :
    ∃ l s', l ≠ .interrupt ∧ P.Allows ok s l ∧ P.step s l = some s' := by
  have halive : ¬ P.crashed s.core = true := by
    rw [h.alive hs.1]
    exact Bool.false_ne_true
  have hrun (hno : s.pc ≠ .waiting) (hmoves : ∀ a, P.run a s ≠ none) :
      ∃ l s', l ≠ .interrupt ∧ P.Allows ok s l ∧ P.step s l = some s' := by
    have hans : ∃ a, P.Allows ok s (.run a) := by
      cases hcase : s.pc with
      | initial i =>
          obtain ⟨a, ha⟩ := h.can_submit hs.1 i
          refine ⟨a, fun x hx => ?_⟩
          simp only [act, hcase] at hx
          split_ifs at hx
          · obtain rfl := Option.some.inj hx
            exact ha
          · cases hx
      | fill i =>
          obtain ⟨a, ha⟩ := h.can_submit hs.1 i
          refine ⟨a, fun x hx => ?_⟩
          simp only [act, hcase] at hx
          split_ifs at hx
          · obtain rfl := Option.some.inj hx
            exact ha
          · cases hx
      | _ =>
          obtain ⟨a, -⟩ := h.can_submit hs.1 0
          refine ⟨a, fun x hx => ?_⟩
          simp only [act, hcase] at hx
          cases hx
    obtain ⟨a, ha⟩ := hans
    obtain ⟨s', hs'⟩ := Option.ne_none_iff_exists'.mp (hmoves a)
    refine ⟨.run a, s', fun heq => (by cases heq), ha, ?_⟩
    unfold Pipeline.step
    rw [if_neg halive]
    exact hs'
  cases hcase : s.pc with
  | waiting =>
      refine ⟨.waitReturns 0, { s with pc := .fill 0 }, fun heq => (by cases heq),
        fun x hx => (by cases hx), ?_⟩
      unfold Pipeline.step
      rw [if_neg halive]
      dsimp only
      rw [if_pos hcase, if_pos rfl]
  | drain =>
      by_cases hidle : P.activeOps s.core ≤ 0
      · refine hrun (by rw [hcase]; exact fun heq => (by cases heq)) fun a heq => ?_
        simp only [Pipeline.run, hcase, if_pos hidle] at heq
        cases heq
      · obtain ⟨op, hbusy⟩ := h.active hs.1 (not_le.mp hidle)
        obtain ⟨a, result, core, hok, heq⟩ := h.can_complete hs.1 hbusy
        refine ⟨.complete a op result, { s with core }, fun heq => (by cases heq), ?_, ?_⟩
        · rintro x hx
          obtain rfl := Option.some.inj hx
          exact hok
        · unfold Pipeline.step
          rw [if_neg halive]
          dsimp only
          rw [callback, if_pos (Or.inr hcase), heq, Option.map_some]
  | returned => exact absurd hcase hpc
  | _ =>
      refine hrun (by rw [hcase]; exact fun heq => (by cases heq)) fun a heq => ?_
      simp only [Pipeline.run, hcase] at heq
      cases heq

/-- What no step raises: the measure, then the error and the interrupt still to come. -/
def potential (P : Pipeline σ A Op) (μ : σ → ℕ) (s : PipelineState σ) : ℕ :=
  3 * μ s.core + (if P.error s.core = 0 then 1 else 0) + if s.interrupted then 0 else 1

theorem potential_lt (h : P.Progress ok I busy μ) (hs : P.Kept I s) (hok : P.Allows ok s l)
    (hstep : P.Stepped s l s') {a : A} {op : Op} {result : ℤ} (hl : l = .complete a op result) :
    potential P μ s' < potential P μ s := by
  cases hstep with
  | callback a op result core hpc heq =>
      have hlt := h.complete_lt hs.1 (hok _ rfl) heq
      unfold potential
      dsimp only
      split_ifs <;> omega
  | _ => cases hl

theorem submit_le' (h : P.Progress ok I busy μ) {core : σ} {a : A} {i : ℕ} (hI : I core)
    (hfree : P.slotFree core i = true) (herr : P.error core = 0) (hok : ok core (.submit a i)) :
    3 * μ (P.submit a i core) + (if P.error (P.submit a i core) = 0 then 1 else 0) ≤
      3 * μ core + (if P.error core = 0 then 1 else 0) := by
  have hle := h.submit_le hI hfree herr hok
  rw [if_pos herr]
  split_ifs <;> omega

theorem potential_le (h : P.Progress ok I busy μ) (hs : P.Kept I s) (hok : P.Allows ok s l)
    (hstep : P.Stepped s l s') : potential P μ s' ≤ potential P μ s := by
  cases hstep with
  | first a i hpc hi hgoes =>
      have hact : P.act s (.run a) = some (.submit a i) := by
        simp only [act, hpc, if_pos (And.intro hi hgoes)]
      exact Nat.add_le_add_right
        (h.submit_le' hs.1 (hs.2 i hpc i (le_refl i) hi) hgoes.1 (hok _ hact)) _
  | refill a i hpc hi hfree hgoes =>
      have hact : P.act s (.run a) = some (.submit a i) := by
        simp only [act, hpc, if_pos (And.intro hi (And.intro hfree hgoes))]
      exact Nat.add_le_add_right (h.submit_le' hs.1 hfree hgoes.1 (hok _ hact)) _
  | callback a op result core hpc heq =>
      exact le_of_lt (h.potential_lt hs hok (.callback a op result core hpc heq) rfl)
  | fail errno herrno hpc =>
      have hne : P.error (P.setError s.core (-errno)) ≠ 0 := h.setError_ne (by omega)
      have hle : μ (P.setError s.core (-errno)) ≤ μ s.core := h.setError_le
      unfold potential
      dsimp only
      rw [if_neg hne]
      omega
  | interrupt hno =>
      unfold potential
      dsimp only
      rw [hno, if_pos rfl]
      exact Nat.add_le_add_left (Nat.zero_le _) _
  | _ => exact le_refl _

/-- How far the code is from the end, or from the next submission, while nothing completes. -/
def rank (P : Pipeline σ A Op) (s : PipelineState σ) : ℕ :=
  match s.pc with
  | .returned => 0
  | .drain => 1
  | .loop => if P.Quits s then 2 else P.depth + 5
  | .waiting => P.depth + 4
  | .initial i | .fill i =>
      if P.Quits s then 3 + (P.depth - i) else if i < P.depth then 2 else P.depth + 6

/-- With nothing in flight, a step lowers the potential or brings the code nearer to the end. -/
theorem idle_step (h : P.Progress ok I busy μ) (hs : P.Kept I s) (hok : P.Allows ok s l)
    (hstep : P.Stepped s l s') (hidle : ∀ op, ¬ busy s.core op) :
    potential P μ s' < potential P μ s ∨ rank P s' < rank P s := by
  have hdepth := h.depth_pos
  have hsubmit {a : A} {i : ℕ} (hi : i < P.depth) (hgoes : P.Goes s)
      (hoks : ok s.core (.submit a i)) (pc : PipelinePc) :
      potential P μ { s with core := P.submit a i s.core, pc } < potential P μ s ∨
        P.allDone s.core = true ∧ P.submit a i s.core = s.core := by
    cases hdone : P.allDone s.core with
    | true => exact .inr ⟨rfl, h.done_submit hs.1 hdone⟩
    | false =>
        left
        have hle := h.submit_le hs.1 (h.idle_free hs.1 hidle hi) hgoes.1 hoks
        unfold potential
        dsimp only
        rw [if_pos hgoes.1]
        rcases h.idle_submit hs.1 hidle hgoes.1 hdone hi hoks with hlt | hne
        · split_ifs <;> omega
        · rw [if_neg hne]
          omega
  cases hstep with
  | first a i hpc hi hgoes =>
      have hact : P.act s (.run a) = some (.submit a i) := by
        simp only [act, hpc, if_pos (And.intro hi hgoes)]
      rcases hsubmit hi hgoes (hok _ hact) (.initial (i + 1)) with hlt | ⟨hdone, hcore⟩
      · exact .inl hlt
      · right
        have hquit : P.Quits s := .inr (.inr hdone)
        rw [hcore]
        have hquit' : P.Quits { s with pc := .initial (i + 1) } := hquit
        simp only [rank, hpc, if_pos hquit, if_pos hquit']
        omega
  | refill a i hpc hi hfree hgoes =>
      have hact : P.act s (.run a) = some (.submit a i) := by
        simp only [act, hpc, if_pos (And.intro hi (And.intro hfree hgoes))]
      rcases hsubmit hi hgoes (hok _ hact) (.fill (i + 1)) with hlt | ⟨hdone, hcore⟩
      · exact .inl hlt
      · right
        have hquit : P.Quits s := .inr (.inr hdone)
        rw [hcore]
        have hquit' : P.Quits { s with pc := .fill (i + 1) } := hquit
        simp only [rank, hpc, if_pos hquit, if_pos hquit']
        omega
  | started a i hpc hno =>
      right
      by_cases hquit : P.Quits s
      · have hquit' : P.Quits { s with pc := .loop } := hquit
        simp only [rank, hpc, if_pos hquit, if_pos hquit']
        omega
      · have hquit' : ¬ P.Quits { s with pc := .loop } := hquit
        have hi : ¬ i < P.depth := fun hi => hno ⟨hi, (not_quits_iff.mp hquit).2⟩
        simp only [rank, hpc, if_neg hquit, if_neg hquit', if_neg hi]
        omega
  | enter a hpc hgo =>
      right
      simp only [rank, hpc, if_neg hgo]
      omega
  | leave a hpc hquit =>
      right
      simp only [rank, hpc, if_pos hquit]
      omega
  | skip a i hpc hi hno =>
      right
      have hquit : P.Quits s := not_not.mp fun hno' =>
        hno ⟨h.idle_free hs.1 hidle hi, (not_quits_iff.mp hno').2⟩
      have hquit' : P.Quits { s with pc := .fill (i + 1) } := hquit
      simp only [rank, hpc, if_pos hquit, if_pos hquit']
      omega
  | filled a i hpc hi =>
      right
      by_cases hquit : P.Quits s
      · have hquit' : P.Quits { s with pc := .loop } := hquit
        simp only [rank, hpc, if_pos hquit, if_pos hquit']
        omega
      · have hquit' : ¬ P.Quits { s with pc := .loop } := hquit
        simp only [rank, hpc, if_neg hquit, if_neg hquit', if_neg hi]
        omega
  | finish a hpc hactive =>
      right
      simp only [rank, hpc]
      omega
  | callback a op result core hpc heq =>
      exact .inl (h.potential_lt hs hok (.callback a op result core hpc heq) rfl)
  | woken hpc =>
      right
      simp only [rank, hpc, if_pos hdepth]
      split_ifs <;> omega
  | fail errno herrno hpc =>
      right
      simp only [rank, hpc]
      omega
  | interrupt hno =>
      left
      unfold potential
      dsimp only
      rw [hno, if_pos rfl, if_neg Bool.false_ne_true]
      omega

/-- **Termination**: no run in which every operation completes goes on for ever. -/
theorem terminates (h : P.Progress ok I busy μ) (hkeeps : P.Keeps ok I) (h₀ : I core₀)
    (hfree : ∀ i < P.depth, P.slotFree core₀ i = true)
    {f : ℕ → PipelineState σ} {l : ℕ → PipelineLabel A Op}
    (hrun : InfiniteRun ((P.system core₀).restrict (P.Allows ok)) f l)
    (hfair : ∀ n op, busy (f n).core op → ∃ m ≥ n, ∃ a result, l m = .complete a op result) :
    False := by
  have hkept (n : ℕ) : P.Kept I (f n) := hkeeps.reachable h₀ hfree (hrun.reachable n)
  have hok (n : ℕ) : P.Allows ok (f n) (l n) := (hrun.step n).1
  have hstep (n : ℕ) : P.Stepped (f n) (l n) (f (n + 1)) := step_stepped (hrun.step n).2
  obtain ⟨N, hmin⟩ : ∃ N, ∀ n, potential P μ (f N) ≤ potential P μ (f n) :=
    ⟨Function.argmin (fun n => potential P μ (f n)), fun n =>
      Function.argmin_le (fun n => potential P μ (f n)) n⟩
  have hanti : Antitone fun n => potential P μ (f n) :=
    antitone_nat_of_succ_le fun n => h.potential_le (hkept n) (hok n) (hstep n)
  have hconst (n : ℕ) (hn : N ≤ n) : ¬ potential P μ (f (n + 1)) < potential P μ (f n) := by
    have hle : potential P μ (f n) ≤ potential P μ (f N) := hanti hn
    have hge := hmin (n + 1)
    omega
  -- past `N` nothing is in flight: a completion would lower the potential once more
  have hidle (n : ℕ) (hn : N ≤ n) (op : Op) : ¬ busy (f n).core op := by
    intro hbusy
    obtain ⟨m, hm, a, result, hl⟩ := hfair n op hbusy
    exact hconst m (hn.trans hm) (h.potential_lt (hkept m) (hok m) (hstep m) hl)
  have hrank (k : ℕ) : rank P (f (N + k)) + k ≤ rank P (f N) := by
    induction k with
    | zero => exact le_refl _
    | succ k ih =>
        rcases h.idle_step (hkept _) (hok _) (hstep (N + k)) (hidle _ (Nat.le_add_right N k)) with
          hlt | hlt
        · exact absurd hlt (hconst _ (Nat.le_add_right N k))
        · rw [← Nat.add_assoc N k 1]
          omega
  have hlast := hrank (rank P (f N) + 1)
  omega

end Progress

end Pipeline

end Aura.Lib
