import Mathlib.Logic.Relation
import Mathlib.Order.Basic
import Mathlib.Tactic.SplitIfs

/-!
# Labelled transition systems and their runs

A `System` is a set of initial states and a labelled step relation. `Run` collects the labels of
a finite run, `Reachable` forgets them. Two rules carry every later safety proof:

* `Run.invariant` — a predicate kept by every step holds at the end of every run that starts in it;
* `Reachable.invariant` — the same from the initial states.

`System.restrict` keeps only the steps that meet a condition on the state before the step, so
"every run whose steps all meet the condition" is a run of the restricted system. `Simulation`
relates a concrete system to an abstract one in which a concrete step may take any number of
abstract steps, and `Simulation.run` lifts it to runs.
-/

namespace Aura.Lib

/-- A labelled transition system. -/
structure System (σ ℓ : Type*) where
  /-- The states a run may start in. -/
  init : σ → Prop
  /-- `step s l s'`: the system can move from `s` to `s'` with label `l`. -/
  step : σ → ℓ → σ → Prop

variable {σ τ ℓ κ : Type*}

/-- The system of an executable guarded step function: `f s l = none` when the step is disabled. -/
def System.ofFn (init : σ → Prop) (f : σ → ℓ → Option σ) : System σ ℓ where
  init := init
  step s l s' := f s l = some s'

/-- A finite run, with the labels of its steps in order. -/
inductive Run (S : System σ ℓ) : σ → List ℓ → σ → Prop
  | nil (s : σ) : Run S s [] s
  | snoc {s s' s'' : σ} {ls : List ℓ} {l : ℓ} :
      Run S s ls s' → S.step s' l s'' → Run S s (ls ++ [l]) s''

/-- The states at the end of some run from an initial state. -/
def Reachable (S : System σ ℓ) (s : σ) : Prop := ∃ s₀ ls, S.init s₀ ∧ Run S s₀ ls s

namespace Run

variable {S : System σ ℓ}

/-- A predicate that every step keeps holds at the end of a run that starts in it. -/
theorem invariant {I : σ → Prop} (hstep : ∀ s l s', I s → S.step s l s' → I s')
    {s s' : σ} {ls : List ℓ} (hrun : Run S s ls s') (h : I s) : I s' := by
  induction hrun with
  | nil => exact h
  | snoc _ hlast ih => exact hstep _ _ _ ih hlast

/-- A run of one step. -/
theorem single {s s' : σ} {l : ℓ} (h : S.step s l s') : Run S s [l] s' := by
  simpa using Run.snoc (Run.nil s) h

/-- Runs compose. -/
theorem append {s s' s'' : σ} {ls ms : List ℓ} (h₁ : Run S s ls s') (h₂ : Run S s' ms s'') :
    Run S s (ls ++ ms) s'' := by
  induction h₂ with
  | nil => simpa using h₁
  | snoc _ hlast ih =>
      rw [← List.append_assoc]
      exact Run.snoc ih hlast

/-- Where every label has a step given by `f`, any list of labels has a run. -/
theorem foldl {f : σ → ℓ → σ} (hf : ∀ s l, S.step s l (f s l)) (s : σ) (ls : List ℓ) :
    Run S s ls (ls.foldl f s) := by
  induction ls generalizing s with
  | nil => exact Run.nil s
  | cons l ls ih => exact (Run.single (hf s l)).append (ih (f s l))

/-- The last step of a run. -/
theorem exists_of_append {s s'' : σ} {ls : List ℓ} {l : ℓ} (h : Run S s (ls ++ [l]) s'') :
    ∃ s', Run S s ls s' ∧ S.step s' l s'' := by
  generalize hms : ls ++ [l] = ms at h
  cases h with
  | nil => exact absurd hms (List.concat_ne_nil _ _)
  | snoc hrun hstep =>
      obtain ⟨rfl, hl⟩ := List.append_inj' hms rfl
      obtain rfl := (List.cons.inj hl).1
      exact ⟨_, hrun, hstep⟩

/-- Where a label determines the step, the labels determine the run. -/
theorem deterministic (hdet : ∀ s l s₁ s₂, S.step s l s₁ → S.step s l s₂ → s₁ = s₂)
    {s s₁ s₂ : σ} {ls : List ℓ} (h₁ : Run S s ls s₁) (h₂ : Run S s ls s₂) : s₁ = s₂ := by
  induction h₁ generalizing s₂ with
  | nil =>
      generalize hms : ([] : List ℓ) = ms at h₂
      cases h₂ with
      | nil => rfl
      | snoc => exact absurd hms.symm (List.concat_ne_nil _ _)
  | snoc _ hstep ih =>
      obtain ⟨s', hrun, hstep'⟩ := h₂.exists_of_append
      exact hdet _ _ _ _ hstep (ih hrun ▸ hstep')

end Run

namespace Reachable

variable {S : System σ ℓ}

/-- A predicate of the initial states that every step keeps holds in every reachable state. -/
theorem invariant {I : σ → Prop} (hinit : ∀ s, S.init s → I s)
    (hstep : ∀ s l s', I s → S.step s l s' → I s') {s : σ} (h : Reachable S s) : I s := by
  obtain ⟨s₀, ls, h₀, hrun⟩ := h
  exact hrun.invariant hstep (hinit s₀ h₀)

/-- An initial state is reachable. -/
theorem of_init {s : σ} (h : S.init s) : Reachable S s := ⟨s, [], h, Run.nil s⟩

/-- One more step from a reachable state. -/
theorem step {s s' : σ} {l : ℓ} (h : Reachable S s) (hs : S.step s l s') : Reachable S s' := by
  obtain ⟨s₀, ls, h₀, hrun⟩ := h
  exact ⟨s₀, ls ++ [l], h₀, hrun.snoc hs⟩

end Reachable

/-! ## Runs that do not end -/

/-- An infinite run from an initial state, with the states and the labels at every time. -/
structure InfiniteRun (S : System σ ℓ) (f : ℕ → σ) (l : ℕ → ℓ) : Prop where
  init : S.init (f 0)
  step : ∀ n, S.step (f n) (l n) (f (n + 1))

/-- Every state of an infinite run is reachable. -/
theorem InfiniteRun.reachable {S : System σ ℓ} {f : ℕ → σ} {l : ℕ → ℓ} (h : InfiniteRun S f l)
    (n : ℕ) : Reachable S (f n) := by
  induction n with
  | zero => exact Reachable.of_init h.init
  | succ n ih => exact ih.step (h.step n)

/-- The system that may also stand still, at any time: a run of it may have come to its end. -/
def System.idling (S : System σ ℓ) : System σ (Option ℓ) where
  init := S.init
  step s l s' := (l = none ∧ s' = s) ∨ ∃ l', l = some l' ∧ S.step s l' s'

/-- What every step keeps, an infinite run keeps from some time on. -/
theorem InfiniteRun.mono {S : System σ ℓ} {f : ℕ → σ} {l : ℕ → ℓ} (h : InfiniteRun S f l)
    {I : σ → Prop} (hstep : ∀ n, I (f n) → S.step (f n) (l n) (f (n + 1)) → I (f (n + 1))) {n m : ℕ}
    (hnm : n ≤ m) (hn : I (f n)) : I (f m) := by
  induction hnm with
  | refl => exact hn
  | @step m _ ih => exact hstep m ih (h.step m)

/-- The states of a run that may stand still are reachable without standing still. -/
theorem Reachable.of_idling {S : System σ ℓ} {s : σ} (h : Reachable S.idling s) :
    Reachable S s := by
  refine Reachable.invariant (S := S.idling) (I := fun s => Reachable S s)
    (fun s hs => Reachable.of_init hs) ?_ h
  rintro s l s' hs (⟨-, rfl⟩ | ⟨l', -, hstep⟩)
  · exact hs
  · exact hs.step hstep

/-! ## Executing a step function -/

/-- Take the steps of `ls` one after the other; `none` if one of them is disabled. -/
def execute (f : σ → ℓ → Option σ) (s : σ) (ls : List ℓ) : Option σ := ls.foldlM f s

/-- An execution is a run. -/
theorem Run.of_execute {init : σ → Prop} {f : σ → ℓ → Option σ} {s s' : σ} {ls : List ℓ}
    (h : execute f s ls = some s') : Run (System.ofFn init f) s ls s' := by
  induction ls generalizing s with
  | nil =>
      cases h
      exact Run.nil _
  | cons l ls ih =>
      obtain ⟨t, ht, hrest⟩ := Option.bind_eq_some_iff.mp h
      exact (Run.single (S := System.ofFn init f) ht).append (ih hrest)

/-- What an execution from an initial state ends in is reachable. -/
theorem Reachable.of_execute {init : σ → Prop} {f : σ → ℓ → Option σ} {s s' : σ} {ls : List ℓ}
    (hinit : init s) (h : execute f s ls = some s') : Reachable (System.ofFn init f) s' :=
  ⟨s, ls, hinit, Run.of_execute h⟩

/-! ## Runs whose steps all meet a condition -/

/-- The system that only takes the steps allowed by `ok`, a condition on the state before the
step and its label. -/
def System.restrict (S : System σ ℓ) (ok : σ → ℓ → Prop) : System σ ℓ where
  init := S.init
  step s l s' := ok s l ∧ S.step s l s'

/-- A run of the restricted system is a run of the system. -/
theorem Run.of_restrict {S : System σ ℓ} {ok : σ → ℓ → Prop} {s s' : σ} {ls : List ℓ}
    (h : Run (S.restrict ok) s ls s') : Run S s ls s' := by
  induction h with
  | nil => exact Run.nil _
  | snoc _ hlast ih => exact ih.snoc hlast.2

/-- A step function that checks the condition takes steps of the restricted system. -/
theorem Run.of_guarded {init : σ → Prop} {f : σ → ℓ → Option σ} {ok : σ → ℓ → Prop}
    [∀ s l, Decidable (ok s l)] {s s' : σ} {ls : List ℓ}
    (h : execute (fun s l => if ok s l then f s l else none) s ls = some s') :
    Run ((System.ofFn init f).restrict ok) s ls s' := by
  induction ls generalizing s with
  | nil =>
      cases h
      exact Run.nil _
  | cons l ls ih =>
      obtain ⟨t, ht, hrest⟩ := Option.bind_eq_some_iff.mp h
      dsimp only at ht
      split_ifs at ht with hok
      exact (Run.single (S := (System.ofFn init f).restrict ok) ⟨hok, ht⟩).append (ih hrest)

/-- A condition on the labels only is a condition on the list of labels. -/
theorem Run.restrict_labels {S : System σ ℓ} {ok : σ → ℓ → Prop} {ok' : ℓ → Prop} {s s' : σ}
    {ls : List ℓ} (h : Run (S.restrict ok) s ls s') (hls : ∀ l ∈ ls, ok' l) :
    Run (S.restrict fun s l => ok' l ∧ ok s l) s ls s' := by
  induction h with
  | nil => exact Run.nil _
  | snoc _ hlast ih =>
      refine (ih fun l hl => hls l (List.mem_append_left _ hl)).snoc ⟨⟨?_, hlast.1⟩, hlast.2⟩
      exact hls _ (List.mem_append_right _ (List.mem_singleton_self _))

/-- **When a condition on the steps is exact**: if each step leads to a good state exactly when it
starts in one and meets the condition, a run ends in a good state exactly when all its steps meet
the condition. -/
theorem Run.restrict_iff {S : System σ ℓ} {ok : σ → ℓ → Prop} {inv good : σ → Prop}
    (hdet : ∀ s l s₁ s₂, S.step s l s₁ → S.step s l s₂ → s₁ = s₂)
    (hinv : ∀ s l s', inv s → S.step s l s' → inv s')
    (hgood : ∀ s l s', inv s → S.step s l s' → (good s' ↔ good s ∧ ok s l))
    {s s' : σ} {ls : List ℓ} (hrun : Run S s ls s') (hs : inv s) (hs' : good s) :
    good s' ↔ Run (S.restrict ok) s ls s' := by
  induction hrun with
  | nil => exact ⟨fun _ => Run.nil _, fun _ => hs'⟩
  | snoc hrun hlast ih =>
      rw [hgood _ _ _ (hrun.invariant hinv hs) hlast, ih]
      refine ⟨fun ⟨hfirst, hok⟩ => hfirst.snoc ⟨hok, hlast⟩, fun h => ?_⟩
      obtain ⟨t, hfirst, hok, -⟩ := h.exists_of_append
      obtain rfl := hrun.deterministic hdet hfirst.of_restrict
      exact ⟨hfirst, hok⟩

/-- The same where a bad state may turn good again: **all states of a run are good** exactly when
all its steps meet the condition, if each step from a good state leads to a good one exactly when it
meets it. -/
theorem Run.restrict_iff_of_prefix {S : System σ ℓ} {ok : σ → ℓ → Prop} (inv : σ → Prop)
    {good : σ → Prop}
    (hdet : ∀ s l s₁ s₂, S.step s l s₁ → S.step s l s₂ → s₁ = s₂)
    (hinv : ∀ s l s', inv s → S.step s l s' → inv s')
    (hgood : ∀ s l s', inv s → good s → S.step s l s' → (good s' ↔ ok s l))
    {s s' : σ} {ls : List ℓ} (hrun : Run S s ls s') (hs : inv s) (hs' : good s) :
    (∀ ms t, ms <+: ls → Run S s ms t → good t) ↔ Run (S.restrict ok) s ls s' := by
  induction hrun with
  | nil =>
      refine ⟨fun _ => Run.nil _, fun _ ms t hms hrun => ?_⟩
      obtain rfl := List.prefix_nil.1 hms
      exact hrun.deterministic hdet (Run.nil _) ▸ hs'
  | @snoc s' s'' ls l hrun hlast ih =>
      have hinv' : inv s' := hrun.invariant hinv hs
      constructor
      · intro h
        have hfirst := ih.1 fun ms t hms => h ms t (hms.trans (List.prefix_append ls [l]))
        have hgood' : good s' := h ls s' (List.prefix_append ls [l]) hrun
        have hgood'' : good s'' := h _ s'' List.prefix_rfl (hrun.snoc hlast)
        exact hfirst.snoc ⟨(hgood _ _ _ hinv' hgood' hlast).1 hgood'', hlast⟩
      · intro h ms t hms ht
        obtain ⟨u, hfirst, hok, -⟩ := h.exists_of_append
        obtain rfl := hrun.deterministic hdet hfirst.of_restrict
        have hall := ih.2 hfirst
        rcases List.prefix_concat_iff.1 hms with rfl | hms
        · obtain rfl := ht.deterministic hdet (hrun.snoc hlast)
          exact (hgood _ _ _ hinv' (hall ls s' List.prefix_rfl hrun) hlast).2 hok
        · exact hall ms t hms ht

/-- A step function is deterministic. -/
theorem System.ofFn_deterministic {init : σ → Prop} {f : σ → ℓ → Option σ} (s : σ) (l : ℓ)
    (s₁ s₂ : σ) (h₁ : (System.ofFn init f).step s l s₁) (h₂ : (System.ofFn init f).step s l s₂) :
    s₁ = s₂ :=
  Option.some.inj (h₁.symm.trans h₂)

/-- What such an execution ends in is reachable under the condition. -/
theorem Reachable.of_guarded {init : σ → Prop} {f : σ → ℓ → Option σ} {ok : σ → ℓ → Prop}
    [∀ s l, Decidable (ok s l)] {s s' : σ} {ls : List ℓ} (hinit : init s)
    (h : execute (fun s l => if ok s l then f s l else none) s ls = some s') :
    Reachable ((System.ofFn init f).restrict ok) s' :=
  ⟨s, ls, hinit, Run.of_guarded h⟩

/-! ## Simulation -/

/-- A relation between the states of two systems such that every concrete step is matched by a
run of the abstract one whose labels are a function of the concrete step's label and state. -/
structure Simulation (S : System σ ℓ) (T : System τ κ) where
  /-- The states that correspond. -/
  rel : σ → τ → Prop
  /-- Initial states have a corresponding initial state. -/
  init : ∀ s, S.init s → ∃ t, T.init t ∧ rel s t
  /-- A concrete step is matched by an abstract run. -/
  step : ∀ s l s' t, rel s t → S.step s l s' → ∃ ks t', Run T t ks t' ∧ rel s' t'

/-- Every reachable concrete state corresponds to a reachable abstract one. -/
theorem Simulation.reachable {S : System σ ℓ} {T : System τ κ} (sim : Simulation S T) {s : σ}
    (h : Reachable S s) : ∃ t, Reachable T t ∧ sim.rel s t := by
  refine Reachable.invariant (I := fun s => ∃ t, Reachable T t ∧ sim.rel s t) ?_ ?_ h
  · intro s hs
    obtain ⟨t, ht, hrel⟩ := sim.init s hs
    exact ⟨t, Reachable.of_init ht, hrel⟩
  · rintro s l s' ⟨t, ⟨t₀, ks₀, ht₀, hrun₀⟩, hrel⟩ hs
    obtain ⟨ks, t', hrun, hrel'⟩ := sim.step s l s' t hrel hs
    exact ⟨t', ⟨t₀, ks₀ ++ ks, ht₀, hrun₀.append hrun⟩, hrel'⟩

end Aura.Lib
