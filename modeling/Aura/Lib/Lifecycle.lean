import Mathlib.Data.List.Induction
import Mathlib.Tactic.Common

/-!
# Life cycles of reusable slots

A pool hands out slots `i : ι`. A slot that was handed out is either given back unused or starts a
job with a payload `k : κ`; a started job finishes once, with the payload it started with, and only
then is the slot retired to the pool. `Phase` is where a slot stands, `Event` is what can happen to
it, and `phaseAfter i h` replays a history `h` for the slot `i` (`none` if the history breaks the
protocol).

The facts below are the ones a pool's specification is made of: along a history that follows the
protocol every started job has finished exactly once unless it is the one still running, with the
payload it started with (`starts_eq`, `next_of_start`), and every job is retired before its slot is
handed out again (`acquire_of_retired`).
-/

namespace Aura.Lib.Lifecycle

/-- Where a slot stands. -/
inductive Phase (κ : Type*) where
  /-- In the pool. -/
  | free
  /-- Handed out, no job started. -/
  | held
  /-- Its job is running with payload `k`. -/
  | running (k : κ)
  /-- Its job has finished; not yet back in the pool. -/
  | finished
deriving DecidableEq, Repr

/-- What happens to slots. -/
inductive Event (ι κ : Type*) where
  | acquire (i : ι)
  | abandon (i : ι)
  | start (i : ι) (k : κ)
  | finish (i : ι) (k : κ)
  | retire (i : ι)
deriving DecidableEq, Repr

variable {ι κ : Type*}

namespace Event

/-- The slot an event is about. -/
def slot : Event ι κ → ι
  | acquire i | abandon i | start i _ | finish i _ | retire i => i

variable (i : ι) (k : κ)

@[simp] theorem slot_acquire : (acquire i : Event ι κ).slot = i := rfl
@[simp] theorem slot_abandon : (abandon i : Event ι κ).slot = i := rfl
@[simp] theorem slot_start : (start i k).slot = i := rfl
@[simp] theorem slot_finish : (finish i k).slot = i := rfl
@[simp] theorem slot_retire : (retire i : Event ι κ).slot = i := rfl

end Event

variable [DecidableEq κ]

/-- One event of the slot itself. -/
def Phase.step : Phase κ → Event ι κ → Option (Phase κ)
  | .free, .acquire _ => some .held
  | .held, .abandon _ => some .free
  | .held, .start _ k => some (.running k)
  | .running k, .finish _ k' => if k = k' then some .finished else none
  | .finished, .retire _ => some .free
  | _, _ => none

variable [DecidableEq ι]

/-- The phase of slot `i` after a history, starting from the pool; events of other slots do not
concern it. -/
def phaseAfter (i : ι) : List (Event ι κ) → Option (Phase κ) :=
  List.foldl (fun p e => if e.slot = i then p.bind (·.step e) else p) (some .free)

@[simp] theorem phaseAfter_nil (i : ι) : phaseAfter i ([] : List (Event ι κ)) = some .free := rfl

theorem phaseAfter_snoc (i : ι) (h : List (Event ι κ)) (e : Event ι κ) :
    phaseAfter i (h ++ [e]) =
      if e.slot = i then (phaseAfter i h).bind (·.step e) else phaseAfter i h := by
  simp [phaseAfter, List.foldl_append]

/-- A prefix of a history that follows the protocol follows it too. -/
theorem phaseAfter_isSome_of_append {i : ι} {h t : List (Event ι κ)}
    (hs : (phaseAfter i (h ++ t)).isSome) : (phaseAfter i h).isSome := by
  induction t using List.reverseRecOn with
  | nil => simpa using hs
  | append_singleton t e ih =>
      rw [← List.append_assoc, phaseAfter_snoc] at hs
      split at hs
      · refine ih ?_
        cases hp : phaseAfter i (h ++ t) with
        | none => simp [hp] at hs
        | some p => simp
      · exact ih hs

/-! ## Counting events of one slot -/

/-- The event starts a job. -/
def Event.isStart : Event ι κ → Bool
  | .start _ _ => true
  | _ => false

/-- The event finishes a job. -/
def Event.isFinish : Event ι κ → Bool
  | .finish _ _ => true
  | _ => false

/-- The event retires a slot. -/
def Event.isRetire : Event ι κ → Bool
  | .retire _ => true
  | _ => false

/-- Jobs started in slot `i`. -/
def starts (i : ι) (h : List (Event ι κ)) : ℕ := h.countP fun e => e.slot = i && e.isStart

/-- Jobs finished in slot `i`. -/
def finishes (i : ι) (h : List (Event ι κ)) : ℕ := h.countP fun e => e.slot = i && e.isFinish

/-- Jobs of slot `i` retired to the pool. -/
def retires (i : ι) (h : List (Event ι κ)) : ℕ := h.countP fun e => e.slot = i && e.isRetire

/-- How many jobs of the slot are started and not finished, in each phase. -/
def Phase.unfinished : Phase κ → ℕ
  | .running _ => 1
  | _ => 0

/-- How many jobs of the slot are started and not retired, in each phase. -/
def Phase.unretired : Phase κ → ℕ
  | .running _ | .finished => 1
  | _ => 0

omit [DecidableEq ι] in
/-- One event moves the two balances by what it starts, finishes and retires. -/
theorem Phase.step_balance {q p : Phase κ} {e : Event ι κ} (h : q.step e = some p) :
    q.unfinished + e.isStart.toNat = p.unfinished + e.isFinish.toNat ∧
      q.unretired + e.isStart.toNat = p.unretired + e.isRetire.toNat := by
  cases q <;> cases e <;> simp only [Phase.step, reduceCtorEq, Option.some.injEq] at h
  case free.acquire | held.abandon | held.start | finished.retire =>
    subst h
    exact ⟨rfl, rfl⟩
  case running.finish =>
    split at h
    · cases h
      exact ⟨rfl, rfl⟩
    · cases h

/-- Along a history that follows the protocol, the jobs started are the jobs finished plus the one
that is running, and the jobs retired plus the one that is not. -/
theorem starts_eq {i : ι} {h : List (Event ι κ)} {p : Phase κ} (hp : phaseAfter i h = some p) :
    starts i h = finishes i h + p.unfinished ∧ starts i h = retires i h + p.unretired := by
  induction h using List.reverseRecOn generalizing p with
  | nil =>
      obtain rfl : Phase.free = p := by simpa using hp
      simp [starts, finishes, retires, Phase.unfinished, Phase.unretired]
  | append_singleton h e ih =>
      rw [phaseAfter_snoc] at hp
      simp only [starts, finishes, retires, List.countP_append, List.countP_singleton] at ih ⊢
      by_cases he : e.slot = i
      · rw [if_pos he] at hp
        obtain ⟨q, hq, hstep⟩ := Option.bind_eq_some_iff.mp hp
        obtain ⟨hf, hr⟩ := ih hq
        obtain ⟨hbf, hbr⟩ := Phase.step_balance hstep
        have htoNat : ∀ b : Bool, b.toNat = if b = true then 1 else 0 := by
          intro b
          cases b <;> rfl
        rw [htoNat] at hbf hbr
        simp only [he, decide_true, Bool.true_and]
        grind
      · rw [if_neg he] at hp
        simpa [he] using ih hp

/-- A slot is handed out only when every job started in it has been retired. -/
theorem acquire_of_retired {i : ι} {h t : List (Event ι κ)}
    (hs : (phaseAfter i (h ++ .acquire i :: t)).isSome) : starts i h = retires i h := by
  have hsnoc : (phaseAfter i (h ++ [.acquire i])).isSome :=
    phaseAfter_isSome_of_append (t := t) (by simpa using hs)
  obtain ⟨p, hp⟩ := Option.isSome_iff_exists.mp hsnoc
  rw [phaseAfter_snoc, if_pos (Event.slot_acquire i)] at hp
  obtain ⟨q, hq, hstep⟩ := Option.bind_eq_some_iff.mp hp
  have hfree : q = .free := by
    cases q <;> simp [Phase.step] at hstep ⊢
  subst hfree
  simpa [Phase.unretired] using (starts_eq hq).2

/-- A running job is the next thing its slot hears of, or nothing is heard of the slot yet. -/
theorem next_of_running {i : ι} {k : κ} {h t : List (Event ι κ)}
    (hp : phaseAfter i h = some (.running k)) (hs : (phaseAfter i (h ++ t)).isSome) :
    (phaseAfter i (h ++ t) = some (.running k) ∧ ∀ e ∈ t, e.slot ≠ i) ∨
      ∃ t₁ t₂, t = t₁ ++ .finish i k :: t₂ ∧ ∀ e ∈ t₁, e.slot ≠ i := by
  induction t generalizing h with
  | nil => exact Or.inl ⟨by simpa using hp, by simp⟩
  | cons e t ih =>
      have hassoc : h ++ e :: t = (h ++ [e]) ++ t := by simp
      by_cases he : e.slot = i
      · -- the slot's own event can only be the finish of the running job
        right
        have hsnoc : (phaseAfter i (h ++ [e])).isSome :=
          phaseAfter_isSome_of_append (t := t) (by rwa [← hassoc])
        rw [phaseAfter_snoc, if_pos he, hp, Option.bind_some] at hsnoc
        cases e <;> simp only [Phase.step, Option.isSome_none, Bool.false_eq_true] at hsnoc
        case finish j k' =>
          split at hsnoc
          · next hk => exact ⟨[], t, by simp [hk, show j = i from he], by simp⟩
          · cases hsnoc
      · have hsnoc : phaseAfter i (h ++ [e]) = some (.running k) := by
          rw [phaseAfter_snoc, if_neg he, hp]
        rcases ih hsnoc (by rwa [← hassoc]) with ⟨hend, hrest⟩ | ⟨t₁, t₂, rfl, hrest⟩
        · exact Or.inl ⟨by rwa [hassoc], by simpa [he] using hrest⟩
        · exact Or.inr ⟨e :: t₁, t₂, rfl, by simpa [he] using hrest⟩

/-- **A started job finishes once**: the next event of its slot is its own finish, with the payload
it started with; until then the slot is running it. -/
theorem next_of_start {i : ι} {k : κ} {h t : List (Event ι κ)}
    (hs : (phaseAfter i (h ++ .start i k :: t)).isSome) :
    (phaseAfter i (h ++ .start i k :: t) = some (.running k) ∧ ∀ e ∈ t, e.slot ≠ i) ∨
      ∃ t₁ t₂, t = t₁ ++ .finish i k :: t₂ ∧ ∀ e ∈ t₁, e.slot ≠ i := by
  have hassoc : h ++ .start i k :: t = (h ++ [.start i k]) ++ t := by simp
  rw [hassoc] at hs ⊢
  obtain ⟨p, hp⟩ := Option.isSome_iff_exists.mp (phaseAfter_isSome_of_append hs)
  refine next_of_running ?_ hs
  rw [phaseAfter_snoc, if_pos (Event.slot_start i k)] at hp ⊢
  obtain ⟨q, hq, hstep⟩ := Option.bind_eq_some_iff.mp hp
  have hheld : q = .held := by
    cases q <;> simp [Phase.step] at hstep ⊢
  rw [hq, hheld]
  rfl

end Aura.Lib.Lifecycle
