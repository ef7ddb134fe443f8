import Aura.Bffio.Stats
import Mathlib.Algebra.BigOperators.Group.Finset.Basic

/-!
# The accounts of BFFIO

What the counters of a worker say, as long as no two updates of a counter overlap.

* `BffioState.Apart` — the condition on a step.
* `BffioState.Inv` — under it each counter and the updates in progress add up.
* `bffio_accounts` — so at rest the counters are what they count, and the final drain ends.
* `bffio_lost_update` — without it a worker waits for ever.
-/

namespace Aura

open Lib

/-! ## Overlapping updates -/

namespace WorkerThread

variable (th : WorkerThread) (w : ℕ) (k : StatsCounter)

/-- Between the load and the store of a counter. -/
def holds : Bool :=
  match th.updating with
  | some ⟨owner, _, up :: _, some _⟩ => decide (owner = w ∧ up.counter = k)
  | _ => false

/-- In the callback of an operation of worker `w`. -/
def runsCallback : Bool :=
  match th.updating with
  | some u => decide (u.owner = w ∧ u.purpose = .callback)
  | none => false

end WorkerThread

/-- **The condition on a step** of a job with `n` workers: no update of a counter begins between the
load and the store of another one, no callback of a worker overlaps with the reset of its counters,
and the number of the bucket of a latency fits into an `int`. -/
def BffioState.Apart (n : ℕ) (s : BffioState) : BffioStep → Prop
  | .load t =>
      match (s.threads t).updating with
      | some ⟨owner, _, up :: _, none⟩ =>
          ∀ t' < n, (s.threads t').holds owner up.counter = false
      | _ => True
  | .callback _ op _ completionNs =>
      (∀ r ∈ s.reset, r.1 ≠ op.owner) ∧
        (op.submitTimeNs ≠ 0 → 0 ≤ latencyBucket (completionNs - op.submitTimeNs).toNat)
  | .resetWorker => ∀ w ∈ s.pendingResets.head?, ∀ t < n, (s.threads t).runsCallback w = false
  | _ => True

/-! ## What an update adds -/

/-- What an update adds to a counter that is only added to. -/
def StatsUpdate.delta (k : StatsCounter) : StatsUpdate → ℤ
  | .add k' n => if k' = k then n else 0
  | .lowerMin _ | .raiseMax _ => 0

/-- What a list of updates adds. -/
def deltas (k : StatsCounter) (ups : List StatsUpdate) : ℤ := (ups.map (·.delta k)).sum

theorem deltas_nil (k : StatsCounter) : deltas k [] = 0 := rfl

theorem deltas_cons (k : StatsCounter) (up : StatsUpdate) (ups : List StatsUpdate) :
    deltas k (up :: ups) = up.delta k + deltas k ups := by
  unfold deltas
  rw [List.map_cons, List.sum_cons]

theorem deltas_append (k : StatsCounter) (ups ups' : List StatsUpdate) :
    deltas k (ups ++ ups') = deltas k ups + deltas k ups' := by
  unfold deltas
  rw [List.map_append, List.sum_append]

/-- A counter that is only added to, and that resets set to 0 if at all. -/
def StatsCounter.Tracked (k : StatsCounter) : Prop :=
  k = .inflight ∨ k ≠ .latMaxNs ∧ (k, 0) ∈ statsReset

theorem mem_statsReset {k : StatsCounter} {v : ℤ} (h : (k, v) ∈ statsReset) :
    k ≠ .inflight ∧ (k ≠ .latMinNs → v = 0) := by
  unfold statsReset at h
  simp only [List.mem_append, List.mem_cons, List.mem_map, List.mem_range, Prod.mk.injEq,
    List.not_mem_nil, or_false] at h
  rcases h with ((⟨rfl, rfl⟩ | ⟨rfl, rfl⟩ | ⟨rfl, rfl⟩ | ⟨rfl, rfl⟩ | ⟨rfl, rfl⟩) |
    ⟨i, -, rfl, rfl⟩) | ⟨rfl, rfl⟩ | ⟨rfl, rfl⟩ | ⟨rfl, rfl⟩ | ⟨rfl, rfl⟩ | ⟨rfl, rfl⟩
  all_goals exact ⟨nofun, fun h => by first | rfl | exact absurd rfl h⟩

theorem StatsCounter.Tracked.ne {k : StatsCounter} (h : k.Tracked) :
    k ≠ .latMinNs ∧ k ≠ .latMaxNs := by
  rcases h with rfl | ⟨hmax, hmem⟩
  · exact ⟨nofun, nofun⟩
  · refine ⟨?_, hmax⟩
    rintro rfl
    unfold statsReset at hmem
    simp at hmem

/-- What is stored to a tracked counter is what was loaded and what the update adds. -/
theorem StatsUpdate.store_tracked {up : StatsUpdate} (h : up.counter.Tracked) (x : ℤ) :
    up.store x = some (x + up.delta up.counter) := by
  cases up with
  | add k n =>
      change some (x + n) = some (x + if k = k then n else 0)
      rw [if_pos rfl]
  | lowerMin v => exact absurd rfl h.ne.1
  | raiseMax v => exact absurd rfl h.ne.2

/-- An update adds nothing to the other counters. -/
theorem StatsUpdate.delta_of_ne {up : StatsUpdate} {k : StatsCounter} (h : up.counter ≠ k) :
    up.delta k = 0 := by
  cases up with
  | add k' n => exact if_neg h
  | lowerMin v => rfl
  | raiseMax v => rfl

/-- A callback lowers `inflight` once. -/
theorem deltas_inflight (c : Completion) : deltas .inflight c.callbackUpdates = -1 := by
  have hcount (bytes : ℕ) (isWrite : Bool) :
      deltas .inflight (statsRecordIoCountFast bytes isWrite) = 0 := by
    cases isWrite <;> rfl
  have hfast (l bytes : ℕ) (isWrite : Bool) :
      deltas .inflight (statsRecordIoFast l bytes isWrite) = 0 := by
    unfold statsRecordIoFast
    dsimp only
    rw [deltas_append, hcount]
    split_ifs <;> rfl
  unfold Completion.callbackUpdates
  rw [deltas_append, deltas_append]
  have h₁ : deltas .inflight (if c.counted then
      if c.sampled then statsRecordIoFast c.latencyNs c.bytes c.isWrite
      else statsRecordIoCountFast c.bytes c.isWrite else []) = 0 := by
    split_ifs
    · exact hfast _ _ _
    · exact hcount _ _
    · rfl
  have h₂ : deltas .inflight (if c.result < 0 then [.add .errors 1] else []) = 0 := by
    split_ifs <;> rfl
  rw [h₁, h₂]
  rfl

/-! ## The invariant -/

/-- The updates of a submission of thread `t` are of its own `inflight`, before the call or after
it. -/
def Updating.Ok (t : ℕ) (calling : Option BffioOp) (u : Updating) : Prop :=
  u.updates ≠ [] ∧
  match u.purpose with
  | .enter op => op.owner = t ∧ u.owner = t ∧ u.updates = [.add .inflight 1] ∧ calling = none
  | .leave => u.owner = t ∧ u.updates = [.add .inflight (-1)] ∧ calling = none
  | .callback => True

/-- The bucket of its latency is none before the first one. -/
def Completion.InRange (c : Completion) : Prop := c.sampled → 0 ≤ latencyBucket c.latencyNs

namespace WorkerThread

variable (th : WorkerThread) (w : ℕ) (k : StatsCounter)

/-- A worker that has left its main loop submits nothing. -/
def Steady : Prop :=
  th.phase ≠ .running → th.calling = none ∧ ∀ u, th.updating = some u → u.purpose = .callback

/-- The operations of worker `w` that the thread has counted, or is counting, and not handed over.
-/
def entries : ℤ :=
  (match th.calling with
    | some op => if op.owner = w then 1 else 0
    | none => 0) +
  match th.updating with
  | some ⟨_, .enter op, _, _⟩ => if op.owner = w then 1 else 0
  | _ => 0

/-- What the updates in progress have still to add to a counter of worker `w`. -/
def pending : ℤ :=
  match th.updating with
  | some u => if u.owner = w then deltas k u.updates else 0
  | none => 0

/-- What the thread has in progress for a counter. -/
def balance : ℤ := th.pending w k - if k = .inflight then th.entries w else 0

/-- A submission has nothing in progress for any counter but `inflight`. -/
theorem balance_of_not_callback {th : WorkerThread} {t w : ℕ} {k : StatsCounter}
    (hok : ∀ u, th.updating = some u → u.Ok t th.calling) (hcallback : th.runsCallback w = false)
    (hk : k ≠ .inflight) : th.balance w k = 0 := by
  have hzero (n : ℤ) : deltas k [.add .inflight n] = 0 := by
    rw [deltas_cons, @StatsUpdate.delta_of_ne (.add .inflight n) _ hk.symm]
    rfl
  unfold balance pending
  rw [if_neg hk, sub_zero]
  cases hu : th.updating with
  | none => rfl
  | some u =>
      have hshape := (hok u hu).2
      dsimp only
      split_ifs with howner
      · cases hpurpose : u.purpose with
        | enter op =>
            rw [hpurpose] at hshape
            rw [hshape.2.2.1]
            exact hzero 1
        | leave =>
            rw [hpurpose] at hshape
            rw [hshape.2.1]
            exact hzero (-1)
        | callback =>
            unfold runsCallback at hcallback
            rw [hu] at hcallback
            simp [howner, hpurpose] at hcallback
      · rfl

/-- Without updates and without a call there is nothing in progress. -/
theorem balance_of_idle {th : WorkerThread} (hu : th.updating = none) (hc : th.calling = none)
    (w : ℕ) (k : StatsCounter) : th.balance w k = 0 := by
  unfold balance pending entries
  rw [hu, hc]
  simp

theorem holds_of_none {th : WorkerThread} (hu : th.updating = none) (w : ℕ) (k : StatsCounter) :
    th.holds w k = false := by
  unfold holds
  rw [hu]

theorem holds_of_not_loaded {th : WorkerThread} {u : Updating} (hu : th.updating = some u)
    (hloaded : u.loaded = none) (w : ℕ) (k : StatsCounter) : th.holds w k = false := by
  obtain ⟨owner, purpose, ups, loaded⟩ := u
  obtain rfl : loaded = none := hloaded
  unfold holds
  rw [hu]
  cases ups <;> rfl

theorem holds_iff {th : WorkerThread} {w : ℕ} {k : StatsCounter} : th.holds w k = true ↔
    ∃ purpose up ups x, th.updating = some ⟨w, purpose, up :: ups, some x⟩ ∧ up.counter = k := by
  unfold holds
  constructor
  · intro h
    split at h
    · next owner purpose up ups x hu =>
        obtain ⟨rfl, rfl⟩ := of_decide_eq_true h
        exact ⟨purpose, up, ups, x, hu, rfl⟩
    · cases h
  · rintro ⟨purpose, up, ups, x, hu, rfl⟩
    rw [hu]
    exact decide_eq_true ⟨rfl, rfl⟩

end WorkerThread

namespace BffioState

variable (s : BffioState) (n : ℕ)

/-- What a counter counts: operations that are submitted and whose callback has not begun, and
otherwise completions. -/
def base (w : ℕ) (k : StatsCounter) : ℤ :=
  if k = .inflight then (s.outstanding.countP fun op => op.owner = w : ℕ)
  else ((s.completed w).map fun c => deltas k c.callbackUpdates).sum

/-- The counter is not waiting to be reset by a reset in progress. -/
def Open (w : ℕ) (k : StatsCounter) : Prop :=
  ∀ rest, s.reset = some (w, rest) → k ∉ rest.map (·.1)

/-- **The invariant.** -/
structure Inv : Prop where
  outside : ∀ t, n ≤ t → (s.threads t).updating = none ∧ (s.threads t).calling = none
  shape : ∀ t u, (s.threads t).updating = some u → u.Ok t (s.threads t).calling
  calling : ∀ t op, (s.threads t).calling = some op → op.owner = t
  value : ∀ t w purpose up ups x,
    (s.threads t).updating = some ⟨w, purpose, up :: ups, some x⟩ → x = s.stats w up.counter
  exclusive : ∀ t t' w k, (s.threads t).holds w k = true → (s.threads t').holds w k = true → t = t'
  sums : ∀ w k, k.Tracked → s.Open w k →
    s.stats w k + ∑ t ∈ Finset.range n, (s.threads t).balance w k = s.base w k
  reset : ∀ w rest, s.reset = some (w, rest) → (∀ t, (s.threads t).runsCallback w = false) ∧
    s.completed w = [] ∧ ∀ p ∈ rest, p ∈ statsReset
  settled : s.ramping = false → ∀ w < n, (s.rampResets = true → w ∉ s.pendingResets) →
    ∀ c ∈ s.completed w, c.counted = true
  ranges : ∀ w, ∀ c ∈ s.completed w, c.InRange
  phases : ∀ t, (s.threads t).Steady

variable {s : BffioState} {n : ℕ} {t : ℕ} {th : WorkerThread}

/-- One thread changes. -/
theorem sum_update (ht : t < n) (threads : ℕ → WorkerThread) (w : ℕ) (k : StatsCounter) :
    ∑ t' ∈ Finset.range n, (Function.update threads t th t').balance w k =
      ∑ t' ∈ Finset.range n, (threads t').balance w k +
        (th.balance w k - (threads t).balance w k) := by
  have hmem : t ∈ Finset.range n := Finset.mem_range.mpr ht
  rw [← Finset.add_sum_erase _ _ hmem, ← Finset.add_sum_erase _ (fun t' => (threads t').balance w k)
    hmem, Function.update_self]
  have hrest : ∑ t' ∈ (Finset.range n).erase t, (Function.update threads t th t').balance w k =
      ∑ t' ∈ (Finset.range n).erase t, (threads t').balance w k :=
    Finset.sum_congr rfl fun t' ht' => by rw [Function.update_of_ne (Finset.ne_of_mem_erase ht')]
  rw [hrest]
  omega

/-- **A step of one thread** that neither stores nor ends with a loaded value. -/
theorem Inv.move (h : s.Inv n) {s' : BffioState} (ht : t < n)
    (hthreads : s'.threads = Function.update s.threads t th) (hstats : s'.stats = s.stats)
    (hreset : s'.reset = s.reset)
    (hpending : s'.pendingResets = s.pendingResets ∧ s'.rampResets = s.rampResets)
    (hramping : s'.ramping = s.ramping)
    (hshape : ∀ u, th.updating = some u → u.Ok t th.calling)
    (hcalling : ∀ op, th.calling = some op → op.owner = t)
    (hloaded : ∀ u, th.updating = some u → u.loaded = none)
    (hbase : ∀ w k, k.Tracked →
      s'.base w k = s.base w k + (th.balance w k - (s.threads t).balance w k))
    (hcallback : ∀ w rest, s.reset = some (w, rest) →
      th.runsCallback w = false ∧ s'.completed w = s.completed w)
    (hsettled : s.ramping = false → ∀ w < n, (s.rampResets = true → w ∉ s.pendingResets) →
      ∀ c ∈ s'.completed w, c.counted = true)
    (hranges : ∀ w, ∀ c ∈ s'.completed w, c.InRange) (hsteady : th.Steady) : s'.Inv n := by
  have hholds (w : ℕ) (k : StatsCounter) : th.holds w k = false := by
    cases hu : th.updating with
    | none => exact WorkerThread.holds_of_none hu w k
    | some u => exact WorkerThread.holds_of_not_loaded hu (hloaded u hu) w k
  refine ⟨fun t' ht' => ?_, fun t' u hu => ?_, fun t' op hop => ?_,
    fun t' w purpose up ups x hu => ?_, fun t₁ t₂ w k h₁ h₂ => ?_, fun w k hk hopen => ?_,
    fun w rest hw => ?_,
    fun hramp w hw hnot => ?_, hranges, fun t' => ?_⟩
  · rw [hthreads, Function.update_of_ne (by omega)]
    exact h.outside t' ht'
  · rw [hthreads] at hu ⊢
    by_cases heq : t' = t
    · subst heq
      rw [Function.update_self] at hu ⊢
      exact hshape u hu
    · rw [Function.update_of_ne heq] at hu ⊢
      exact h.shape t' u hu
  · rw [hthreads] at hop
    by_cases heq : t' = t
    · subst heq
      rw [Function.update_self] at hop
      exact hcalling op hop
    · rw [Function.update_of_ne heq] at hop
      exact h.calling t' op hop
  · rw [hthreads] at hu
    rw [hstats]
    by_cases heq : t' = t
    · subst heq
      rw [Function.update_self] at hu
      cases hloaded _ hu
    · rw [Function.update_of_ne heq] at hu
      exact h.value t' w purpose up ups x hu
  · have hother {t' : ℕ} (hh : (s'.threads t').holds w k = true) :
        (s.threads t').holds w k = true := by
      rw [hthreads] at hh
      by_cases heq : t' = t
      · subst heq
        rw [Function.update_self, hholds] at hh
        cases hh
      · rwa [Function.update_of_ne heq] at hh
    exact h.exclusive t₁ t₂ w k (hother h₁) (hother h₂)
  · have hopen' : s.Open w k := fun rest hrest => hopen rest (by rw [hreset, hrest])
    rw [hstats, hthreads, sum_update ht, ← add_assoc, h.sums w k hk hopen', hbase w k hk]
  · rw [hreset] at hw
    obtain ⟨hno, hnil, hrest⟩ := h.reset w rest hw
    obtain ⟨hcb, hsame⟩ := hcallback w rest hw
    refine ⟨fun t' => ?_, hsame.trans hnil, hrest⟩
    rw [hthreads]
    by_cases heq : t' = t
    · subst heq
      rw [Function.update_self]
      exact hcb
    · rw [Function.update_of_ne heq]
      exact hno t'
  · rw [hramping] at hramp
    rw [hpending.1, hpending.2] at hnot
    exact hsettled hramp w hw hnot
  · rw [hthreads]
    by_cases heq : t' = t
    · subst heq
      rw [Function.update_self]
      exact hsteady
    · rw [Function.update_of_ne heq]
      exact h.phases t'

/-! ## Submissions and callbacks -/

theorem deltas_singleton (k : StatsCounter) (x : ℤ) :
    deltas k [.add .inflight x] = if k = .inflight then x else 0 := by
  by_cases hk : k = .inflight
  · subst hk
    simp [deltas, StatsUpdate.delta]
  · rw [if_neg hk, deltas_cons, @StatsUpdate.delta_of_ne (.add .inflight x) _ (Ne.symm hk)]
    rfl

theorem Inv.submit (h : s.Inv n) {op : BffioOp} (ht : t < n) (howner : op.owner = t)
    (hphase : (s.threads t).phase = .running) (hcalling : (s.threads t).calling = none)
    (hupdating : (s.threads t).updating = none) :
    (s.submit t op).Inv n := by
  refine h.move ht rfl rfl rfl ⟨rfl, rfl⟩ rfl (fun u hu => ?_) (fun op' hop => ?_) (fun u hu => ?_)
    (fun w k _ => ?_) (fun w rest hw => ⟨?_, rfl⟩) h.settled h.ranges
    (fun hne => absurd hphase hne)
  · cases hu
    exact ⟨List.cons_ne_nil _ _, howner, rfl, rfl, hcalling⟩
  · exact h.calling t op' hop
  · cases hu
    rfl
  · rw [WorkerThread.balance_of_idle hupdating hcalling]
    unfold WorkerThread.balance WorkerThread.pending WorkerThread.entries
    dsimp only
    rw [hcalling, deltas_singleton, howner]
    change s.base w k = _
    split_ifs <;> simp
  · exact decide_eq_false fun hno => nomatch hno.2

theorem Inv.accept (h : s.Inv n) {op : BffioOp} (ht : t < n)
    (hcalling : (s.threads t).calling = some op) (hupdating : (s.threads t).updating = none) :
    (s.accept t op).Inv n := by
  refine @Inv.move _ _ _ { s.threads t with calling := none } h _ ht rfl rfl rfl ⟨rfl, rfl⟩ rfl
    (fun u hu => ?_) (fun op' hop => nomatch hop) (fun u hu => ?_) (fun w k _ => ?_)
    (fun w rest hw => ⟨?_, rfl⟩)
    h.settled h.ranges (fun hne => ⟨rfl, (h.phases t hne).2⟩)
  · exact absurd (hupdating.symm.trans hu) (fun h => (nomatch h))
  · exact absurd (hupdating.symm.trans hu) (fun h => (nomatch h))
  · rw [@WorkerThread.balance_of_idle { s.threads t with calling := none } hupdating rfl]
    unfold WorkerThread.balance WorkerThread.pending WorkerThread.entries base BffioState.accept
    dsimp only [setThread]
    rw [hcalling, hupdating, List.countP_cons]
    split_ifs <;> simp_all
  · exact (h.reset w rest hw).1 t

theorem Inv.refuse (h : s.Inv n) {op : BffioOp} (ht : t < n)
    (hcalling : (s.threads t).calling = some op) (hupdating : (s.threads t).updating = none) :
    (s.refuse t).Inv n := by
  have howner := h.calling t op hcalling
  refine h.move ht rfl rfl rfl ⟨rfl, rfl⟩ rfl (fun u hu => ?_) (fun op' hop => nomatch hop)
    (fun u hu => ?_) (fun w k _ => ?_) (fun w rest hw => ⟨?_, rfl⟩) h.settled h.ranges
    (fun hne => ?_)
  · cases hu
    exact ⟨List.cons_ne_nil _ _, rfl, rfl, rfl⟩
  · cases hu
    rfl
  · unfold WorkerThread.balance WorkerThread.pending WorkerThread.entries
    dsimp only
    rw [hcalling, hupdating, deltas_singleton]
    dsimp only
    rw [howner]
    change s.base w k = _
    split_ifs <;> simp
  · exact decide_eq_false fun hno => nomatch hno.2
  · have hnone := (h.phases t hne).1
    rw [hcalling] at hnone
    cases hnone

/-- A callback takes an operation off the engine and adds a completion. -/
theorem base_beginCallback {c : Completion} (hmem : c.op ∈ s.outstanding) (w : ℕ)
    (k : StatsCounter) : (s.beginCallback t c).base w k =
      s.base w k + if c.op.owner = w then deltas k c.callbackUpdates else 0 := by
  unfold base BffioState.beginCallback
  dsimp only [setThread]
  by_cases hk : k = .inflight
  · rw [if_pos hk, if_pos hk, hk, deltas_inflight]
    have hperm := (List.perm_cons_erase hmem).countP_eq fun op => decide (op.owner = w)
    rw [List.countP_cons] at hperm
    rw [hperm]
    by_cases howner : c.op.owner = w
    · rw [if_pos howner, if_pos (decide_eq_true howner)]
      push_cast
      omega
    · rw [if_neg howner, if_neg (by simpa using howner)]
      rfl
  · rw [if_neg hk, if_neg hk]
    by_cases howner : c.op.owner = w
    · subst howner
      rw [if_pos rfl, Function.update_self, List.map_append, List.sum_append, List.map_singleton,
        List.sum_singleton]
    · rw [if_neg howner, Function.update_of_ne (Ne.symm howner), add_zero]

theorem Inv.beginCallback (h : s.Inv n) {c : Completion} (ht : t < n) (hmem : c.op ∈ s.outstanding)
    (hupdating : (s.threads t).updating = none) (hcounted : c.counted = !s.ramping)
    (hreset : ∀ r ∈ s.reset, r.1 ≠ c.op.owner) (hrange : c.InRange) :
    (s.beginCallback t c).Inv n := by
  have hne : c.callbackUpdates ≠ [] := List.append_ne_nil_of_right_ne_nil _ (List.cons_ne_nil _ _)
  refine h.move ht rfl rfl rfl ⟨rfl, rfl⟩ rfl (fun u hu => ?_) (fun op' hop => h.calling t op' hop)
    (fun u hu => ?_) (fun w k _ => ?_) (fun w rest hw => ⟨?_, ?_⟩) (fun hramp w hw hnot => ?_)
    (fun w c' hc' => ?_) (fun hne => ⟨(h.phases t hne).1, fun u hu => ?_⟩)
  · cases hu
    exact ⟨hne, trivial⟩
  · cases hu
    rfl
  · rw [base_beginCallback hmem]
    unfold WorkerThread.balance WorkerThread.pending WorkerThread.entries
    dsimp only
    rw [hupdating]
    dsimp only
    omega
  · exact decide_eq_false fun hno => hreset (w, rest) hw hno.1.symm
  · exact Function.update_of_ne (hreset (w, rest) hw) _ _
  · intro c' hc'
    unfold BffioState.beginCallback at hc'
    dsimp only at hc'
    by_cases heq : w = c.op.owner
    · subst heq
      rw [Function.update_self] at hc'
      rcases List.mem_append.mp hc' with hold | hnew
      · exact h.settled hramp _ hw hnot c' hold
      · rw [List.mem_singleton.mp hnew, hcounted, hramp]
        rfl
    · rw [Function.update_of_ne heq] at hc'
      exact h.settled hramp w hw hnot c' hc'
  · unfold BffioState.beginCallback at hc'
    dsimp only at hc'
    by_cases heq : w = c.op.owner
    · subst heq
      rw [Function.update_self] at hc'
      rcases List.mem_append.mp hc' with hold | hnew
      · exact h.ranges _ c' hold
      · rw [List.mem_singleton.mp hnew]
        exact hrange
    · rw [Function.update_of_ne heq] at hc'
      exact h.ranges w c' hc'
  · cases hu
    rfl

/-! ## Loads and stores -/

/-- A thread that updates is a worker. -/
theorem Inv.lt_of_updating (h : s.Inv n) {u : Updating} (hu : (s.threads t).updating = some u) :
    t < n := by
  by_contra hle
  have hnone := (h.outside t (not_lt.mp hle)).1
  rw [hu] at hnone
  cases hnone

/-- So is a thread in a call. -/
theorem Inv.lt_of_calling (h : s.Inv n) {op : BffioOp} (hop : (s.threads t).calling = some op) :
    t < n := by
  by_contra hle
  have hnone := (h.outside t (not_lt.mp hle)).2
  rw [hop] at hnone
  cases hnone

/-- **A load**: no other thread is between the load and the store of the counter. -/
theorem Inv.load (h : s.Inv n) {w : ℕ} {purpose : Purpose} {up : StatsUpdate}
    {ups : List StatsUpdate} (hu : (s.threads t).updating = some ⟨w, purpose, up :: ups, none⟩)
    (hapart : ∀ t' < n, (s.threads t').holds w up.counter = false) :
    (s.load t ⟨w, purpose, up :: ups, none⟩ up.counter).Inv n := by
  have ht := h.lt_of_updating hu
  obtain ⟨th, hth⟩ : ∃ th : WorkerThread, th = { s.threads t with
    updating := some ⟨w, purpose, up :: ups, some (s.stats w up.counter)⟩ } := ⟨_, rfl⟩
  have hthreads : (s.load t ⟨w, purpose, up :: ups, none⟩ up.counter).threads =
      Function.update s.threads t th := by rw [hth]; rfl
  have hnew : th.updating = some ⟨w, purpose, up :: ups, some (s.stats w up.counter)⟩ := by rw [hth]
  have hcalling : th.calling = (s.threads t).calling := by rw [hth]
  have hbalance (w' : ℕ) (k : StatsCounter) : th.balance w' k = (s.threads t).balance w' k := by
    unfold WorkerThread.balance WorkerThread.pending WorkerThread.entries
    rw [hnew, hu, hcalling]
    cases purpose <;> rfl
  have hcallback (w' : ℕ) : th.runsCallback w' = (s.threads t).runsCallback w' := by
    unfold WorkerThread.runsCallback
    rw [hnew, hu]
  have hholds {t' w' : ℕ} {k : StatsCounter}
      (hh : (Function.update s.threads t th t').holds w' k = true) :
      t' = t ∧ w' = w ∧ k = up.counter ∨ t' ≠ t ∧ (s.threads t').holds w' k = true := by
    by_cases heq : t' = t
    · subst heq
      rw [Function.update_self] at hh
      obtain ⟨p', up', ups', x, hu', rfl⟩ := WorkerThread.holds_iff.mp hh
      cases hnew.symm.trans hu'
      exact Or.inl ⟨rfl, rfl, rfl⟩
    · rw [Function.update_of_ne heq] at hh
      exact Or.inr ⟨heq, hh⟩
  have hfree {t' : ℕ} (hh : (s.threads t').holds w up.counter = true) : False := by
    obtain ⟨p', up', ups', x, hu', -⟩ := WorkerThread.holds_iff.mp hh
    rw [hapart t' (h.lt_of_updating hu')] at hh
    cases hh
  refine ⟨fun t' ht' => ?_, fun t' u hu' => ?_, fun t' op hop => ?_,
    fun t' w' p' up' ups' x hu' => ?_, fun t₁ t₂ w' k h₁ h₂ => ?_, fun w' k hk hopen => ?_,
    fun w' rest hw => ?_, h.settled, h.ranges, fun t' => ?_⟩
  · rw [hthreads, Function.update_of_ne (by omega)]
    exact h.outside t' ht'
  · rw [hthreads] at hu' ⊢
    by_cases heq : t' = t
    · subst heq
      rw [Function.update_self] at hu' ⊢
      cases hnew.symm.trans hu'
      have hok := h.shape t' _ hu
      rw [hcalling]
      exact hok
    · rw [Function.update_of_ne heq] at hu' ⊢
      exact h.shape t' u hu'
  · rw [hthreads] at hop
    by_cases heq : t' = t
    · subst heq
      rw [Function.update_self, hcalling] at hop
      exact h.calling t' op hop
    · rw [Function.update_of_ne heq] at hop
      exact h.calling t' op hop
  · rw [hthreads] at hu'
    by_cases heq : t' = t
    · subst heq
      rw [Function.update_self] at hu'
      cases hnew.symm.trans hu'
      rfl
    · rw [Function.update_of_ne heq] at hu'
      exact h.value t' w' p' up' ups' x hu'
  · rw [hthreads] at h₁ h₂
    rcases hholds h₁ with ⟨rfl, rfl, rfl⟩ | ⟨-, hold₁⟩
    · rcases hholds h₂ with ⟨rfl, -, -⟩ | ⟨-, hold₂⟩
      · rfl
      · exact (hfree hold₂).elim
    · rcases hholds h₂ with ⟨rfl, rfl, rfl⟩ | ⟨-, hold₂⟩
      · exact (hfree hold₁).elim
      · exact h.exclusive t₁ t₂ w' k hold₁ hold₂
  · rw [hthreads, sum_update ht, hbalance, sub_self, add_zero]
    exact h.sums w' k hk hopen
  · obtain ⟨hno, hnil, hrest⟩ := h.reset w' rest hw
    refine ⟨fun t' => ?_, hnil, hrest⟩
    rw [hthreads]
    by_cases heq : t' = t
    · subst heq
      rw [Function.update_self, hcallback]
      exact hno t'
    · rw [Function.update_of_ne heq]
      exact hno t'
  · rw [hthreads]
    by_cases heq : t' = t
    · subst heq
      rw [Function.update_self]
      intro hne
      obtain ⟨hnone, hpurpose⟩ := h.phases t' (by rwa [hth] at hne)
      refine ⟨hcalling.trans hnone, fun u hu' => ?_⟩
      cases hnew.symm.trans hu'
      exact (hpurpose ⟨w, purpose, up :: ups, none⟩ hu :)
    · rw [Function.update_of_ne heq]
      exact h.phases t'

/-- What is in progress after a store. -/
theorem balance_advance {w : ℕ} {purpose : Purpose} {up : StatsUpdate} {ups : List StatsUpdate}
    {x : ℤ} (hu : th.updating = some ⟨w, purpose, up :: ups, some x⟩)
    (hok : Updating.Ok t th.calling ⟨w, purpose, up :: ups, some x⟩) (w' : ℕ) (k : StatsCounter) :
    (advance th ⟨w, purpose, up :: ups, some x⟩).balance w' k =
      th.balance w' k - if w = w' then up.delta k else 0 := by
  obtain ⟨-, hok⟩ := hok
  cases purpose with
  | enter op =>
      obtain ⟨-, -, hups, hcalling⟩ := hok
      cases hups
      unfold advance WorkerThread.balance WorkerThread.pending WorkerThread.entries
      dsimp only
      rw [hu, hcalling]
      dsimp only
      rw [deltas_cons]
      split_ifs <;> simp [deltas]
  | leave =>
      obtain ⟨-, hups, hcalling⟩ := hok
      cases hups
      unfold advance WorkerThread.balance WorkerThread.pending WorkerThread.entries
      dsimp only
      rw [hu, hcalling]
      dsimp only
      rw [deltas_cons]
      split_ifs <;> simp [deltas]
  | callback =>
      cases ups with
      | nil =>
          unfold advance WorkerThread.balance WorkerThread.pending WorkerThread.entries
          dsimp only
          rw [hu]
          dsimp only
          rw [deltas_cons]
          split_ifs <;> simp [deltas]
      | cons up' ups =>
          unfold advance WorkerThread.balance WorkerThread.pending WorkerThread.entries
          dsimp only
          rw [hu]
          dsimp only
          rw [deltas_cons k up]
          split_ifs <;> omega

/-- After its store a thread is between no load and store. -/
theorem advance_updating {u : Updating} (v : Updating) (hv : (advance th u).updating = some v) :
    v.loaded = none ∧ v.owner = u.owner ∧ v.purpose = u.purpose ∧ v.updates ≠ [] ∧
      ∃ up, u.updates = up :: v.updates := by
  unfold advance at hv
  split at hv
  · next up up' ups hups =>
      cases hv
      exact ⟨rfl, rfl, rfl, List.cons_ne_nil _ _, up, hups⟩
  · split at hv <;> cases hv

/-- A worker in its final drain is in a callback. -/
theorem steady_advance {u : Updating} (h : th.Steady) (hu : th.updating = some u) :
    (advance th u).Steady := by
  have hphase : (advance th u).phase = th.phase := by
    unfold advance
    split
    · rfl
    · split <;> rfl
  intro hne
  rw [hphase] at hne
  obtain ⟨hnone, hpurpose⟩ := h hne
  refine ⟨?_, fun v hv => (advance_updating v hv).2.2.1.trans (hpurpose u hu)⟩
  unfold advance
  split
  · exact hnone
  · rw [hpurpose u hu]
    exact hnone

/-- What a store makes of the counters. -/
theorem storeUpdate_stats {u : Updating} {up : StatsUpdate} {x : ℤ} (w : ℕ) (k : StatsCounter) :
    (s.storeUpdate t u up x).stats w k =
      if w = u.owner ∧ k = up.counter then (up.store x).getD (s.stats w k) else s.stats w k := by
  unfold storeUpdate
  cases up.store x with
  | none => split_ifs <;> rfl
  | some v =>
      change
        Function.update s.stats u.owner (Function.update (s.stats u.owner) up.counter v) w k = _
      by_cases hw : w = u.owner
      · subst hw
        rw [Function.update_self]
        by_cases hk : k = up.counter
        · subst hk
          rw [Function.update_self, if_pos ⟨rfl, rfl⟩]
          rfl
        · rw [Function.update_of_ne hk, if_neg fun hno => hk hno.2]
      · rw [Function.update_of_ne hw, if_neg fun hno => hw hno.1]

theorem storeUpdate_same {u : Updating} {up : StatsUpdate} {x : ℤ} :
    (s.storeUpdate t u up x).threads = Function.update s.threads t (advance (s.threads t) u) ∧
    (s.storeUpdate t u up x).outstanding = s.outstanding ∧
    (s.storeUpdate t u up x).completed = s.completed ∧
    (s.storeUpdate t u up x).reset = s.reset ∧
    ((s.storeUpdate t u up x).pendingResets = s.pendingResets ∧
      (s.storeUpdate t u up x).rampResets = s.rampResets) ∧
    (s.storeUpdate t u up x).ramping = s.ramping := by
  unfold storeUpdate
  cases up.store x <;> exact ⟨rfl, rfl, rfl, rfl, ⟨rfl, rfl⟩, rfl⟩

/-- **A store** adds what its update says, as nobody wrote to the counter since the load. -/
theorem Inv.store (h : s.Inv n) {w : ℕ} {purpose : Purpose} {up : StatsUpdate}
    {ups : List StatsUpdate} {x : ℤ}
    (hu : (s.threads t).updating = some ⟨w, purpose, up :: ups, some x⟩) :
    (s.storeUpdate t ⟨w, purpose, up :: ups, some x⟩ up x).Inv n := by
  have ht := h.lt_of_updating hu
  have hok := h.shape t _ hu
  have hx := h.value t w purpose up ups x hu
  obtain ⟨hthreads, hout, hcompleted, hreset, hpending, hramping⟩ :=
    @storeUpdate_same s t ⟨w, purpose, up :: ups, some x⟩ up x
  obtain ⟨th, hth⟩ : ∃ th, th = advance (s.threads t) ⟨w, purpose, up :: ups, some x⟩ := ⟨_, rfl⟩
  rw [← hth] at hthreads
  have hself : (s.threads t).holds w up.counter = true :=
    WorkerThread.holds_iff.mpr ⟨purpose, up, ups, x, hu, rfl⟩
  have hnew (w' : ℕ) (k : StatsCounter) : th.holds w' k = false := by
    cases hv : th.updating with
    | none => exact WorkerThread.holds_of_none hv w' k
    | some v =>
        rw [hth] at hv
        have hloaded := (advance_updating v hv).1
        rw [← hth] at hv
        exact WorkerThread.holds_of_not_loaded hv hloaded w' k
  have hold {t' w' : ℕ} {k : StatsCounter}
      (hh : (Function.update s.threads t th t').holds w' k = true) :
      t' ≠ t ∧ (s.threads t').holds w' k = true := by
    by_cases heq : t' = t
    · subst heq
      rw [Function.update_self, hnew] at hh
      cases hh
    · rw [Function.update_of_ne heq] at hh
      exact ⟨heq, hh⟩
  refine ⟨fun t' ht' => ?_, fun t' v hv => ?_, fun t' op hop => ?_,
    fun t' w' p' up' ups' x' hv => ?_, fun t₁ t₂ w' k h₁ h₂ => ?_, fun w' k hk hopen => ?_,
    fun w' rest hw => ?_, fun hramp w' hw hnot => ?_, fun w' c hc => ?_, fun t' => ?_⟩
  · rw [hthreads, Function.update_of_ne (by omega)]
    exact h.outside t' ht'
  · rw [hthreads] at hv ⊢
    by_cases heq : t' = t
    · subst heq
      rw [Function.update_self] at hv ⊢
      rw [hth] at hv
      obtain ⟨-, howner, hpurpose, hne, up', hups⟩ := advance_updating v hv
      refine ⟨hne, ?_⟩
      rw [hpurpose]
      obtain ⟨-, hok⟩ := hok
      cases purpose with
      | enter op =>
          cases hups
          exact absurd (List.cons.inj hok.2.2.1).2 hne
      | leave =>
          cases hups
          exact absurd (List.cons.inj hok.2.1).2 hne
      | callback => trivial
    · rw [Function.update_of_ne heq] at hv ⊢
      exact h.shape t' v hv
  · rw [hthreads] at hop
    by_cases heq : t' = t
    · subst heq
      rw [Function.update_self, hth] at hop
      unfold advance at hop
      split at hop
      · exact h.calling t' op hop
      · split at hop
        · next op' hpurpose =>
            obtain rfl : purpose = .enter op' := hpurpose
            cases hop
            exact hok.2.1
        · exact h.calling t' op hop
    · rw [Function.update_of_ne heq] at hop
      exact h.calling t' op hop
  · have hh : (Function.update s.threads t th t').holds w' up'.counter = true := by
      rw [← hthreads]
      exact WorkerThread.holds_iff.mpr ⟨p', up', ups', x', hv, rfl⟩
    obtain ⟨hne, hh⟩ := hold hh
    rw [hthreads, Function.update_of_ne hne] at hv
    rw [storeUpdate_stats, if_neg, h.value t' w' p' up' ups' x' hv]
    rintro ⟨hw', hk⟩
    dsimp only at hw'
    subst hw'
    rw [hk] at hh
    exact hne (h.exclusive t' t _ _ hh hself)
  · rw [hthreads] at h₁ h₂
    exact h.exclusive t₁ t₂ w' k (hold h₁).2 (hold h₂).2
  · have hopen' : s.Open w' k := fun rest hrest => hopen rest (by rw [hreset, hrest])
    have hsum := h.sums w' k hk hopen'
    have hbase :
        (s.storeUpdate t ⟨w, purpose, up :: ups, some x⟩ up x).base w' k = s.base w' k := by
      unfold base
      rw [hout, hcompleted]
    have hstats : (s.storeUpdate t ⟨w, purpose, up :: ups, some x⟩ up x).stats w' k =
        s.stats w' k + if w = w' then up.delta k else 0 := by
      rw [storeUpdate_stats]
      dsimp only
      by_cases hcounter : w' = w ∧ k = up.counter
      · obtain ⟨rfl, rfl⟩ := hcounter
        rw [if_pos ⟨rfl, rfl⟩, if_pos rfl, StatsUpdate.store_tracked hk, hx]
        rfl
      · rw [if_neg hcounter]
        split_ifs with hw
        · rw [StatsUpdate.delta_of_ne fun hk' => hcounter ⟨hw.symm, hk'.symm⟩, add_zero]
        · rw [add_zero]
    have hbalance : th.balance w' k =
        (s.threads t).balance w' k - if w = w' then up.delta k else 0 := by
      rw [hth]
      exact balance_advance hu hok w' k
    rw [hstats, hthreads, sum_update ht, hbalance, hbase]
    omega
  · rw [hreset] at hw
    obtain ⟨hno, hnil, hrest⟩ := h.reset w' rest hw
    rw [hcompleted]
    refine ⟨fun t' => ?_, hnil, hrest⟩
    rw [hthreads]
    by_cases heq : t' = t
    · subst heq
      rw [Function.update_self]
      have hcb := hno t'
      unfold WorkerThread.runsCallback at hcb ⊢
      rw [hu] at hcb
      cases hv : th.updating with
      | none => rfl
      | some v =>
          rw [hth] at hv
          obtain ⟨-, howner, hpurpose, -⟩ := advance_updating v hv
          dsimp only at hcb ⊢
          rw [howner, hpurpose]
          exact hcb
    · rw [Function.update_of_ne heq]
      exact hno t'
  · rw [hramping] at hramp
    rw [hpending.1, hpending.2] at hnot
    rw [hcompleted]
    exact h.settled hramp w' hw hnot
  · rw [hcompleted] at hc
    exact h.ranges w' c hc
  · rw [hthreads]
    by_cases heq : t' = t
    · subst heq
      rw [Function.update_self, hth]
      exact steady_advance (h.phases t') hu
    · rw [Function.update_of_ne heq]
      exact h.phases t'

/-! ## Phases and resets -/

theorem Inv.setPhase (h : s.Inv n) (ht : t < n) (hcalling : (s.threads t).calling = none)
    (hupdating : (s.threads t).updating = none)
    (phase : WorkerPhase) : (s.setThread t { s.threads t with phase }).Inv n := by
  refine h.move ht rfl rfl rfl ⟨rfl, rfl⟩ rfl (fun u hu => h.shape t u hu)
    (fun op hop => h.calling t op hop) (fun u hu => ?_) (fun w k _ => ?_)
    (fun w rest hw => ⟨(h.reset w rest hw).1 t, rfl⟩) h.settled h.ranges
    (fun _ => ⟨hcalling, fun u hu => absurd (hupdating.symm.trans hu) (fun h => (nomatch h))⟩)
  · exact absurd (hupdating.symm.trans hu) (fun h => (nomatch h))
  · change s.base w k = s.base w k + ((s.threads t).balance w k - (s.threads t).balance w k)
    rw [sub_self, add_zero]

/-- The ramp period is over: all workers are to be reset. -/
theorem Inv.endRamp (h : s.Inv n) :
    Inv { s with ramping := false, pendingResets := List.range n, rampResets := true } n :=
  ⟨h.outside, h.shape, h.calling, h.value, h.exclusive, h.sums, h.reset,
    fun _ _ hw hnot => absurd (List.mem_range.mpr hw) (hnot rfl), h.ranges, h.phases⟩

/-- The rings have converged: all workers are to be reset again. -/
theorem Inv.converged (h : s.Inv n) (hpending : s.pendingResets = []) :
    Inv { s with pendingResets := List.range n, rampResets := false } n := by
  refine ⟨h.outside, h.shape, h.calling, h.value, h.exclusive, h.sums, h.reset,
    fun hramp w hw _ => h.settled hramp w hw fun _ => ?_, h.ranges, h.phases⟩
  rw [hpending]
  exact List.not_mem_nil

/-- **The reset of a worker begins** while none of its callbacks runs. -/
theorem Inv.resetWorker (h : s.Inv n) {w : ℕ} {ws : List ℕ} (hnone : s.reset = none)
    (hpending : s.pendingResets = w :: ws)
    (hapart : ∀ t < n, (s.threads t).runsCallback w = false) :
    Inv { s with
      reset := some (w, statsReset), pendingResets := ws
      completed := Function.update s.completed w [] } n := by
  refine ⟨h.outside, h.shape, h.calling, h.value, h.exclusive, fun w' k hk hopen => ?_,
    fun w' rest hw => ?_, fun hramp w' hw hnot c hc => ?_, fun w' c hc => ?_, h.phases⟩
  · have hsum := h.sums w' k hk (fun rest hrest => by rw [hnone] at hrest; cases hrest)
    refine hsum.trans ?_
    unfold base
    dsimp only
    split_ifs with hinflight
    · rfl
    · by_cases heq : w' = w
      · subst heq
        have hmem := (hk.resolve_left hinflight).2
        exact absurd (List.mem_map_of_mem hmem) (hopen statsReset rfl)
      · rw [Function.update_of_ne heq]
  · cases hw
    refine ⟨fun t => ?_, Function.update_self _ _ _, fun p hp => hp⟩
    by_cases ht : t < n
    · exact hapart t ht
    · unfold WorkerThread.runsCallback
      rw [(h.outside t (not_lt.mp ht)).1]
  · dsimp only at hnot hc
    by_cases heq : w' = w
    · subst heq
      rw [Function.update_self] at hc
      cases hc
    · rw [Function.update_of_ne heq] at hc
      refine h.settled hramp w' hw (fun hresets hin => ?_) c hc
      rw [hpending, List.mem_cons] at hin
      exact hin.elim heq (hnot hresets)
  · dsimp only at hc
    by_cases heq : w' = w
    · subst heq
      rw [Function.update_self] at hc
      cases hc
    · rw [Function.update_of_ne heq] at hc
      exact h.ranges w' c hc

/-- **A store of a reset.** -/
theorem Inv.resetCounter (h : s.Inv n) {w : ℕ} {k : StatsCounter} {v : ℤ}
    {rest : List (StatsCounter × ℤ)} (hreset : s.reset = some (w, (k, v) :: rest)) :
    Inv { s.setCounter w k v with reset := if rest = [] then none else some (w, rest) } n := by
  obtain ⟨hno, hnil, hmem⟩ := h.reset w _ hreset
  obtain ⟨hk, hv⟩ := mem_statsReset (hmem _ List.mem_cons_self)
  have hstats (w' : ℕ) (k' : StatsCounter) : (s.setCounter w k v).stats w' k' =
      if w' = w ∧ k' = k then v else s.stats w' k' := by
    unfold setCounter
    dsimp only
    by_cases hw : w' = w
    · subst hw
      rw [Function.update_self]
      by_cases hk' : k' = k
      · subst hk'
        rw [Function.update_self, if_pos ⟨rfl, rfl⟩]
      · rw [Function.update_of_ne hk', if_neg fun h => hk' h.2]
    · rw [Function.update_of_ne hw, if_neg fun h => hw h.1]
  refine ⟨h.outside, h.shape, h.calling, fun t w' purpose up ups x hu => ?_, h.exclusive,
    fun w' k' hk' hopen => ?_, fun w' rest' hw => ?_, h.settled, h.ranges, h.phases⟩
  · replace hu : (s.threads t).updating = some ⟨w', purpose, up :: ups, some x⟩ := hu
    have hx := h.value t w' purpose up ups x hu
    change x = (s.setCounter w k v).stats w' up.counter
    rw [hstats, if_neg, hx]
    rintro ⟨rfl, rfl⟩
    -- a thread that updates a counter of this worker is submitting
    have hshape := (h.shape t _ hu).2
    have hcb := hno t
    unfold WorkerThread.runsCallback at hcb
    rw [hu] at hcb
    dsimp only at hshape hcb
    cases purpose with
    | enter op =>
        cases hshape.2.2.1
        exact hk rfl
    | leave =>
        cases hshape.2.1
        exact hk rfl
    | callback => simp at hcb
  · change (s.setCounter w k v).stats w' k' + _ = s.base w' k'
    rw [hstats]
    by_cases heq : w' = w ∧ k' = k
    · obtain ⟨rfl, rfl⟩ := heq
      have hbalance : ∑ t ∈ Finset.range n, (s.threads t).balance w' k' = 0 :=
        Finset.sum_eq_zero fun t _ =>
          WorkerThread.balance_of_not_callback (fun u hu => h.shape t u hu) (hno t) hk
      rw [if_pos ⟨rfl, rfl⟩, hv hk'.ne.1]
      change 0 + ∑ t ∈ Finset.range n, (s.threads t).balance w' k' = _
      rw [hbalance]
      unfold base
      rw [if_neg hk, hnil]
      rfl
    · rw [if_neg heq]
      refine h.sums w' k' hk' fun rest' hrest' => ?_
      rw [hreset] at hrest'
      cases hrest'
      rw [List.map_cons, List.mem_cons, not_or]
      refine ⟨fun h => heq ⟨rfl, h⟩, ?_⟩
      by_cases hrest : rest = []
      · rw [hrest]
        exact List.not_mem_nil
      · exact hopen rest (if_neg hrest)
  · dsimp only at hw
    split_ifs at hw
    cases hw
    exact ⟨hno, hnil, fun p hp => hmem p (List.mem_cons_of_mem _ hp)⟩

/-! ## Runs -/

theorem inv_init (n : ℕ) (ramping : Bool) : Inv { ramping } n := by
  refine ⟨fun _ _ => ⟨rfl, rfl⟩, fun _ _ hu => (nomatch hu), fun _ _ hop => (nomatch hop),
    fun _ _ _ _ _ _ hu => (nomatch hu), fun _ _ _ _ hh => (nomatch hh), fun w k hk _ => ?_,
    fun _ _ hw => (nomatch hw), fun _ _ _ _ _ hc => (nomatch hc), fun _ _ hc => (nomatch hc),
    fun _ hne => absurd rfl hne⟩
  have hbalance : ∑ t ∈ Finset.range n, ({} : WorkerThread).balance w k = 0 :=
    Finset.sum_eq_zero fun t _ => WorkerThread.balance_of_idle rfl rfl w k
  change (if k = .latMinNs then (2 ^ 64 - 1 : ℤ) else 0) +
    ∑ t ∈ Finset.range n, ({} : WorkerThread).balance w k = _
  rw [if_neg hk.ne.1, hbalance]
  unfold base
  split_ifs <;> rfl

/-- **Every step that meets the condition keeps the invariant.** -/
theorem step_inv (h : s.Inv n) {a : BffioStep} {s' : BffioState} (hapart : s.Apart n a)
    (hs : s.step n a = some s') : s'.Inv n := by
  cases a with
  | submit t op =>
      obtain ⟨⟨ht, howner, hphase, hcalling, hupdating⟩, rfl⟩ :
          (t < n ∧ op.owner = t ∧ (s.threads t).phase = .running ∧ (s.threads t).calling = none ∧
            (s.threads t).updating = none) ∧ s.submit t op = s' := by
        simpa only [step, Option.ite_none_right_eq_some, Option.some.injEq] using hs
      exact h.submit ht howner hphase hcalling hupdating
  | accept t =>
      simp only [step] at hs
      split at hs
      · next op hcalling hupdating =>
          cases hs
          exact h.accept (h.lt_of_calling hcalling) hcalling hupdating
      · cases hs
  | refuse t =>
      simp only [step] at hs
      split at hs
      · next op hcalling hupdating =>
          cases hs
          exact h.refuse (h.lt_of_calling hcalling) hcalling hupdating
      · cases hs
  | callback t op result completionNs =>
      obtain ⟨⟨ht, hmem, -, hupdating⟩, rfl⟩ :
          (t < n ∧ op ∈ s.outstanding ∧ (s.threads t).phase ≠ .finished ∧
            (s.threads t).updating = none) ∧
          s.beginCallback t { op, result, completionNs, counted := !s.ramping } = s' := by
        simpa only [step, Option.ite_none_right_eq_some, Option.some.injEq] using hs
      refine h.beginCallback ht hmem hupdating rfl hapart.1 fun hsampled => hapart.2 ?_
      exact of_decide_eq_true hsampled
  | load t =>
      simp only [step] at hs
      split at hs
      · next hu =>
          cases hs
          unfold Apart at hapart
          dsimp only at hapart
          rw [hu] at hapart
          exact h.load hu hapart
      · cases hs
  | store t =>
      simp only [step] at hs
      split at hs
      · next hu =>
          cases hs
          exact h.store hu
      · cases hs
  | stop t =>
      obtain ⟨⟨ht, -, hcalling, hupdating⟩, rfl⟩ :
          (t < n ∧ (s.threads t).phase = .running ∧ (s.threads t).calling = none ∧
            (s.threads t).updating = none) ∧
          s.setThread t { s.threads t with phase := .draining } = s' := by
        simpa only [step, Option.ite_none_right_eq_some, Option.some.injEq] using hs
      exact h.setPhase ht hcalling hupdating .draining
  | drainTest t =>
      obtain ⟨⟨ht, hphase, hupdating, -⟩, rfl⟩ :
          (t < n ∧ (s.threads t).phase = .draining ∧ (s.threads t).updating = none ∧
            ¬ 0 < s.stats t .inflight) ∧
          s.setThread t { s.threads t with phase := .finished } = s' := by
        simpa only [step, Option.ite_none_right_eq_some, Option.some.injEq] using hs
      have hne : (s.threads t).phase ≠ .running := by
        rw [hphase]
        exact nofun
      exact h.setPhase ht (h.phases t hne).1 hupdating .finished
  | endRamp =>
      obtain ⟨-, rfl⟩ : (s.ramping ∧ s.pendingResets = [] ∧ s.reset = none) ∧
          { s with ramping := false, pendingResets := List.range n, rampResets := true } = s' := by
        simpa only [step, Option.ite_none_right_eq_some, Option.some.injEq] using hs
      exact h.endRamp
  | converged =>
      obtain ⟨⟨-, hpending, -⟩, rfl⟩ :
          (s.ramping = false ∧ s.pendingResets = [] ∧ s.reset = none) ∧
          { s with pendingResets := List.range n, rampResets := false } = s' := by
        simpa only [step, Option.ite_none_right_eq_some, Option.some.injEq] using hs
      exact h.converged hpending
  | resetWorker =>
      simp only [step] at hs
      split at hs
      · next w ws hnone hpending =>
          cases hs
          exact h.resetWorker hnone hpending (hapart w (by rw [hpending]; rfl))
      · cases hs
  | resetCounter =>
      simp only [step] at hs
      split at hs
      · next w k v rest hreset =>
          cases hs
          exact h.resetCounter hreset
      · cases hs

/-- **In every run whose steps all meet the condition** the invariant holds. -/
theorem bffioSystem_inv (hs : Reachable ((bffioSystem n).restrict (BffioState.Apart n)) s) :
    s.Inv n := by
  refine Reachable.invariant (I := fun s => s.Inv n) (fun s hinit => ?_)
    (fun s a s' h hstep => ?_) hs
  · obtain ⟨ramping, rfl⟩ := hinit
    exact inv_init n ramping
  · exact step_inv h hstep.1 hstep.2

end BffioState

/-! ## What the counters are at rest -/

/-- What a completion outside the ramp period adds to a counter. -/
def Completion.adds (c : Completion) : StatsCounter → ℤ
  | .readOps => if c.isWrite then 0 else 1
  | .writeOps => if c.isWrite then 1 else 0
  | .readBytes => if c.isWrite then 0 else c.bytes
  | .writeBytes => if c.isWrite then c.bytes else 0
  | .errors => if c.result < 0 then 1 else 0
  | .latHist b =>
      if c.sampled ∧ latencyBucket c.latencyNs < LAT_HIST_BUCKETS ∧ latencyBucket c.latencyNs = b
      then 1 else 0
  | .latOverflow => if c.sampled ∧ LAT_HIST_BUCKETS ≤ latencyBucket c.latencyNs then 1 else 0
  | .latSumNs => if c.sampled then c.latencyNs else 0
  | .latCount => if c.sampled then 1 else 0
  | .inflight | .latMinNs | .latMaxNs => 0

/-- The counters of completions: operations, bytes, errors and latencies. -/
def StatsCounter.Counts : StatsCounter → Prop
  | .inflight | .latMinNs | .latMaxNs => False
  | .latHist b => 0 ≤ b ∧ b < LAT_HIST_BUCKETS
  | _ => True

theorem StatsCounter.Counts.tracked {k : StatsCounter} (h : k.Counts) :
    k.Tracked ∧ k ≠ .inflight := by
  have hmem (hne : k ≠ .latMaxNs) (hin : (k, 0) ∈ statsReset) (hk : k ≠ .inflight) :
      k.Tracked ∧ k ≠ .inflight := ⟨Or.inr ⟨hne, hin⟩, hk⟩
  cases k with
  | inflight | latMinNs | latMaxNs => exact h.elim
  | latHist b =>
      refine hmem nofun ?_ nofun
      obtain ⟨hb, hlt⟩ := h
      lift b to ℕ using hb
      have hlt : (b : ℤ) < 200 := hlt
      unfold statsReset
      simp only [List.mem_append, List.mem_map, List.mem_range]
      exact Or.inl (Or.inr ⟨b, by omega, rfl⟩)
  | _ => exact hmem nofun (by unfold statsReset; simp) nofun

/-- What the count of an operation adds. -/
theorem deltas_count (k : StatsCounter) (bytes : ℕ) (isWrite : Bool) :
    deltas k (statsRecordIoCountFast bytes isWrite) =
      match k with
      | .readOps => if isWrite then 0 else 1
      | .writeOps => if isWrite then 1 else 0
      | .readBytes => if isWrite then 0 else bytes
      | .writeBytes => if isWrite then bytes else 0
      | _ => 0 := by
  unfold statsRecordIoCountFast deltas
  cases isWrite <;> cases k <;> simp [StatsUpdate.delta]

/-- What the record of a latency adds besides. -/
theorem deltas_latency (k : StatsCounter) (latencyNs bytes : ℕ) (isWrite : Bool) :
    deltas k (statsRecordIoFast latencyNs bytes isWrite) =
      deltas k (statsRecordIoCountFast bytes isWrite) +
      match k with
      | .latHist b =>
          if latencyBucket latencyNs < LAT_HIST_BUCKETS ∧ latencyBucket latencyNs = b then 1 else 0
      | .latOverflow => if LAT_HIST_BUCKETS ≤ latencyBucket latencyNs then 1 else 0
      | .latSumNs => latencyNs
      | .latCount => 1
      | _ => 0 := by
  unfold statsRecordIoFast
  dsimp only
  rw [deltas_append]
  congr 1
  unfold deltas
  by_cases hbucket : latencyBucket latencyNs ≥ LAT_HIST_BUCKETS
  · rw [if_pos hbucket]
    cases k <;> simp [StatsUpdate.delta, hbucket, not_lt.mpr hbucket]
  · rw [if_neg hbucket]
    cases k <;> simp [StatsUpdate.delta, hbucket, not_le.mp hbucket]

/-- The updates of a callback outside the ramp period add what the completion does. -/
theorem Completion.deltas_eq_adds {c : Completion} (hcounted : c.counted = true) {k : StatsCounter}
    (hk : k ≠ .inflight) : deltas k c.callbackUpdates = c.adds k := by
  unfold Completion.callbackUpdates
  rw [if_pos hcounted, deltas_append, deltas_append,
    deltas_cons k (.add .inflight (-1)), @StatsUpdate.delta_of_ne (.add .inflight (-1)) _ hk.symm]
  have herrors : deltas k (if c.result < 0 then [.add .errors 1] else []) =
      if c.result < 0 then (if .errors = k then 1 else 0) else 0 := by
    split_ifs with hresult hk'
    · rw [deltas_cons, ← hk']
      rfl
    · rw [deltas_cons, @StatsUpdate.delta_of_ne (.add .errors 1) _ hk']
      rfl
    · rfl
  rw [herrors]
  cases hsampled : c.sampled with
  | true =>
      rw [if_pos rfl, deltas_latency, deltas_count]
      cases k <;> simp [adds, deltas_nil, hsampled]
  | false =>
      rw [if_neg Bool.false_ne_true, deltas_count]
      cases k <;> simp [adds, deltas_nil, hsampled]

namespace BffioState

variable (s : BffioState)

/-- None of the `n` workers is in the middle of updates of the counters of worker `w`. -/
def Quiet (n w : ℕ) : Prop := ∀ t < n, ∀ u ∈ (s.threads t).updating, u.owner ≠ w

instance (n w : ℕ) : Decidable (s.Quiet n w) := by
  unfold Quiet
  infer_instance

/-- The operations of worker `w` that are submitted and not completed, the one in a call included.
-/
def inflightOf (w : ℕ) : ℕ :=
  s.outstanding.countP (fun op => op.owner = w) + if (s.threads w).calling.isSome then 1 else 0

/-- What the completions of worker `w` since its last reset come to. -/
def tally (w : ℕ) (k : StatsCounter) : ℤ := ((s.completed w).map fun c => c.adds k).sum

/-- The ramp period is over, its resets are past worker `w`, and no reset of `w` is in progress. -/
def Counting (w : ℕ) : Prop :=
  s.ramping = false ∧ (s.rampResets = true → w ∉ s.pendingResets) ∧ ∀ rest, s.reset ≠ some (w, rest)

variable {s : BffioState} {n w : ℕ}

/-- Nothing is in progress but the call of the worker itself. -/
theorem Inv.balance_of_quiet (h : s.Inv n) (hquiet : s.Quiet n w) {t : ℕ} (ht : t < n)
    (k : StatsCounter) : (s.threads t).balance w k =
      if t = w ∧ k = .inflight then (if (s.threads w).calling.isSome then -1 else 0) else 0 := by
  have hpending : (s.threads t).pending w k = 0 := by
    unfold WorkerThread.pending
    cases hu : (s.threads t).updating with
    | none => rfl
    | some u => exact if_neg (hquiet t ht u hu)
  have henter : (match (s.threads t).updating with
      | some ⟨_, .enter op, _, _⟩ => if op.owner = w then (1 : ℤ) else 0
      | _ => 0) = 0 := by
    split
    · next owner op ups loaded hu =>
        obtain ⟨hop, howner, -⟩ := (h.shape t _ hu).2
        exact if_neg fun hw => hquiet t ht _ hu (howner.trans (hop.symm.trans hw))
    · rfl
  unfold WorkerThread.balance WorkerThread.entries
  rw [hpending, henter]
  by_cases hk : k = .inflight
  · rw [if_pos hk]
    cases hop : (s.threads t).calling with
    | none =>
        split_ifs with ht hcall
        · rw [← ht.1, hop] at hcall
          cases hcall
        · rfl
        · rfl
    | some op =>
        have howner := h.calling t op hop
        by_cases ht : t = w
        · subst ht
          rw [if_pos ⟨rfl, hk⟩, hop]
          simp [howner]
        · rw [if_neg fun hno => ht hno.1]
          simp [howner, ht]
  · rw [if_neg hk, if_neg fun hno => hk hno.2]
    rfl

/-- `inflight` at rest. -/
theorem Inv.inflight_of_quiet (h : s.Inv n) (hw : w < n) (hquiet : s.Quiet n w) :
    s.stats w .inflight = s.inflightOf w := by
  have hsum := h.sums w .inflight (Or.inl rfl) fun rest hrest hmem => by
    obtain ⟨⟨k, v⟩, hp, hk⟩ := List.mem_map.mp hmem
    exact (mem_statsReset ((h.reset w rest hrest).2.2 _ hp)).1 hk
  have hone : ∑ t ∈ Finset.range n, (s.threads t).balance w .inflight =
      if (s.threads w).calling.isSome then -1 else 0 := by
    rw [Finset.sum_eq_single_of_mem w (Finset.mem_range.mpr hw) fun t ht hne => ?_]
    · rw [h.balance_of_quiet hquiet hw, if_pos ⟨rfl, rfl⟩]
    · rw [h.balance_of_quiet hquiet (Finset.mem_range.mp ht), if_neg fun hno => hne hno.1]
  rw [hone] at hsum
  unfold base at hsum
  rw [if_pos rfl] at hsum
  unfold inflightOf
  split_ifs at hsum ⊢ <;> push_cast <;> omega

/-- The other counters at rest. -/
theorem Inv.counts_of_quiet (h : s.Inv n) (hw : w < n) (hquiet : s.Quiet n w)
    (hcounting : s.Counting w) {k : StatsCounter} (hk : k.Counts) :
    s.stats w k = s.tally w k := by
  obtain ⟨hramping, hpending, hreset⟩ := hcounting
  have hsum := h.sums w k hk.tracked.1 fun rest hrest => absurd hrest (hreset rest)
  have hzero : ∑ t ∈ Finset.range n, (s.threads t).balance w k = 0 :=
    Finset.sum_eq_zero fun t ht => by
      rw [h.balance_of_quiet hquiet (Finset.mem_range.mp ht),
        if_neg fun hno => hk.tracked.2 hno.2]
  rw [hzero, add_zero] at hsum
  rw [hsum]
  unfold base tally
  rw [if_neg hk.tracked.2]
  refine congrArg List.sum (List.map_congr_left fun c hc => ?_)
  exact Completion.deltas_eq_adds (h.settled hramping w hw hpending c hc) hk.tracked.2

/-- A sampled latency is in one bucket or in the overflow. -/
theorem adds_latencies {c : Completion} (hc : c.InRange) :
    ∑ b ∈ Finset.range 200, c.adds (.latHist b) + c.adds .latOverflow = c.adds .latCount := by
  simp only [Completion.adds]
  cases hsampled : c.sampled with
  | false => simp
  | true =>
      obtain ⟨m, hm⟩ := Int.eq_ofNat_of_zero_le (hc hsampled)
      rw [hm]
      by_cases hlt : (m : ℤ) < LAT_HIST_BUCKETS
      · have hmem : m ∈ Finset.range 200 := by
          have hlt : (m : ℤ) < 200 := hlt
          exact Finset.mem_range.mpr (by omega)
        rw [Finset.sum_eq_single_of_mem m hmem fun b _ hb => ?_]
        · rw [if_pos ⟨rfl, hlt, rfl⟩, if_neg fun hno => not_lt.mpr hno.2 hlt]
          rfl
        · exact if_neg fun hno => hb (by exact_mod_cast hno.2.2.symm)
      · rw [Finset.sum_eq_zero fun b _ => if_neg fun hno => hlt hno.2.1,
          if_pos ⟨rfl, not_lt.mp hlt⟩]
        rfl

/-- Every completion is an operation, and every sampled one is in one bucket or in the overflow. -/
theorem Inv.tally_totals (h : s.Inv n) (w : ℕ) :
    s.tally w .readOps + s.tally w .writeOps = (s.completed w).length ∧
    ∑ b ∈ Finset.range 200, s.tally w (.latHist b) + s.tally w .latOverflow =
      s.tally w .latCount := by
  have hranges := h.ranges w
  unfold tally
  revert hranges
  induction s.completed w with
  | nil => exact fun _ => ⟨rfl, by simp⟩
  | cons c cs ih =>
      intro hranges
      obtain ⟨hops, hlatencies⟩ := ih fun c' hc' => hranges c' (List.mem_cons_of_mem _ hc')
      have hone : c.adds .readOps + c.adds .writeOps = 1 := by
        simp only [Completion.adds]
        split_ifs <;> rfl
      have hlat := adds_latencies (hranges c List.mem_cons_self)
      simp only [List.map_cons, List.sum_cons, Finset.sum_add_distrib, List.length_cons]
      push_cast
      constructor <;> omega

/-- Once the operations of a draining worker have completed, its drain ends. -/
theorem Inv.drained (h : s.Inv n) (hw : w < n) (hquiet : s.Quiet n w)
    (hphase : (s.threads w).phase = .draining) (hupdating : (s.threads w).updating = none)
    (hnone : ∀ op ∈ s.outstanding, op.owner ≠ w) : (s.step n (.drainTest w)).isSome := by
  have hcalling : (s.threads w).calling = none := by
    refine (h.phases w ?_).1
    rw [hphase]
    exact nofun
  have hzero : s.stats w .inflight = 0 := by
    rw [h.inflight_of_quiet hw hquiet]
    unfold inflightOf
    rw [hcalling, List.countP_eq_zero.mpr fun op hop => by simpa using hnone op hop]
    rfl
  simp only [step]
  rw [if_pos ⟨hw, hphase, hupdating, by rw [hzero]; exact lt_irrefl 0⟩]
  rfl

end BffioState

/-- **The accounts of BFFIO.** In every run whose steps all meet the condition, whenever no update
of the counters of worker `w` is in progress, its `inflight` is the number of its operations that
are submitted and not completed, outside the ramp period its other counters are what its completions
since the last reset come to, and its final drain ends once its operations have completed. -/
theorem bffio_accounts {n : ℕ} {s : BffioState}
    (hs : Reachable ((bffioSystem n).restrict (BffioState.Apart n)) s) {w : ℕ} (hw : w < n)
    (hquiet : s.Quiet n w) :
    s.stats w .inflight = s.inflightOf w ∧
    (s.Counting w → ∀ k : StatsCounter, k.Counts → s.stats w k = s.tally w k) ∧
    (s.Counting w →
      s.stats w .readOps + s.stats w .writeOps = (s.completed w).length ∧
      ∑ b ∈ Finset.range 200, s.stats w (.latHist b) + s.stats w .latOverflow =
        s.stats w .latCount) ∧
    ((s.threads w).phase = .draining → (s.threads w).updating = none →
      (∀ op ∈ s.outstanding, op.owner ≠ w) → (s.step n (.drainTest w)).isSome) := by
  have h := BffioState.bffioSystem_inv hs
  refine ⟨h.inflight_of_quiet hw hquiet, fun hcounting k hk =>
    h.counts_of_quiet hw hquiet hcounting hk,
    fun hcounting => ?_, h.drained hw hquiet⟩
  have hcount {k : StatsCounter} (hk : k.Counts) := h.counts_of_quiet hw hquiet hcounting hk
  obtain ⟨hops, hlatencies⟩ := h.tally_totals w
  rw [hcount (k := .readOps) trivial, hcount (k := .writeOps) trivial,
    hcount (k := .latOverflow) trivial, hcount (k := .latCount) trivial]
  refine ⟨hops, Eq.trans ?_ hlatencies⟩
  congr 1
  refine Finset.sum_congr rfl fun b hb => hcount (k := .latHist b) ⟨by omega, ?_⟩
  have hb := Finset.mem_range.mp hb
  change (b : ℤ) < 200
  omega

/-! ## Two workers -/

instance (n : ℕ) (s : BffioState) (a : BffioStep) : Decidable (s.Apart n a) := by
  cases a with
  | load t =>
      unfold BffioState.Apart
      dsimp only
      split <;> infer_instance
  | _ => unfold BffioState.Apart; infer_instance

/-- A read of worker 0. -/
def readOfZero : BffioOp := { owner := 0, ioSize := 4096, isWrite := false }

/-- Worker 0 submits a read, and worker 1 runs its callback. -/
def sharedRun : List BffioStep :=
  [.submit 0 readOfZero, .load 0, .store 0, .accept 0, .callback 1 readOfZero 4096 0, .load 1,
  .store 1,
    .load 1, .store 1, .load 1, .store 1]

/-- Worker 0 loads its `inflight` for a second read while worker 1 runs the callback of the first.
-/
def overlappingRun : List BffioStep :=
  [.submit 0 readOfZero, .load 0, .store 0, .accept 0, .submit 0 readOfZero, .load 0,
    .callback 1 readOfZero 4096 0, .load 1, .store 1, .load 1, .store 1, .load 1, .store 1,
    .store 0, .accept 0,
    .callback 1 readOfZero 4096 0, .load 1, .store 1, .load 1, .store 1, .load 1, .store 1, .stop 0]

/-- A read whose callback runs on the other worker is accounted for. -/
theorem bffio_accounts_shared : ∃ s, Reachable ((bffioSystem 2).restrict (BffioState.Apart 2)) s ∧
    s.stats 0 .inflight = 0 ∧ s.stats 0 .readOps = 1 ∧ s.stats 0 .readBytes = 4096 := by
  have hrun : (execute (fun s a => if BffioState.Apart 2 s a then s.step 2 a else none)
      { ramping := false } sharedRun).any (fun s => s.Quiet 2 0 ∧ s.ramping = false ∧
        s.rampResets = false ∧ s.reset = none ∧ s.inflightOf 0 = 0 ∧ s.tally 0 .readOps = 1 ∧
        s.tally 0 .readBytes = 4096) = true := by rfl
  obtain ⟨s, hs, hfacts⟩ := (Option.any_eq_true _ _).mp hrun
  obtain ⟨hquiet, hramping, hresets, hreset, hinflight, hops, hbytes⟩ := of_decide_eq_true hfacts
  have hreach : Reachable ((bffioSystem 2).restrict (BffioState.Apart 2)) s :=
    Reachable.of_guarded ⟨false, rfl⟩ hs
  obtain ⟨hinflight', hcounts, -⟩ := bffio_accounts hreach (w := 0) (by decide) hquiet
  have hcounts := hcounts ⟨hramping, by rw [hresets]; exact nofun, by rw [hreset]; exact nofun⟩
  refine ⟨s, hreach, ?_, (hcounts .readOps trivial).trans hops,
    (hcounts .readBytes trivial).trans hbytes⟩
  rw [hinflight', hinflight]
  rfl

/-- **A lost update.** Worker 0 stores an `inflight` that it loaded before a callback lowered it:
all its operations have completed, but its final drain waits for ever. -/
theorem bffio_lost_update : ∃ s, Reachable (bffioSystem 2) s ∧ s.Quiet 2 0 ∧ s.outstanding = [] ∧
    (s.threads 0).phase = .draining ∧ (s.threads 0).updating = none ∧
    s.stats 0 .inflight = 1 ∧ s.inflightOf 0 = 0 ∧ (s.step 2 (.drainTest 0)).isSome = false := by
  have hrun : (execute (BffioState.step · 2) { ramping := false } overlappingRun).any
      (fun s => s.Quiet 2 0 ∧ s.outstanding = [] ∧ (s.threads 0).phase = .draining ∧
        (s.threads 0).updating = none ∧ s.stats 0 .inflight = 1 ∧ s.inflightOf 0 = 0 ∧
        (s.step 2 (.drainTest 0)).isSome = false) = true := by rfl
  obtain ⟨s, hs, hfacts⟩ := (Option.any_eq_true _ _).mp hrun
  exact ⟨s, Reachable.of_execute ⟨false, rfl⟩ hs, of_decide_eq_true hfacts⟩

end Aura
