import Aura.Adaptive.Invariant
import Mathlib.Algebra.Order.Group.Multiset

/-!
# The samples of a tick

What the double-buffered histograms hold, against an account of the recorded latencies that knows
nothing of buffers.

* `SampleLog` — the latencies recorded since the last swap, and the ones that earlier swaps closed.
* `HistPair.Accounts` — the pair holds exactly the former, in its active histogram.
* `histogram_accounting` — a tick computes its statistics over exactly what was recorded since the
  last swap or engagement, and every recorded latency lies in exactly one period.
-/

namespace Aura

open Lib

/-! ## The pair -/

namespace HistPair

/-- The active histogram holds `m`, and the other one is empty or awaits its reset. -/
structure Accounts (p : HistPair) (m : Multiset ℤ) : Prop where
  pending_ne : p.pendingReset ≠ some p.activeIndex
  active : p.active = .ofMultiset m
  clean : p.pendingReset = none → p.histograms (p.activeIndex + 1) = .empty

variable {p : HistPair} {m : Multiset ℤ}

theorem other_ne : ∀ i : Fin 2, i + 1 ≠ i := by decide

theorem eq_other : ∀ {i j : Fin 2}, i ≠ j → i = j + 1 := by decide

theorem accounts_init : ({} : HistPair).Accounts 0 where
  pending_ne := nofun
  active := rfl
  clean _ := rfl

/-- A latency goes to the active histogram. -/
theorem Accounts.record (h : p.Accounts m) (latencyUs : ℤ) :
    (p.record latencyUs).Accounts (latencyUs ::ₘ m) where
  pending_ne := h.pending_ne
  active := by
    rw [Histogram.ofMultiset_cons, ← h.active]
    exact Function.update_self _ _ _
  clean hnone := by
    refine (Function.update_of_ne (other_ne _) _ _).trans ?_
    exact h.clean hnone

theorem resetPending_activeIndex (p : HistPair) : p.resetPending.activeIndex = p.activeIndex := by
  unfold resetPending
  split <;> rfl

/-- The pending reset leaves the active histogram alone. -/
theorem Accounts.resetPending_active (h : p.Accounts m) :
    p.resetPending.active = .ofMultiset m := by
  rw [← h.active]
  unfold resetPending
  split
  · next i hi =>
      refine Function.update_of_ne (fun heq => h.pending_ne ?_) _ _
      rw [hi]
      exact congrArg some heq.symm
  · rfl

/-- After it the other histogram is empty. -/
theorem Accounts.resetPending_other (h : p.Accounts m) :
    p.resetPending.histograms (p.activeIndex + 1) = .empty := by
  unfold resetPending
  split
  · next i hi =>
      have hne : i ≠ p.activeIndex := fun heq => h.pending_ne (heq ▸ hi)
      rw [← eq_other hne]
      exact Function.update_self _ _ _
  · next hnone => exact h.clean hnone

/-- **A swap starts with an empty histogram.** -/
theorem Accounts.rotate (h : p.Accounts m) : p.rotate.Accounts 0 := by
  have hindex : p.rotate.activeIndex = p.activeIndex + 1 :=
    congrArg (· + 1) (resetPending_activeIndex p)
  refine ⟨?_, ?_, nofun⟩
  · rw [hindex]
    exact fun heq => other_ne p.activeIndex (Option.some.inj heq).symm
  · change p.resetPending.histograms p.rotate.activeIndex = .empty
    rw [hindex]
    exact h.resetPending_other

end HistPair

/-! ## The account -/

/-- The latencies recorded since the last swap or engagement, in microseconds, and those of the
periods before it, newest first. -/
structure SampleLog where
  current : Multiset ℤ := 0
  closed : List (Multiset ℤ) := []

/-- The period ends. -/
def SampleLog.close (log : SampleLog) : SampleLog where
  closed := log.current :: log.closed

/-- The latency that an operation records. -/
def ControllerOp.latencyUs : ControllerOp → Option ℤ
  | .recordCompletion latencyNs _ => some (Int.tdiv latencyNs 1000)
  | _ => none

/-- The latencies that a run records. -/
def recordedUs (ops : List ControllerOp) : Multiset ℤ := ↑(ops.filterMap ControllerOp.latencyUs)

namespace Controller

/-- Does a tick end the period? It does when it computes statistics, and when it engages AIMD. -/
def endsPeriod (c : Controller) (pendingCount : ℤ) (t : TickClock) : Bool :=
  (c.adaptiveTick pendingCount t).stats.isSome ||
    (c.passthroughMode && !(c.adaptiveTick pendingCount t).ctrl.passthroughMode)

/-- The account after one more operation. -/
def account (c : Controller) (log : SampleLog) : ControllerOp → SampleLog
  | .recordCompletion latencyNs _ =>
      { log with current := Int.tdiv latencyNs 1000 ::ₘ log.current }
  | .tick pendingCount t => if c.endsPeriod pendingCount t then log.close else log
  | _ => log

end Controller

/-- The controller with the account of what it recorded. -/
def sampledSystem : System (Controller × SampleLog) ControllerOp where
  init s := s.1.Initial ∧ s.2 = {}
  step s op s' := s' = (s.1.apply op, s.1.account s.2 op)

/-! ## The steps -/

namespace Controller

variable {c : Controller} {m : Multiset ℤ} {pendingCount : ℤ} {t : TickClock}

theorem startTick_histPair (c : Controller) (pendingCount : ℤ) (t : TickClock) :
    (c.startTick pendingCount t).histPair = c.histPair := (c.checkClock_eq t).1

theorem swapped_histPair (c : Controller) (pendingCount : ℤ) (t : TickClock) :
    (c.swapped pendingCount t).histPair = c.histPair.rotate :=
  congrArg HistPair.rotate (c.startTick_histPair pendingCount t)

/-- What the tick measures. -/
theorem tickStats_accounts (pendingCount : ℤ) (t : TickClock) (h : c.histPair.Accounts m) :
    (c.tickStats pendingCount t).sampleCount = m.card % 2 ^ 32 ∧
      (c.tickStats pendingCount t).p99Ms = (Histogram.ofMultiset m).p99 := by
  have hactive : (c.startTick pendingCount t).histPair.resetPending.active = .ofMultiset m := by
    rw [startTick_histPair]
    exact h.resetPending_active
  refine ⟨?_, congrArg Histogram.p99 hactive⟩
  refine (congrArg (fun x : Histogram => x.totalCount.toNat % 2 ^ 32) hactive).trans ?_
  rw [Histogram.ofMultiset_totalCount]
  change m.card % 2 ^ 64 % 2 ^ 32 = m.card % 2 ^ 32
  omega

/-- The statistics of a tick, if it computes any. -/
theorem stats_eq_tickStats {stats : TickStats}
    (h : (c.adaptiveTick pendingCount t).stats = some stats) :
    stats = c.tickStats pendingCount t := by
  cases hskip : c.skips t
  · cases hmode : c.passthroughMode
    · rw [(adaptiveTick_aimd _ hskip hmode).2.1] at h
      exact (Option.some.inj h).symm
    · obtain ⟨c₁, now, -, hcase⟩ := adaptiveTick_passthrough_cases pendingCount
        hskip hmode
      rcases hcase with ⟨hnone, -⟩ | ⟨hsome, -⟩
      · rw [hnone] at h
        cases h
      · rw [hsome] at h
        exact (Option.some.inj h).symm
  · rw [adaptiveTick_skipped _ hskip] at h
    cases h

theorem prepared_histPair (c : Controller) (pendingCount : ℤ) (t : TickClock) :
    (c.prepared pendingCount t).histPair = c.histPair.rotate := by
  rw [← c.swapped_histPair pendingCount t]
  unfold prepared optimizeBatch savePrevious
  split_ifs <;> rfl

theorem runPhase_histPair (c : Controller) (s : TickStats) :
    (c.runPhase s).2.histPair = c.histPair := by
  by_cases hphase : c.phase = .passthrough
  · unfold runPhase
    rw [hphase]
  · exact (runPhase_step c s hphase).frame.histPair

theorem checkReentry_histPair (c : Controller) (δ : ℤ) :
    (c.checkReentry δ).2.histPair = c.histPair := by
  rcases c.checkReentry_cases δ with ⟨-, heq⟩ | ⟨-, -, heq⟩ | ⟨-, -, -, heq⟩ | ⟨-, -, -, heq⟩ <;>
    rw [heq]

/-- A passthrough tick swaps when it engages AIMD. -/
theorem countPressure_histPair (c : Controller) (pressure : Bool) (now : ℤ) :
    ((c.countPressure pressure now).2.passthroughMode = c.passthroughMode ∧
      (c.countPressure pressure now).2.histPair = c.histPair) ∨
    ((c.countPressure pressure now).2.passthroughMode = false ∧
      (c.countPressure pressure now).2.histPair = c.histPair.rotate) := by
  rcases c.countPressure_cases pressure now with ⟨-, heq⟩ | ⟨-, -, heq⟩ | ⟨-, -, heq⟩ <;> rw [heq]
  · exact .inl ⟨rfl, rfl⟩
  · exact .inl ⟨rfl, rfl⟩
  · exact .inr ⟨rfl, rfl⟩

/-- A tick swaps the pair exactly when it ends the period. -/
theorem tick_histPair (c : Controller) (pendingCount : ℤ) (t : TickClock) :
    (c.endsPeriod pendingCount t = false ∧
      (c.adaptiveTick pendingCount t).ctrl.histPair = c.histPair) ∨
    (c.endsPeriod pendingCount t = true ∧
      ((c.adaptiveTick pendingCount t).ctrl.histPair = c.histPair.rotate ∨
        (c.adaptiveTick pendingCount t).ctrl.histPair = c.histPair.rotate.rotate)) := by
  unfold endsPeriod
  cases hskip : c.skips t
  · cases hmode : c.passthroughMode
    · obtain ⟨hctrl, hstats, -⟩ := adaptiveTick_aimd pendingCount hskip hmode
      refine .inr ⟨by rw [hstats]; rfl, .inl ?_⟩
      rw [hctrl]
      exact ((checkReentry_histPair _ _).trans (runPhase_histPair _ _)).trans
        (c.prepared_histPair pendingCount t)
    · obtain ⟨c₁, now, heq, hcase⟩ := adaptiveTick_passthrough_cases pendingCount
        hskip hmode
      have hcount := c₁.countPressure_histPair (c.underPressure pendingCount t) now
      rw [heq]
      rcases hcase with ⟨hnone, rfl⟩ | ⟨hsome, rfl⟩
      · have hpair := c.startTick_histPair pendingCount t
        have hmode₁ := (c.startTick_core pendingCount t).passthroughMode.trans hmode
        rw [hpair, hmode₁] at hcount
        rcases hcount with ⟨hafter, hpair'⟩ | ⟨hafter, hpair'⟩
        · exact .inl ⟨by rw [hnone, hafter]; rfl, hpair'⟩
        · exact .inr ⟨by rw [hnone, hafter]; rfl, .inl hpair'⟩
      · refine .inr ⟨by rw [hsome]; rfl, ?_⟩
        have hpair := c.swapped_histPair pendingCount t
        rcases hcount with ⟨-, hpair'⟩ | ⟨-, hpair'⟩
        · exact .inl (hpair'.trans hpair)
        · exact .inr (hpair'.trans (congrArg HistPair.rotate hpair))
  · rw [adaptiveTick_skipped _ hskip]
    refine .inl ⟨?_, (c.checkClock_eq t).1⟩
    rw [(c.checkClock_core t).passthroughMode, Bool.and_not_self]
    rfl

/-- **Every operation keeps the account.** -/
theorem apply_accounts {log : SampleLog} (h : c.histPair.Accounts log.current)
    (op : ControllerOp) : (c.apply op).histPair.Accounts (c.account log op).current := by
  cases op with
  | recordCompletion latencyNs bytes => exact h.record _
  | tick pendingCount t =>
      change (c.adaptiveTick pendingCount t).ctrl.histPair.Accounts
        (if c.endsPeriod pendingCount t then log.close else log).current
      rcases c.tick_histPair pendingCount t with ⟨hends, hpair⟩ | ⟨hends, hpair | hpair⟩ <;>
        rw [hpair, hends]
      · exact h
      · exact h.rotate
      · exact h.rotate.rotate
  | recordSubmit n =>
      change (c.recordSubmit n).histPair.Accounts _
      unfold recordSubmit
      split_ifs <;> exact h
  | setMinInFlight n =>
      change (c.setMinInFlight n).histPair.Accounts _
      unfold setMinInFlight
      split_ifs <;> exact h
  | setMaxP99Latency x =>
      change (c.setMaxP99Latency x).histPair.Accounts _
      unfold setMaxP99Latency
      split_ifs <;> exact h
  | setBatchThreshold n =>
      change (c.setBatchThreshold n).histPair.Accounts _
      unfold setBatchThreshold
      split_ifs <;> exact h

/-- Every latency that an operation records enters the account once. -/
theorem account_total (c : Controller) (log : SampleLog) (op : ControllerOp) :
    (c.account log op).current + (c.account log op).closed.sum =
      log.current + log.closed.sum + recordedUs [op] := by
  cases op with
  | recordCompletion latencyNs bytes =>
      change Int.tdiv latencyNs 1000 ::ₘ log.current + log.closed.sum =
        log.current + log.closed.sum + {Int.tdiv latencyNs 1000}
      rw [Multiset.cons_add, add_comm _ {_}, Multiset.singleton_add]
  | tick pendingCount t =>
      change (if c.endsPeriod pendingCount t then log.close else log).current +
        (if c.endsPeriod pendingCount t then log.close else log).closed.sum =
          log.current + log.closed.sum + 0
      rw [add_zero]
      split_ifs
      · change 0 + (log.current :: log.closed).sum = _
        rw [List.sum_cons, zero_add]
      · rfl
  | _ => exact (add_zero _).symm

end Controller

/-! ## The result -/

theorem recordedUs_append (ops : List ControllerOp) (op : ControllerOp) :
    recordedUs (ops ++ [op]) = recordedUs ops + recordedUs [op] := by
  unfold recordedUs
  rw [List.filterMap_append, Multiset.coe_add]

/-- In every run every recorded latency lies in one period, and the pair holds the current one. -/
theorem sampled_run {s₀ s : Controller × SampleLog} {ops : List ControllerOp}
    (h₀ : sampledSystem.init s₀) (hrun : Run sampledSystem s₀ ops s) :
    s.1.histPair.Accounts s.2.current ∧
      s.2.current + s.2.closed.sum = recordedUs ops := by
  induction hrun with
  | nil =>
      obtain ⟨hinit, hlog⟩ := h₀
      rw [hlog, hinit.histPair_eq]
      exact ⟨HistPair.accounts_init, rfl⟩
  | snoc _ hstep ih =>
      obtain ⟨hacc, htotal⟩ := ih
      rw [hstep, recordedUs_append, ← htotal]
      exact ⟨Controller.apply_accounts hacc _, Controller.account_total _ _ _⟩

/-- **Histogram accounting.** In every run each recorded latency lies in exactly one period. A tick
that computes statistics does so over exactly the latencies of the current period, which it ends.
The histogram that awaits its reset is not the active one, and the one that a swap activates is
empty. -/
theorem histogram_accounting {s₀ s : Controller × SampleLog} {ops : List ControllerOp}
    (h₀ : sampledSystem.init s₀) (hrun : Run sampledSystem s₀ ops s) :
    s.2.current + s.2.closed.sum = recordedUs ops ∧
      s.1.histPair.pendingReset ≠ some s.1.histPair.activeIndex ∧
      ∀ (pendingCount : ℤ) (t : TickClock),
        (∀ stats, (s.1.adaptiveTick pendingCount t).stats = some stats →
          s.1.endsPeriod pendingCount t = true ∧
            stats.sampleCount = s.2.current.card % 2 ^ 32 ∧
            stats.p99Ms = (Histogram.ofMultiset s.2.current).p99) ∧
        (s.1.endsPeriod pendingCount t = true →
          (s.1.adaptiveTick pendingCount t).ctrl.histPair.active = .empty) := by
  obtain ⟨hacc, htotal⟩ := sampled_run h₀ hrun
  refine ⟨htotal, hacc.pending_ne, fun pendingCount t => ⟨?_, ?_⟩⟩
  · intro stats hstats
    rw [Controller.stats_eq_tickStats hstats]
    refine ⟨?_, Controller.tickStats_accounts _ _ hacc⟩
    unfold Controller.endsPeriod
    rw [hstats]
    rfl
  · intro hends
    rcases s.1.tick_histPair pendingCount t with ⟨hfalse, -⟩ | ⟨-, hpair | hpair⟩
    · rw [hfalse] at hends
      cases hends
    · rw [hpair]
      exact hacc.rotate.active
    · rw [hpair]
      exact hacc.rotate.rotate.active

/-- Four completions and two ticks. The first tick is skipped; the second one swaps. -/
def sampledOps : List ControllerOp :=
  [.setMaxP99Latency 5, .recordCompletion 1000000 512, .recordCompletion 2000000 512,
    .tick 0 ⟨1, 1, 1⟩, .recordCompletion 1000000 512, .tick 0 ⟨200000000, 200000000, 200000000⟩,
    .recordCompletion 3000000 512]

/-- The last completion belongs to the second period. -/
theorem histogram_accounting_two_periods :
    let s := sampledOps.foldl (fun s op => (s.1.apply op, s.1.account s.2 op))
      (Controller.defaultController, ({} : SampleLog))
    s.2.current + s.2.closed.sum = {1000, 2000, 1000, 3000} :=
  (@histogram_accounting (Controller.defaultController, {}) _ _
    ⟨Controller.defaultController_initial, rfl⟩
    (Run.foldl (f := fun s op => (s.1.apply op, s.1.account s.2 op)) (fun _ _ => rfl) _
      sampledOps)).1.trans (by decide)

end Aura
