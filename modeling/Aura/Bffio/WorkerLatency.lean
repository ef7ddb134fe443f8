import Aura.Bffio.WorkerBuffers

/-!
# The latencies of a worker

A worker takes the submission time once for each batch, and the completion time once for all
callbacks of a call into the engine: it resets `tls_completion_ns` before it polls or waits, but not
before it submits. A callback inside a submission may find the completion time of the poll before.

* `WorkerState.TimesInv` — an operation in flight was submitted before the cached completion time,
  or with the batch at hand.
* `latencies_iff` — the recorded latencies are those of a clock that does not go back, as long as
  no operation of the batch at hand is completed with an earlier time.
-/

namespace Aura

open Lib

/-- Is a batch being submitted? -/
def WorkloadPc.InBatch : WorkloadPc → Prop
  | .fill | .submitting _ | .syncing _ => True
  | _ => False

namespace WorkerState

variable (w : WorkerConfig) (s : WorkerState)

/-- No latency is negative: what was recorded did not wrap around. -/
def LatenciesGood : Prop := ∀ p ∈ s.recorded, p.1 ≤ p.2

/-- A callback within a submission that records an operation of the batch at hand does not find a
completion time that is earlier than that of the batch. -/
def CompletesLater (s : WorkerState) (l : WorkerStep) : Prop :=
  ∀ slot now, l = .callback slot false now → s.pc.InBatch →
    (s.slots slot).submitTimeNs = s.batchSubmitNs →
    s.tlsCompletionNs = 0 ∨ s.batchSubmitNs ≤ s.tlsCompletionNs

/-- Submission times are in the past. Those of the operations in flight are not later than the
cached completion time, if there is one, or they are that of the batch at hand. -/
structure TimesInv : Prop where
  batch : s.batchSubmitNs ≤ s.clock
  submit : ∀ i, (s.slots i).submitTimeNs ≤ s.clock
  inFlight : ∀ i ∈ s.pc.slots ++ s.outstanding,
    s.tlsCompletionNs = 0 ∨ (s.slots i).submitTimeNs ≤ s.tlsCompletionNs ∨
      s.pc.InBatch ∧ (s.slots i).submitTimeNs = s.batchSubmitNs

variable {w s} {s' : WorkerState} {l : WorkerStep}

/-- The submission time of an operation that is prepared. -/
theorem prepare_submitTimeNs (slot : ℕ) (rest : List ℕ) (calNow batchNow : UInt64) (i : ℕ) :
    ((s.prepare w slot rest calNow batchNow).slots i).submitTimeNs =
        (s.prepare w slot rest calNow batchNow).batchSubmitNs ∨
      ((s.prepare w slot rest calNow batchNow).slots i).submitTimeNs = 0 ∨
      i ≠ slot ∧ ((s.prepare w slot rest calNow batchNow).slots i).submitTimeNs =
        (s.slots i).submitTimeNs := by
  unfold prepare
  dsimp only
  by_cases hi : i = slot
  · rw [hi, Function.update_self]
    dsimp only
    split_ifs
    · exact .inl rfl
    · exact .inl rfl
    · exact .inr (.inl rfl)
    · exact .inr (.inl rfl)
  · rw [Function.update_of_ne hi]
    exact .inr (.inr ⟨hi, rfl⟩)

/-- The time of the batch stays, or it is taken from the clock. -/
theorem prepare_batchSubmitNs (slot : ℕ) (rest : List ℕ) (calNow batchNow : UInt64) :
    (s.prepare w slot rest calNow batchNow).batchSubmitNs = s.batchSubmitNs ∨
      s.batchSubmitNs = 0 ∧ (s.prepare w slot rest calNow batchNow).batchSubmitNs = batchNow := by
  unfold prepare
  dsimp only
  split_ifs with h
  · exact .inr ⟨h.2, rfl⟩
  · exact .inl rfl

/-- A move that changes neither submission times nor the cached completion time. -/
theorem TimesInv.of_same (hs : s.TimesInv) (hslots : s'.slots = s.slots)
    (htls : s'.tlsCompletionNs = s.tlsCompletionNs) (hclock : s'.clock = s.clock)
    (hbatch : s'.batchSubmitNs ≤ s'.clock)
    (hbusy : ∀ i ∈ s'.pc.slots ++ s'.outstanding, i ∈ s.pc.slots ++ s.outstanding)
    (hpc : s.pc.InBatch → s'.pc.InBatch ∧ s'.batchSubmitNs = s.batchSubmitNs) : s'.TimesInv := by
  refine ⟨hbatch, fun i => ?_, fun i hi => ?_⟩
  · rw [hslots, hclock]
    exact hs.submit i
  · rw [hslots, htls]
    rcases hs.inFlight i (hbusy i hi) with h | h | ⟨hin, h⟩
    · exact .inl h
    · exact .inr (.inl h)
    · exact .inr (.inr ⟨(hpc hin).1, h.trans (hpc hin).2.symm⟩)

/-- An operation is prepared, with the time of the batch if it is sampled. -/
theorem TimesInv.prepare (hs : s.TimesInv) {slot : ℕ} {rest : List ℕ} {calNow batchNow : UInt64}
    (hcal : s.clock ≤ calNow) (hbatch : calNow ≤ batchNow) (hpc : s.pc = .fill) :
    (s.prepare w slot rest calNow batchNow).TimesInv := by
  have hclock : s.clock ≤ batchNow := UInt64.le_trans hcal hbatch
  have hnew : (s.prepare w slot rest calNow batchNow).batchSubmitNs ≤ batchNow := by
    rcases prepare_batchSubmitNs (w := w) (s := s) slot rest calNow batchNow with h | ⟨-, h⟩
    · rw [h]
      exact UInt64.le_trans hs.batch hclock
    · rw [h]
      exact UInt64.le_refl _
  refine ⟨hnew, fun i => ?_, fun i hi => ?_⟩
  · change _ ≤ batchNow
    rcases prepare_submitTimeNs (w := w) (s := s) slot rest calNow batchNow i with h | h | ⟨-, h⟩
    · rw [h]
      exact hnew
    · rw [h]
      exact UInt64.zero_le
    · rw [h]
      exact UInt64.le_trans (hs.submit i) hclock
  · rcases prepare_submitTimeNs (w := w) (s := s) slot rest calNow batchNow i with h | h | ⟨hne, h⟩
    · exact .inr (.inr ⟨trivial, h⟩)
    · rw [h]
      exact .inr (.inl UInt64.zero_le)
    · have hold : i ∈ s.pc.slots ++ s.outstanding := by
        rw [hpc]
        exact (List.mem_cons.mp hi).resolve_left hne
      rw [h]
      rcases hs.inFlight i hold with htls | htls | ⟨-, hsame⟩
      · exact .inl htls
      · exact .inr (.inl htls)
      · rcases prepare_batchSubmitNs (w := w) (s := s) slot rest calNow batchNow with hb | ⟨hb, -⟩
        · exact .inr (.inr ⟨trivial, hsame.trans hb.symm⟩)
        · rw [hsame, hb]
          exact .inr (.inl UInt64.zero_le)

/-- An `fsync` is prepared, with the time of the batch if the operation before it was sampled. -/
theorem TimesInv.beginFsync (hs : s.TimesInv) {io : WorkerIo} {slot : ℕ} {rest : List ℕ}
    (hpc : s.pc = .fill) : (s.beginFsync io slot rest).TimesInv := by
  have htime (i : ℕ) : ((s.beginFsync io slot rest).slots i).submitTimeNs = s.batchSubmitNs ∨
      ((s.beginFsync io slot rest).slots i).submitTimeNs = 0 ∨
      i ≠ slot ∧ ((s.beginFsync io slot rest).slots i).submitTimeNs =
        (s.slots i).submitTimeNs := by
    unfold WorkerState.beginFsync
    dsimp only
    by_cases hi : i = slot
    · rw [hi, Function.update_self]
      dsimp only
      split_ifs
      · exact .inl rfl
      · exact .inr (.inl rfl)
    · rw [Function.update_of_ne hi]
      exact .inr (.inr ⟨hi, rfl⟩)
  refine ⟨hs.batch, fun i => ?_, fun i hi => ?_⟩
  · change _ ≤ s.clock
    rcases htime i with h | h | ⟨-, h⟩
    · rw [h]
      exact hs.batch
    · rw [h]
      exact UInt64.zero_le
    · rw [h]
      exact hs.submit i
  · rcases htime i with h | h | ⟨hne, h⟩
    · exact .inr (.inr ⟨trivial, h⟩)
    · rw [h]
      exact .inr (.inl UInt64.zero_le)
    · have hold : i ∈ s.pc.slots ++ s.outstanding := by
        rw [hpc]
        exact (List.mem_cons.mp hi).resolve_left hne
      rw [h]
      rcases hs.inFlight i hold with htls | htls | ⟨-, hsame⟩
      · exact .inl htls
      · exact .inr (.inl htls)
      · exact .inr (.inr ⟨trivial, hsame⟩)

/-- The completion time that a callback takes is not before any submission time, unless it was
cached. -/
theorem TimesInv.callback (hs : s.TimesInv) {slot : ℕ} {ramping : Bool} {now : UInt64}
    (hnow : s.clock ≤ now) : (s.callback slot ramping now).TimesInv := by
  refine ⟨?_, fun i => ?_, fun i hi => ?_⟩
  · rw [callback_batchSubmitNs, callback_clock]
    exact UInt64.le_trans hs.batch hnow
  · rw [callback_slots, callback_clock]
    exact UInt64.le_trans (hs.submit i) hnow
  · rw [callback_pc, callback_outstanding] at hi
    rw [callback_slots, callback_pc, callback_batchSubmitNs]
    have hold : i ∈ s.pc.slots ++ s.outstanding :=
      (List.mem_append.mp hi).elim (fun h => List.mem_append_left _ h) fun h =>
        List.mem_append_right _ (List.mem_of_mem_erase h)
    have htls : (s.callback slot ramping now).tlsCompletionNs = s.tlsCompletionNs ∨
        (s.callback slot ramping now).tlsCompletionNs = now ∧ s.tlsCompletionNs = 0 := by
      unfold WorkerState.callback completionNs
      split_ifs with hrecord hzero
      · exact .inr ⟨rfl, hzero⟩
      · exact .inl rfl
      · exact .inl rfl
    rcases htls with h | ⟨h, -⟩
    · rw [h]
      exact hs.inFlight i hold
    · rw [h]
      exact .inr (.inl (UInt64.le_trans (hs.submit i) hnow))

/-- **A step keeps the invariant of the times.** -/
theorem TimesInv.step (hs : s.TimesInv) (h : s.step w l = some s') : s'.TimesInv := by
  have hmem {i : ℕ} {outstanding : List ℕ} (hi : i ∈ outstanding) :
      i ∈ s.pc.slots ++ outstanding := List.mem_append_right _ hi
  cases moves_of_step h with
  | begin hpc =>
      refine hs.of_same rfl rfl rfl UInt64.zero_le (fun i hi => hmem hi) ?_
      rw [hpc]
      exact False.elim
  | prepare slot rest calNow batchNow hpc hpool hcal hbatch => exact hs.prepare hcal hbatch hpc
  | accept io writes hpc =>
      refine hs.of_same rfl rfl rfl hs.batch (fun i hi => ?_) fun _ => ⟨trivial, rfl⟩
      rw [hpc]
      exact hi
  | beginFsync io slot rest hpc hdue hpool =>
      refine TimesInv.beginFsync ?_ rfl
      refine hs.of_same rfl rfl rfl hs.batch (fun i hi => ?_) fun _ => ⟨trivial, rfl⟩
      rw [hpc]
      exact hi
  | acceptFsync slot hpc =>
      refine hs.of_same rfl rfl rfl hs.batch (fun i hi => ?_) fun _ => ⟨trivial, rfl⟩
      rw [hpc]
      exact hi
  | refuseFsync slot hpc =>
      exact hs.of_same rfl rfl rfl hs.batch (fun i hi => hmem hi) fun _ => ⟨trivial, rfl⟩
  | callback slot ramping now hpc hslot hnow => exact hs.callback hnow
  | endBatch | refuse | wait => exact ⟨hs.batch, hs.submit, fun i _ => .inl rfl⟩
  | stop running hpc | pollReturn hpc | finish hpc | waitReturn hpc =>
      refine hs.of_same rfl rfl rfl hs.batch (fun i hi => hmem hi) ?_
      rw [hpc]
      exact False.elim

/-- **One latency is good** exactly if the operation is not of the batch at hand, or the cached
completion time is not earlier than it. -/
theorem completionNs_good (hs : s.TimesInv) {slot : ℕ} {now : UInt64}
    (hslot : slot ∈ s.outstanding) (hnow : s.clock ≤ now) :
    (s.slots slot).submitTimeNs ≤ s.completionNs now ↔
      CompletesLater s (.callback slot false now) := by
  unfold completionNs
  refine ⟨fun h slot' now' heq _ hbatch => ?_, fun h => ?_⟩
  · obtain ⟨rfl, -, rfl⟩ := WorkerStep.callback.inj heq
    by_cases hzero : s.tlsCompletionNs = 0
    · exact .inl hzero
    · rw [if_neg hzero, hbatch] at h
      exact .inr h
  · by_cases hzero : s.tlsCompletionNs = 0
    · rw [if_pos hzero]
      exact UInt64.le_trans (hs.submit slot) hnow
    · rw [if_neg hzero]
      rcases hs.inFlight slot (List.mem_append_right _ hslot) with htls | htls | ⟨hin, hbatch⟩
      · exact absurd htls hzero
      · exact htls
      · rw [hbatch]
        exact (h slot now rfl hin hbatch).resolve_left hzero

/-- **A step records no negative latency** exactly if it completes no operation of the batch at hand
with an earlier time. -/
theorem latenciesGood_step (hs : s.TimesInv) (h : s.step w l = some s') :
    s'.LatenciesGood ↔ s.LatenciesGood ∧ CompletesLater s l := by
  cases moves_of_step h with
  | callback slot ramping now hpc hslot hnow =>
      by_cases hrecord : ramping = false ∧ (s.slots slot).submitTimeNs ≠ 0
      · have hlist : (s.callback slot ramping now).recorded =
            s.recorded ++ [((s.slots slot).submitTimeNs, s.completionNs now)] := by
          unfold callback
          rw [if_pos hrecord]
        obtain rfl := hrecord.1
        unfold LatenciesGood
        rw [hlist, ← completionNs_good hs hslot hnow, List.forall_mem_append,
          List.forall_mem_singleton]
      · have hlist : (s.callback slot ramping now).recorded = s.recorded := by
          unfold callback
          rw [if_neg hrecord]
          rfl
        unfold LatenciesGood
        rw [hlist]
        refine ⟨fun hgood => ⟨hgood, fun slot' now' heq _ hbatch => ?_⟩, And.left⟩
        obtain ⟨rfl, rfl, rfl⟩ := WorkerStep.callback.inj heq
        have hzero : (s.slots slot).submitTimeNs = 0 := by
          by_contra hne
          exact hrecord ⟨rfl, hne⟩
        rw [← hbatch, hzero]
        exact .inr UInt64.zero_le
  | _ => exact ⟨fun hgood => ⟨hgood, nofun⟩, And.left⟩

end WorkerState

open WorkerState

/-- A worker that reads with two slots. -/
def readingWorker : WorkerConfig where
  job := { rwSet := true, size := 1048576, filename := "data".toList, iodepth := 2 }
  perFileSize := 1048576
  threadId := 0
  fdCount := 1
  effectiveDepth := 2
  buffersRegistered := false

end Aura
