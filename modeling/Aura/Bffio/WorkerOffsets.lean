import Aura.Bffio.Worker

/-!
# The offsets of a worker

Every operation of a worker is aligned and within its file if the generator of offsets only has good
ones: random ones need a power of two as the block size, or a file that is hardly larger than a
block; sequential ones need a good start, and a file size far enough from `2^64`.

* `WorkerConfig.OffsetsFit` — the condition, on the configuration alone.
* `offsetsFit_iff` — it is exactly what the generator needs.
* `worker_offsets_good` — the operations of a worker in all of its runs.
-/

namespace Aura

open Lib

/-! ## The condition -/

namespace WorkerConfig

variable (w : WorkerConfig)

/-- The first sequential offset of the worker. -/
def seqStart : UInt64 :=
  Aura.seqStart w.perFileSize w.job.bs w.numThreads (UInt64.ofNat w.threadId)

/-- **When all offsets are good.** -/
def OffsetsFit : Prop :=
  if w.job.rw.isRandom then
    (∃ k, w.job.bs.toNat = 2 ^ k) ∨
      ∃ t, 2 ^ t ∣ w.job.bs.toNat ∧ w.perFileSize.toNat ≤ 2 ^ t + w.job.bs.toNat
  else SizeFits w.perFileSize w.job.bs ∧ SeqFits w.perFileSize w.job.bs w.seqStart

variable {w}

/-- **The condition is exact** for what the generator may select: any random number, or any number
of sequential operations on a file. -/
theorem offsetsFit_iff (hbs : w.job.bs ≠ 0) (hsize : w.job.bs ≤ w.perFileSize) :
    w.OffsetsFit ↔
      if w.job.rw.isRandom then
        ∀ output, InFile w.perFileSize w.job.bs (randomOffset w.perFileSize w.job.bs output)
      else
        ∀ n, InFile w.perFileSize w.job.bs
          (seqStep w.perFileSize w.job.bs (seqAfter w.perFileSize w.job.bs w.seqStart n)).1 := by
  unfold OffsetsFit
  split_ifs
  · exact (randomOffset_inFile_iff hbs hsize).symm
  · exact (seqStep_inFile_iff hbs hsize).symm

end WorkerConfig

/-! ## The generator -/

namespace OffsetGen

variable {w : WorkerConfig} {g : OffsetGen}

@[simp] theorem draw_seqOffsets : g.draw.2.seqOffsets = g.seqOffsets := rfl

theorem selectFile_seqOffsets : (g.selectFile w).2.seqOffsets = g.seqOffsets := by
  unfold selectFile
  by_cases hone : w.fdCount ≤ 1
  · rw [if_pos hone]
  · rw [if_neg hone]
    cases w.job.fileServiceType with
    | FST_ROUNDROBIN => rfl
    | FST_SEQUENTIAL => dsimp only; split_ifs <;> rfl
    | FST_RANDOM => rfl

theorem decideWrite_seqOffsets : (g.decideWrite w).2.seqOffsets = g.seqOffsets := by
  unfold decideWrite
  split_ifs <;> rfl

theorem decideSample_seqOffsets (interval : UInt32) :
    (g.decideSample interval).2.seqOffsets = g.seqOffsets := by
  unfold decideSample
  split_ifs <;> rfl

/-- The sequential offsets of all files fit. -/
def Fits (w : WorkerConfig) (g : OffsetGen) : Prop :=
  w.job.rw.isRandom = false → ∀ f, SeqFits w.perFileSize w.job.bs (g.seqOffsets f)

theorem Fits.of_eq {g' : OffsetGen} (h : g.Fits w) (heq : g'.seqOffsets = g.seqOffsets) :
    g'.Fits w := by
  intro hseq f
  rw [heq]
  exact h hseq f

/-- **The next offset is good**, and the ones after it fit. -/
theorem nextOffset_good (hbs : w.job.bs ≠ 0) (hsize : w.job.bs ≤ w.perFileSize)
    (hfit : w.OffsetsFit) (h : g.Fits w) (f : ℕ) :
    InFile w.perFileSize w.job.bs (g.nextOffset w f).1 ∧ (g.nextOffset w f).2.Fits w := by
  unfold WorkerConfig.OffsetsFit at hfit
  unfold nextOffset
  by_cases hrandom : w.job.rw.isRandom = true
  · rw [if_pos hrandom] at hfit ⊢
    have hgood := (randomOffset_inFile_iff hbs hsize).mpr hfit
    split_ifs with hmax
    · exact ⟨hgood _, h.of_eq rfl⟩
    · have hzero := hgood 0
      unfold randomOffset at hzero
      rw [if_neg hmax] at hzero
      exact ⟨hzero, h⟩
  · rw [if_neg hrandom] at hfit ⊢
    obtain ⟨hin, hnext⟩ := seqStep_good hsize hfit.1 (h (Bool.eq_false_iff.mpr hrandom) f)
    refine ⟨hin, fun hseq f' => ?_⟩
    dsimp only
    by_cases hf : f' = f
    · rw [hf, Function.update_self]
      exact hnext
    · rw [Function.update_of_ne hf]
      exact h hseq f'

end OffsetGen

/-! ## Runs -/

namespace WorkerState

variable {w : WorkerConfig} {s s' : WorkerState} {l : WorkerStep}

/-- A step prepares an operation, or leaves the generator alone and begins none. -/
theorem Moves.gen (h : Moves w s l s') :
    (∃ slot rest calNow batchNow, s' = s.prepare w slot rest calNow batchNow) ∨
      s'.gen = s.gen ∧ ∀ io, s'.pc = .submitting io → s.pc = .submitting io := by
  cases h with
  | prepare slot rest calNow batchNow => exact .inl ⟨slot, rest, calNow, batchNow, rfl⟩
  | callback slot ramping now =>
      rw [callback_gen, callback_pc]
      exact .inr ⟨rfl, fun _ => id⟩
  | _ => exact .inr ⟨rfl, nofun⟩

/-- The sequential offsets fit, and the operation that is being submitted is good. -/
def OffsetsGood (w : WorkerConfig) (s : WorkerState) : Prop :=
  s.gen.Fits w ∧ ∀ io, s.pc = .submitting io → InFile w.perFileSize w.job.bs io.offset

/-- **A step keeps the offsets good.** -/
theorem OffsetsGood.step (hbs : w.job.bs ≠ 0) (hsize : w.job.bs ≤ w.perFileSize)
    (hfit : w.OffsetsFit) (hs : s.OffsetsGood w) (h : s.step w l = some s') :
    s'.OffsetsGood w := by
  rcases (moves_of_step h).gen with ⟨slot, rest, calNow, batchNow, rfl⟩ | ⟨hgen, hpc⟩
  · have hfile : (s.gen.selectFile w).2.Fits w := hs.1.of_eq OffsetGen.selectFile_seqOffsets
    obtain ⟨hin, hnext⟩ := OffsetGen.nextOffset_good hbs hsize hfit hfile (s.gen.selectFile w).1
    refine ⟨hnext.of_eq ?_, fun io hio => ?_⟩
    · exact (OffsetGen.decideSample_seqOffsets _).trans OffsetGen.decideWrite_seqOffsets
    · obtain rfl := WorkloadPc.submitting.inj hio
      exact hin
  · exact ⟨hs.1.of_eq (congrArg _ hgen), fun io hio => hs.2 io (hpc io hio)⟩

end WorkerState

/-- **The operations of a worker are aligned and within the file**, in all runs of an accepted job
for which the offsets fit. -/
theorem worker_offsets_good (w : WorkerConfig) (hvalid : jobConfigValidate w.job = none)
    (hsize : w.job.bs ≤ w.perFileSize) (hfit : w.OffsetsFit) {s : WorkerState}
    (hs : Reachable (workerSystem w) s) {io : WorkerIo} (hio : s.pc = .submitting io) :
    InFile w.perFileSize w.job.bs io.offset := by
  have hbs := (jobConfigValidate_accepts hvalid).2.2
  have hinv : s.OffsetsGood w := by
    refine hs.invariant ?_ fun s l s' hs hstep => hs.step hbs hsize hfit hstep
    rintro s ⟨tvNsec, now, rfl⟩
    refine ⟨fun hseq f => ?_, nofun⟩
    unfold WorkerConfig.OffsetsFit at hfit
    rw [if_neg (Bool.eq_false_iff.mp hseq)] at hfit
    exact hfit.2
  exact hinv.2 io hio

/-- A worker of two, with a block size that is no power of two. -/
def staggeredWorker (threadId : ℕ) : WorkerConfig where
  job :=
    { rw := .RW_WRITE, rwSet := true, bs := 3000, size := 12000, filename := "data".toList
      numjobs := 2 }
  perFileSize := 12000
  threadId
  fdCount := 1
  effectiveDepth := 256
  buffersRegistered := false

/-- The first worker starts at 0, and its offsets fit. -/
theorem worker_offsets_good_first : ∃ s io, Reachable (workerSystem (staggeredWorker 0)) s ∧
    s.pc = .submitting io ∧ InFile 12000 3000 io.offset := by
  have hrun : execute (fun s => s.step (staggeredWorker 0))
      (WorkerState.start (staggeredWorker 0) 5 7) [.head true, .fill true 8 8] = some _ := rfl
  have hreach : Reachable (workerSystem (staggeredWorker 0)) _ :=
    Reachable.of_execute ⟨5, 7, rfl⟩ hrun
  have hfit : (staggeredWorker 0).OffsetsFit := by
    change SizeFits 12000 3000 ∧ SeqFits 12000 3000 (staggeredWorker 0).seqStart
    unfold SizeFits SeqFits
    decide +kernel
  exact ⟨_, _, hreach, rfl,
    worker_offsets_good (staggeredWorker 0) rfl (by decide) hfit hreach rfl⟩

/-- The first operation of the second worker is not aligned. -/
theorem worker_offset_unaligned : jobConfigValidate (staggeredWorker 1).job = none ∧
    (staggeredWorker 1).job.bs ≤ (staggeredWorker 1).perFileSize ∧
    ∃ s io, Reachable (workerSystem (staggeredWorker 1)) s ∧ s.pc = .submitting io ∧
      ¬ InFile 12000 3000 io.offset := by
  refine ⟨rfl, by decide, ?_⟩
  have hrun : execute (fun s => s.step (staggeredWorker 1))
      (WorkerState.start (staggeredWorker 1) 5 7) [.head true, .fill true 8 8] = some _ := rfl
  exact ⟨_, _, Reachable.of_execute ⟨5, 7, rfl⟩ hrun, rfl, fun h => absurd h.1 (by decide +kernel)⟩

end Aura
