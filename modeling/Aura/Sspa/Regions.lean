import Mathlib.Tactic.SplitIfs
import Aura.Lib.Partition
import Aura.Sspa.Worker

/-!
# Where the workers of sspa read and write

The role of a worker fixes the size of its operations and, when it is sequential, the region that it
sweeps (`SspaRole`). An operation the role allows is an aligned block of the file, and of that
region.

* `assignThreadRole_inRole` — a worker starts in a valid role, with its cursor on a block of its
  region;
* `SspaRun.step_ok` — a step submits what the role allows, if anything, and keeps the cursor so;
* `sspa_regions` — every operation of a test is an aligned block of the file, and workers that sweep
  parts of it stay in theirs, which have nothing in common;
* `sspa_fits` — no offset leaves the range of `off_t`.
-/

namespace Aura

open Lib SspaPattern

/-! ## Roles -/

/-- The part of `worker_ctx_t` that decides where a worker reads and writes. -/
structure SspaRole where
  fileSize : ℕ
  ioSize : ℕ
  sequential : Bool
  first : ℕ
  last : ℕ

/-- The role of a worker. -/
def SspaWorker.role (s : SspaWorker) : SspaRole :=
  ⟨s.fileSize, s.ioSize, s.sequential, s.seqRegionStart, s.seqRegionEnd⟩

/-- The role of a worker and its cursor. -/
def SspaWorker.cursor (s : SspaWorker) : SspaRole × ℕ := (s.role, s.seqOffset)

namespace SspaRole

/-- A role with room for a block, in the file and in the region that it sweeps. -/
structure Valid (ρ : SspaRole) : Prop where
  pos : 0 < ρ.ioSize
  fits : ρ.ioSize ≤ ρ.fileSize
  first : ρ.sequential = true → BlockIn ρ.ioSize ρ.first ρ.last ρ.first
  last : ρ.sequential = true → ρ.last ≤ ρ.fileSize

/-- The operations of a role: aligned blocks of the file and of the region. -/
structure Allows (ρ : SspaRole) (io : SspaIo) : Prop where
  size : io.size = ρ.ioSize
  inFile : BlockIn ρ.ioSize 0 ρ.fileSize io.offset
  inRegion : ρ.sequential = true → BlockIn ρ.ioSize ρ.first ρ.last io.offset

/-- A worker in a role, its cursor on a block of the region. -/
def Holds (ρ : SspaRole) (c : SspaRole × ℕ) : Prop :=
  c.1 = ρ ∧ (ρ.sequential = true → BlockIn ρ.ioSize ρ.first ρ.last c.2)

end SspaRole

variable {ρ : SspaRole} {s : SspaWorker} {k fileSize ioSize : ℕ} {rng : UInt64}

/-- **A random offset is that of a block of the file**, in every state of the generator. -/
theorem rngOffset_blockIn (hpos : 0 < ioSize) (hfits : ioSize ≤ fileSize) :
    BlockIn ioSize 0 fileSize (rngOffset rng fileSize ioSize).1 := by
  rw [rngOffset]
  split_ifs with hge
  · exact ⟨Nat.dvd_zero ioSize, le_refl 0, by omega⟩
  · have hblocks : 0 < fileSize / ioSize := Nat.div_pos hfits hpos
    have hlt : (rngNext rng).toNat % (fileSize / ioSize) < fileSize / ioSize := Nat.mod_lt _ hblocks
    refine ⟨Nat.dvd_mul_left _ _, Nat.zero_le _, ?_⟩
    calc (rngNext rng).toNat % (fileSize / ioSize) * ioSize + ioSize
        = ((rngNext rng).toNat % (fileSize / ioSize) + 1) * ioSize := by rw [Nat.succ_mul]
      _ ≤ fileSize / ioSize * ioSize := Nat.mul_le_mul_right _ hlt
      _ ≤ fileSize := Nat.div_mul_le_self _ _

/-- The choice between reading and writing leaves the cursor alone. -/
theorem SspaWorker.decideWrite_cursor (s : SspaWorker) : s.decideWrite.2.cursor = s.cursor := by
  rw [decideWrite]
  split_ifs <;> rfl

/-- The next offset is one of the role, and the cursor goes on in the region. -/
theorem SspaWorker.nextOffset_spec (hρ : ρ.Valid) (h : ρ.Holds s.cursor) :
    BlockIn ρ.ioSize 0 ρ.fileSize s.nextOffset.1 ∧
      (ρ.sequential = true → BlockIn ρ.ioSize ρ.first ρ.last s.nextOffset.1) ∧
      ρ.Holds s.nextOffset.2.cursor := by
  obtain ⟨rfl, hcursor⟩ := h
  rw [nextOffset]
  split_ifs with hseq
  · have hpos : BlockIn s.ioSize s.seqRegionStart s.seqRegionEnd s.seqOffset := hcursor hseq
    have hnext := (hρ.first hseq).sweep hpos
    exact ⟨⟨hpos.dvd, Nat.zero_le _, hpos.fits.trans (hρ.last hseq)⟩, fun _ => hpos, rfl,
      fun _ => hnext⟩
  · exact ⟨rngOffset_blockIn hρ.pos hρ.fits, fun h => absurd h hseq, rfl, fun h => absurd h hseq⟩

/-- **A submission is one of the role**, and leaves the cursor in the region. -/
theorem SspaWorker.submitOne_spec (hρ : ρ.Valid) (h : ρ.Holds s.cursor) (k : ℕ) :
    ρ.Allows (s.submitOne k).1 ∧ ρ.Holds (s.submitOne k).2.cursor := by
  have hw : ρ.Holds s.decideWrite.2.cursor := s.decideWrite_cursor ▸ h
  obtain ⟨hfile, hregion, hnext⟩ := nextOffset_spec hρ hw
  exact ⟨⟨congrArg SspaRole.ioSize h.1, hfile, hregion⟩, hnext⟩

/-! ## Steps -/

/-- What a step can do: nothing to the role, the cursor and the operations, or one submission. -/
inductive SspaMove (r r' : SspaRun) : Prop
  | quiet : r'.ctx.cursor = r.ctx.cursor → r'.submitted = r.submitted → SspaMove r r'
  | submit (s : SspaWorker) (k : ℕ) : s.cursor = r.ctx.cursor →
      r'.ctx.cursor = (s.submitOne k).2.cursor →
      r'.submitted = r.submitted ++ [(s.submitOne k).1] → SspaMove r r'

namespace SspaRun

variable {r r' : SspaRun} {e : SspaEvent}

/-- The callback leaves the cursor alone until it submits. -/
theorem finish_cursor (s : SspaWorker) (k : ℕ) (result : ℤ) :
    (s.finish k result).cursor = s.cursor := by
  rw [SspaWorker.finish]
  split_ifs <;> rfl

/-- The answer to a submission leaves the cursor alone. -/
theorem answered_cursor (s : SspaWorker) (k : ℕ) (refused : Option ℕ) :
    (s.answered k refused).cursor = s.cursor := by
  cases refused with
  | none => rfl
  | some errno =>
      rw [SspaWorker.answered]
      split_ifs <;> rfl

theorem move_of_loopStep (h : r.loopStep e = some r') : SspaMove r r' := by
  unfold loopStep at h
  split at h
  · cases h
    exact .quiet rfl rfl
  · cases h
    exact .quiet rfl rfl
  · split_ifs at h
    · cases h
      exact .submit r.ctx _ rfl rfl rfl
    · cases h
      exact .quiet rfl rfl
  · split_ifs at h
    · cases h
      exact .quiet rfl rfl
    · cases h
      exact .quiet rfl rfl
  · cases h
    split_ifs <;> exact .quiet rfl rfl
  · split_ifs at h
    · cases h
      exact .quiet rfl rfl
    · cases h
      exact .submit r.ctx _ rfl rfl rfl
  · split_ifs at h
    · cases h
      exact .quiet rfl rfl
    · cases h
      exact .quiet rfl rfl
  · cases h
    exact .quiet rfl rfl
  · exact absurd h (Option.some_ne_none r').symm

/-- **Every step is a move.** -/
theorem move_of_step (h : r.step e = some r') : SspaMove r r' := by
  unfold step at h
  split at h
  · cases h
    exact .quiet rfl rfl
  · split at h
    · cases h
      exact .quiet (answered_cursor _ _ _) rfl
    · exact absurd h (Option.some_ne_none r').symm
  · split_ifs at h
    cases h
    rw [onComplete]
    split_ifs
    · exact .submit _ _ (finish_cursor _ _ _) rfl rfl
    · exact .quiet (finish_cursor _ _ _) rfl
  · split_ifs at h
    exact move_of_loopStep h

/-- A worker in its role: the cursor is in the region, and what was submitted is allowed. -/
structure Ok (ρ : SspaRole) (r : SspaRun) : Prop where
  holds : ρ.Holds r.ctx.cursor
  allows : ∀ io ∈ r.submitted, ρ.Allows io

/-- **A step keeps a worker in its role.** -/
theorem step_ok (hρ : ρ.Valid) (h : r.Ok ρ) (hstep : r.step e = some r') : r'.Ok ρ := by
  cases move_of_step hstep with
  | quiet hcursor hsub => exact ⟨hcursor ▸ h.holds, hsub ▸ h.allows⟩
  | submit s k hs hcursor hsub =>
      obtain ⟨hallows, hholds⟩ := SspaWorker.submitOne_spec hρ (hs ▸ h.holds) k
      refine ⟨hcursor ▸ hholds, fun io hio => ?_⟩
      rw [hsub, List.mem_append, List.mem_singleton] at hio
      rcases hio with hio | rfl
      · exact h.allows io hio
      · exact hallows

end SspaRun

/-! ## The roles that are assigned -/

/-- A file size that `main` goes on with. -/
structure FileSizeOk (fileSize : ℕ) : Prop where
  minimum : MIN_TEST_SIZE ≤ fileSize
  aligned : maxIoSize ∣ fileSize

theorem maxIoSize_eq : maxIoSize = 1024 * 1024 := by decide

/-- The alignment of `main` makes a size of it, whatever it starts from. -/
theorem alignTestSize_ok {testSize : ℕ} (h : MIN_TEST_SIZE ≤ testSize) :
    FileSizeOk (alignTestSize testSize) := by
  refine ⟨?_, Nat.dvd_mul_left _ _⟩
  rw [alignTestSize, maxIoSize_eq]
  simp only [MIN_TEST_SIZE] at h ⊢
  omega

/-- No I/O size is zero or above the maximum. -/
theorem ioSize_of_mem {w : Workload} (hw : w ∈ workloads) :
    0 < w.ioSize ∧ w.ioSize ≤ maxIoSize := by
  revert w
  decide

variable {w : Workload} {n i : ℕ}

/-- Every thread has room for a block. -/
theorem FileSizeOk.room (hsize : FileSizeOk fileSize) (hw : w ∈ workloads) (hn : n ≤ MAX_WORKERS) :
    n * w.ioSize ≤ fileSize := by
  have hio := (ioSize_of_mem hw).2
  have hmin := hsize.minimum
  rw [maxIoSize_eq] at hio
  calc n * w.ioSize ≤ 64 * (1024 * 1024) := Nat.mul_le_mul hn hio
    _ ≤ fileSize := le_trans (by decide) hmin

/-- The role that sweeps the `i`-th of `n` parts of the file. -/
def partRole (fileSize ioSize n i : ℕ) : SspaRole where
  fileSize := fileSize
  ioSize := ioSize
  sequential := true
  first := partSize fileSize n ioSize * i
  last := partSize fileSize n ioSize * i + partSize fileSize n ioSize

/-- The clamps of `ownRegion` have no effect when every thread has room for a block. -/
theorem SspaWorker.ownRegion_cursor (hpos : 0 < s.ioSize) (hroom : n * s.ioSize ≤ s.fileSize)
    (hi : i < n) :
    (s.ownRegion i n).cursor =
      (partRole s.fileSize s.ioSize n i, partSize s.fileSize n s.ioSize * i) := by
  have hle : ¬ partSize s.fileSize n s.ioSize < s.ioSize :=
    Nat.not_lt.2 (le_partSize hpos (Nat.zero_lt_of_lt hi) hroom)
  have hend : ¬ partSize s.fileSize n s.ioSize * i + partSize s.fileSize n s.ioSize > s.fileSize :=
    Nat.not_lt.2 (part_end_le hi)
  rw [partSize] at hle hend
  simp only [cursor, role, ownRegion, partRole, partSize, if_neg hle, if_neg hend]

theorem partRole_valid (hpos : 0 < ioSize) (hroom : n * ioSize ≤ fileSize) (hi : i < n) :
    (partRole fileSize ioSize n i).Valid where
  pos := hpos
  fits := le_trans (Nat.le_mul_of_pos_left ioSize (Nat.zero_lt_of_lt hi)) hroom
  first := fun _ => BlockIn.part_first hpos (Nat.zero_lt_of_lt hi) hroom i
  last := fun _ => part_end_le hi

/-- A worker that sweeps its own part starts at its first block. -/
theorem partRole_holds (hpos : 0 < ioSize) (hroom : n * ioSize ≤ fileSize) (hi : i < n) :
    (partRole fileSize ioSize n i).Holds
      (partRole fileSize ioSize n i, partSize fileSize n ioSize * i) :=
  ⟨rfl, (partRole_valid hpos hroom hi).first⟩

/-- The role that sweeps the whole file. -/
def wholeRole (fileSize ioSize : ℕ) : SspaRole := ⟨fileSize, ioSize, true, 0, fileSize⟩

/-- The role of random offsets. -/
def randomRole (fileSize ioSize : ℕ) : SspaRole := ⟨fileSize, ioSize, false, 0, 0⟩

theorem wholeRole_valid (hpos : 0 < ioSize) (hfits : ioSize ≤ fileSize) :
    (wholeRole fileSize ioSize).Valid where
  pos := hpos
  fits := hfits
  first := fun _ => ⟨Nat.dvd_zero ioSize, le_refl 0, (Nat.zero_add ioSize).trans_le hfits⟩
  last := fun _ => le_refl fileSize

theorem randomRole_valid (hpos : 0 < ioSize) (hfits : ioSize ≤ fileSize) :
    (randomRole fileSize ioSize).Valid where
  pos := hpos
  fits := hfits
  first := fun h => absurd h Bool.false_ne_true
  last := fun h => absurd h Bool.false_ne_true

/-- A worker that sweeps the whole file starts at one of its blocks. -/
theorem wholeFile_holds (hpos : 0 < s.ioSize) (hfits : s.ioSize ≤ s.fileSize) :
    (wholeRole s.fileSize s.ioSize).Holds s.wholeFile.cursor :=
  ⟨rfl, fun _ => rngOffset_blockIn hpos hfits⟩

/-- Which of the roles a thread has. -/
def roleOf (fileSize threadId totalThreads : ℕ) (w : Workload) : SspaRole :=
  match w.pattern with
  | PATTERN_SEQ_WRITE | PATTERN_SEQ_READ => wholeRole fileSize w.ioSize
  | PATTERN_RAND_RW | PATTERN_RAND_READ => randomRole fileSize w.ioSize
  | PATTERN_MULTI_SEQ_WRITE => partRole fileSize w.ioSize totalThreads threadId
  | PATTERN_KV_STORE | PATTERN_TRAINING =>
    if threadId = 0 then wholeRole fileSize w.ioSize else randomRole fileSize w.ioSize
  | PATTERN_LAKEHOUSE =>
    if threadId < (totalThreads * 4 + 9) / 10 ∨ totalThreads = 1 ∨
        threadId < (totalThreads * 7 + 9) / 10 then
      partRole fileSize w.ioSize totalThreads threadId
    else randomRole fileSize 4096

/-- Every role is for the whole file. -/
theorem roleOf_fileSize : (roleOf fileSize i n w).fileSize = fileSize := by
  unfold roleOf
  cases w.pattern with
  | PATTERN_KV_STORE | PATTERN_TRAINING | PATTERN_LAKEHOUSE =>
      dsimp only
      split_ifs <;> rfl
  | _ => rfl

/-- Only the lookups of the lakehouse have an I/O size of their own. -/
theorem roleOf_ioSize (hp : w.pattern ≠ PATTERN_LAKEHOUSE) :
    (roleOf fileSize i n w).ioSize = w.ioSize := by
  unfold roleOf
  cases hpat : w.pattern with
  | PATTERN_LAKEHOUSE => exact absurd hpat hp
  | PATTERN_KV_STORE | PATTERN_TRAINING =>
      dsimp only
      split_ifs <;> rfl
  | _ => rfl

theorem roleOf_valid (hsize : FileSizeOk fileSize) (hw : w ∈ workloads) (hn : n ≤ MAX_WORKERS)
    (hi : i < n) : (roleOf fileSize i n w).Valid := by
  have hpos := (ioSize_of_mem hw).1
  have hroom := hsize.room hw hn
  have hfits : w.ioSize ≤ fileSize :=
    le_trans (Nat.le_mul_of_pos_left _ (Nat.zero_lt_of_lt hi)) hroom
  have hpage : 4096 ≤ fileSize := le_trans (by decide) hsize.minimum
  rw [roleOf]
  split
  · exact wholeRole_valid hpos hfits
  · exact wholeRole_valid hpos hfits
  · exact randomRole_valid hpos hfits
  · exact randomRole_valid hpos hfits
  · exact partRole_valid hpos hroom hi
  · split_ifs
    · exact wholeRole_valid hpos hfits
    · exact randomRole_valid hpos hfits
  · split_ifs
    · exact wholeRole_valid hpos hfits
    · exact randomRole_valid hpos hfits
  · split_ifs
    · exact partRole_valid hpos hroom hi
    · exact randomRole_valid (by decide) hpage

/-- **What is assigned**: the thread's role, with the cursor on a block of its region. -/
theorem assignThreadRole_holds (hsize : FileSizeOk fileSize) (hw : w ∈ workloads)
    (hn : n ≤ MAX_WORKERS) (hi : i < n) (rng : UInt64) :
    (roleOf fileSize i n w).Holds (assignThreadRole fileSize i n w rng).cursor := by
  have hpos := (ioSize_of_mem hw).1
  have hroom := hsize.room hw hn
  have hfits : w.ioSize ≤ fileSize :=
    le_trans (Nat.le_mul_of_pos_left _ (Nat.zero_lt_of_lt hi)) hroom
  let s : SspaWorker :=
    { workerId := i, fileSize := fileSize, ioSize := w.ioSize, workload := w, rng := rng }
  have hwhole : (wholeRole fileSize w.ioSize).Holds s.wholeFile.cursor :=
    wholeFile_holds (s := s) hpos hfits
  have hrandom : ∀ ioSize, (randomRole fileSize ioSize).Holds (randomRole fileSize ioSize, 0) :=
    fun _ => ⟨rfl, fun h => absurd h Bool.false_ne_true⟩
  have hpart : (partRole fileSize w.ioSize n i).Holds (s.ownRegion i n).cursor := by
    rw [SspaWorker.ownRegion_cursor (s := s) hpos hroom hi]
    exact partRole_holds hpos hroom hi
  unfold roleOf assignThreadRole
  cases w.pattern with
  | PATTERN_SEQ_WRITE => exact hwhole
  | PATTERN_SEQ_READ => exact hwhole
  | PATTERN_RAND_RW => exact hrandom _
  | PATTERN_RAND_READ => exact hrandom _
  | PATTERN_MULTI_SEQ_WRITE => exact hpart
  | PATTERN_KV_STORE =>
      dsimp only
      split_ifs
      · exact hwhole
      · exact hrandom _
  | PATTERN_TRAINING =>
      dsimp only
      split_ifs
      · exact hwhole
      · exact hrandom _
  | PATTERN_LAKEHOUSE =>
      -- The scanning and the compacting threads have the same role.
      dsimp only
      by_cases hscan : i < (n * 4 + 9) / 10 ∨ n = 1
      · rw [if_pos hscan, if_pos (hscan.imp id Or.inl)]
        exact hpart
      · by_cases hcompact : i < (n * 7 + 9) / 10
        · rw [if_neg hscan, if_pos hcompact, if_pos (Or.inr (Or.inr hcompact))]
          exact hpart
        · have hnone : ¬ (i < (n * 4 + 9) / 10 ∨ n = 1 ∨ i < (n * 7 + 9) / 10) := by omega
          rw [if_neg hscan, if_neg hcompact, if_neg hnone]
          exact hrandom 4096

/-! ## Runs -/

variable {ss : ℕ → SspaRun}

/-- **Every worker of a test stays in the role it was given**, whatever the order of the steps. -/
theorem ok_of_reachable (hsize : FileSizeOk fileSize) (hw : w ∈ workloads) (hn : n ≤ MAX_WORKERS)
    (h : Reachable (sspaSystem w fileSize n) ss) :
    ∀ i < n, (ss i).Ok (roleOf fileSize i n w) := by
  refine h.invariant (I := fun ss => ∀ i < n, (ss i).Ok (roleOf fileSize i n w)) ?_ ?_
  · intro ss hinit i hi
    obtain ⟨rng, rng', hss⟩ := hinit i hi
    rw [hss]
    exact ⟨assignThreadRole_holds hsize hw hn hi rng, fun _ hio => absurd hio List.not_mem_nil⟩
  · rintro ss ⟨j, e⟩ ss' hok ⟨hj, r, hstep, rfl⟩ i hi
    by_cases hij : i = j
    · subst hij
      rw [Function.update_self]
      exact SspaRun.step_ok (roleOf_valid hsize hw hn hi) (hok i hi) hstep
    · rw [Function.update_of_ne hij]
      exact hok i hi

/-- In a partitioned workload the threads that are sequential sweep the parts. -/
theorem roleOf_partitioned
    (hpart : w.pattern = PATTERN_MULTI_SEQ_WRITE ∨ w.pattern = PATTERN_LAKEHOUSE)
    (hseq : (roleOf fileSize i n w).sequential = true) :
    roleOf fileSize i n w = partRole fileSize w.ioSize n i := by
  rcases hpart with hp | hp
  · rw [roleOf, hp]
  · rw [roleOf, hp] at hseq ⊢
    dsimp only at hseq ⊢
    split_ifs at hseq ⊢ with hown
    · rfl
    · exact absurd hseq Bool.false_ne_true

/-- **The workers stay inside their regions.** For every file size that `main` can choose, every
workload, up to `MAX_WORKERS` threads, and whatever the random numbers, the order of steps,
callbacks and refused submissions: each operation is an aligned block of the file. In the
partitioned workloads, the blocks of the `i`-th thread, when it is sequential, are in the `i`-th
part of the file, and those of two such threads have nothing in common. -/
theorem sspa_regions (hsize : FileSizeOk fileSize) (hw : w ∈ workloads) (hn : n ≤ MAX_WORKERS)
    (h : Reachable (sspaSystem w fileSize n) ss) :
    (∀ i < n, ∀ io ∈ (ss i).submitted,
      io.size = (ss i).ctx.ioSize ∧ io.size ∣ io.offset ∧ io.offset + io.size ≤ fileSize) ∧
    (w.pattern = PATTERN_MULTI_SEQ_WRITE ∨ w.pattern = PATTERN_LAKEHOUSE →
      (∀ i < n, (ss i).ctx.sequential = true → ∀ io ∈ (ss i).submitted,
        partSize fileSize n w.ioSize * i ≤ io.offset ∧
          io.offset + io.size ≤ partSize fileSize n w.ioSize * (i + 1)) ∧
      ∀ i < n, ∀ j < n, i ≠ j → (ss i).ctx.sequential = true → (ss j).ctx.sequential = true →
        ∀ a ∈ (ss i).submitted, ∀ b ∈ (ss j).submitted,
          a.offset + a.size ≤ b.offset ∨ b.offset + b.size ≤ a.offset) := by
  have hok := ok_of_reachable hsize hw hn h
  -- The blocks of a sequential worker of a partitioned workload.
  have hblock : w.pattern = PATTERN_MULTI_SEQ_WRITE ∨ w.pattern = PATTERN_LAKEHOUSE →
      ∀ i < n, (ss i).ctx.sequential = true → ∀ io ∈ (ss i).submitted, BlockIn io.size
        (partSize fileSize n w.ioSize * i)
        (partSize fileSize n w.ioSize * i + partSize fileSize n w.ioSize) io.offset := by
    intro hp i hi hseq io hio
    have hrole : (ss i).ctx.role = roleOf fileSize i n w := (hok i hi).holds.1
    have hseq' : (roleOf fileSize i n w).sequential = true := hrole ▸ hseq
    have hallows := (hok i hi).allows io hio
    have hin := hallows.inRegion hseq'
    rw [← hallows.size, roleOf_partitioned hp hseq'] at hin
    exact hin
  refine ⟨fun i hi io hio => ?_, fun hp => ⟨fun i hi hseq io hio => ?_, ?_⟩⟩
  · have hallows := (hok i hi).allows io hio
    have hrole : (ss i).ctx.role = roleOf fileSize i n w := (hok i hi).holds.1
    refine ⟨hallows.size.trans (congrArg SspaRole.ioSize hrole).symm, ?_, ?_⟩
    · rw [hallows.size]
      exact hallows.inFile.dvd
    · rw [hallows.size]
      exact hallows.inFile.fits.trans_eq roleOf_fileSize
  · have hin := hblock hp i hi hseq io hio
    exact ⟨hin.le, hin.fits⟩
  · intro i hi j hj hij hseq hseq' a ha b hb
    have hina := hblock hp i hi hseq a ha
    have hinb := hblock hp j hj hseq' b hb
    rcases Nat.lt_or_gt_of_ne hij with hlt | hgt
    · exact Or.inl (hina.apart hinb (part_end_le_part hlt))
    · exact Or.inr (hinb.apart hina (part_end_le_part hgt))

/-- What one worker can do, the test can do. -/
theorem reachable_of_execute (h : Reachable (sspaSystem w fileSize n) ss) (hi : i < n)
    {es : List SspaEvent} {r : SspaRun} (hexec : execute SspaRun.step (ss i) es = some r) :
    Reachable (sspaSystem w fileSize n) (Function.update ss i r) := by
  induction es generalizing ss with
  | nil =>
      cases hexec
      rwa [Function.update_eq_self]
  | cons e es ih =>
      obtain ⟨r₁, hstep, hrest⟩ := Option.bind_eq_some_iff.1 hexec
      have h₁ := h.step (l := (i, e)) ⟨hi, r₁, hstep, rfl⟩
      have hrest' : execute SspaRun.step (Function.update ss i r₁ i) es = some r := by
        rw [Function.update_self]
        exact hrest
      have hlast := ih h₁ hrest'
      rwa [Function.update_idem] at hlast

/-- The last of four threads writes the first block of the last quarter. -/
theorem sspa_regions_logging :
    ∃ ss : ℕ → SspaRun, (ss 3).submitted = [⟨201326592, 4096, true⟩] ∧
      (∀ io ∈ (ss 3).submitted, io.size ∣ io.offset ∧ io.offset + io.size ≤ MIN_TEST_SIZE) ∧
      ∀ io ∈ (ss 3).submitted, partSize MIN_TEST_SIZE 4 4096 * 3 ≤ io.offset ∧
        io.offset + io.size ≤ partSize MIN_TEST_SIZE 4 4096 * 4 := by
  have hexec : (execute SspaRun.step (SspaRun.start (assignThreadRole MIN_TEST_SIZE 3 4
      ⟨PATTERN_MULTI_SEQ_WRITE, 4096, 0, 4⟩ 0) 0) (List.replicate 32 (.alloc true) ++ [.round])).map
      (fun r => (r.submitted, r.ctx.sequential)) = some ([⟨201326592, 4096, true⟩], true) := by
    rfl
  obtain ⟨r, hr, hresult⟩ := Option.map_eq_some_iff.1 hexec
  obtain ⟨hsub, hseq⟩ := Prod.mk.inj hresult
  have hinit : Reachable (sspaSystem ⟨PATTERN_MULTI_SEQ_WRITE, 4096, 0, 4⟩ MIN_TEST_SIZE 4)
      fun i => SspaRun.start (assignThreadRole MIN_TEST_SIZE i 4
        ⟨PATTERN_MULTI_SEQ_WRITE, 4096, 0, 4⟩ 0) 0 :=
    Reachable.of_init fun i _ => ⟨0, 0, rfl⟩
  have hreach := reachable_of_execute hinit (by decide : 3 < 4) hr
  obtain ⟨hblocks, hparts⟩ :=
    sspa_regions ⟨le_refl _, by decide⟩ (by decide) (by decide) hreach
  have hself : ∀ ss : ℕ → SspaRun, Function.update ss 3 r 3 = r := fun ss =>
    Function.update_self ..
  refine ⟨_, (congrArg SspaRun.submitted (hself _)).trans hsub,
    fun io hio => (hblocks 3 (by decide) io hio).2,
    (hparts (Or.inl rfl)).1 3 (by decide) ?_⟩
  rw [hself]
  exact hseq

/-! ## The range of off_t -/

/-- `main` starts at least one thread and at most `MAX_WORKERS`, and at least three for the
lakehouse. -/
theorem threadCount_range (hw : w ∈ workloads) {online : ℤ}
    (h : threadCount w (getNumCpus online) = some n) :
    1 ≤ n ∧ n ≤ MAX_WORKERS ∧ (w.pattern = PATTERN_LAKEHOUSE → 3 ≤ n) := by
  have hcpus : 1 ≤ getNumCpus online ∧ getNumCpus online ≤ MAX_WORKERS := by
    unfold getNumCpus MAX_WORKERS
    dsimp only
    split_ifs <;> omega
  have htable : w.threads ≤ MAX_WORKERS ∧ (w.pattern = PATTERN_LAKEHOUSE → w.threads = 0) := by
    clear h
    revert w
    decide
  unfold threadCount at h
  dsimp only at h
  obtain ⟨hlow, hhigh⟩ := hcpus
  obtain ⟨htab, hzero⟩ := htable
  by_cases hskip : w.pattern = PATTERN_LAKEHOUSE ∧ getNumCpus online < 3
  · rw [if_pos hskip] at h
    exact absurd h (Option.some_ne_none n).symm
  · rw [if_neg hskip, Option.some.injEq] at h
    subst h
    refine ⟨by split_ifs <;> omega, by split_ifs <;> omega, fun hp => ?_⟩
    have hcpus : ¬ getNumCpus online < 3 := fun hlt => hskip ⟨hp, hlt⟩
    have hthreads := hzero hp
    split_ifs <;> omega

/-- A file size in the range of `off_t` leaves room for a block behind it, but for the last byte. -/
theorem FileSizeOk.add_maxIoSize_le (hsize : FileSizeOk fileSize) (hrange : fileSize < 2 ^ 63) :
    fileSize + maxIoSize ≤ 2 ^ 63 := by
  obtain ⟨m, rfl⟩ := hsize.aligned
  rw [maxIoSize_eq] at hrange ⊢
  omega

/-- Behind the region of a sequential thread there is room for a block within the range of `off_t`.
With blocks of the largest size this takes a second thread, which only the lakehouse needs. -/
theorem roleOf_last_lt (hsize : FileSizeOk fileSize) (hrange : fileSize < 2 ^ 63)
    (hw : w ∈ workloads) (hn : n ≤ MAX_WORKERS) (hlake : w.pattern = PATTERN_LAKEHOUSE → 3 ≤ n)
    (hi : i < n) (hseq : (roleOf fileSize i n w).sequential = true) :
    (roleOf fileSize i n w).last + (roleOf fileSize i n w).ioSize < 2 ^ 63 := by
  have htop := hsize.add_maxIoSize_le hrange
  have hlast := (roleOf_valid hsize hw hn hi).last hseq
  rw [roleOf_fileSize] at hlast
  rw [maxIoSize_eq] at htop
  by_cases hp : w.pattern = PATTERN_LAKEHOUSE
  · have hio : w.ioSize = 1024 * 1024 := by
      clear hn hlake hi hseq hlast
      revert w
      decide
    have hbound : i < (n * 4 + 9) / 10 ∨ n = 1 ∨ i < (n * 7 + 9) / 10 := by
      rw [roleOf, hp] at hseq
      dsimp only at hseq
      split_ifs at hseq with hown
      · exact hown
      · exact absurd hseq Bool.false_ne_true
    rw [roleOf_partitioned (Or.inr hp) hseq] at hlast ⊢
    simp only [partRole, partSize, hio] at hlast ⊢
    have hn3 := hlake hp
    by_cases hnext : i + 1 < n
    · -- The next thread's part is behind this one.
      have hend : partSize fileSize n (1024 * 1024) * (i + 1) + _ ≤ fileSize := part_end_le hnext
      have hroom := hsize.room hw hn
      rw [hio] at hroom
      have hblock := le_partSize (by decide) (Nat.zero_lt_of_lt hi) hroom
      rw [partSize, Nat.mul_succ] at hend
      rw [partSize] at hblock
      omega
    · -- The last of the threads is sequential only when there are three: a third of the blocks of
      -- the largest file, rounded down, leaves one over.
      have hthree : n = 3 := by omega
      have htwo : i = 2 := by omega
      subst hthree htwo
      omega
  · have hsmall : w.ioSize < 1024 * 1024 := by
      clear hn hlake hi hseq hlast
      revert w
      decide
    rw [roleOf_ioSize hp]
    omega

/-- **No offset leaves the range of `off_t`** in a test that `main` runs: where a sequential worker
tests whether two more blocks fit, the sum is in range. -/
theorem sspa_fits (hsize : FileSizeOk fileSize) (hrange : fileSize < 2 ^ 63) (hw : w ∈ workloads)
    {online : ℤ} (hcount : threadCount w (getNumCpus online) = some n)
    (h : Reachable (sspaSystem w fileSize n) ss) :
    ∀ i < n, (ss i).ctx.sequential = true →
      (ss i).ctx.seqOffset + (ss i).ctx.ioSize + (ss i).ctx.ioSize < 2 ^ 63 := by
  intro i hi hseq
  obtain ⟨-, hn, hlake⟩ := threadCount_range hw hcount
  have hholds := (ok_of_reachable hsize hw hn h i hi).holds
  have hrole : (ss i).ctx.role = roleOf fileSize i n w := hholds.1
  have hseq' : (roleOf fileSize i n w).sequential = true := hrole ▸ hseq
  have hio : (ss i).ctx.ioSize = (roleOf fileSize i n w).ioSize := congrArg SspaRole.ioSize hrole
  have hlast := roleOf_last_lt hsize hrange hw hn hlake hi hseq'
  have hfits : (ss i).ctx.seqOffset + (roleOf fileSize i n w).ioSize ≤ _ := (hholds.2 hseq').fits
  rw [hio]
  omega

end Aura
