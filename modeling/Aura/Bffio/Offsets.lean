import Aura.Lib.Alignment
import Mathlib.Data.UInt
import Mathlib.Data.Set.Basic

/-!
# Offsets

How a worker of `workload.c` picks the offset of an operation within a file: at random, or the next
one. All of it is in 64-bit words.

* `randomOffset_aligned_iff` — for which block sizes a random offset is always a multiple of it.
* `seqStep_good` — what makes the next sequential offset a good one.
* `randomOffset_covers_iff` — which files random offsets cover.
-/

namespace Aura

open Lib

/-! ## Random and sequential offsets -/

/-- `xorshift64`: the next state, which is also what is returned. -/
def xorshift64 (state : UInt64) : UInt64 :=
  let x := state ^^^ state <<< 13
  let x := x ^^^ x >>> 7
  x ^^^ x <<< 17

/-- `align_down`. -/
def alignDown (val align : UInt64) : UInt64 := val &&& ~~~(align - 1)

/-- `max_offset`. -/
def maxOffset (perFileSize bs : UInt64) : UInt64 :=
  if perFileSize > bs then perFileSize - bs else 0

/-- A random offset, from an output of the generator. -/
def randomOffset (perFileSize bs output : UInt64) : UInt64 :=
  if maxOffset perFileSize bs > 0 then alignDown (output % maxOffset perFileSize bs) bs else 0

/-- A sequential offset, and what `seq_offsets` becomes. -/
def seqStep (perFileSize bs seqOffset : UInt64) : UInt64 × UInt64 :=
  if seqOffset + bs > perFileSize then (0, bs) else (seqOffset, seqOffset + bs)

/-- The stagger of the first sequential offset of a worker. -/
def seqStart (perFileSize bs numThreads threadId : UInt64) : UInt64 :=
  alignDown (threadId * (perFileSize / numThreads)) bs

/-! ## Masks -/

variable {size bs val : UInt64}

theorem alignDown_toNat (hbs : bs ≠ 0) :
    (alignDown val bs).toNat = maskDown 64 val.toNat bs.toNat := by
  have hpos : 1 ≤ bs.toNat := Nat.pos_of_ne_zero fun h => hbs (UInt64.toNat_inj.mp h)
  have hsub : (bs - 1).toNat = bs.toNat - 1 :=
    UInt64.toNat_sub_of_le _ _ (UInt64.le_iff_toNat_le.mpr hpos)
  unfold alignDown maskDown
  rw [UInt64.toNat_and, UInt64.toNat_not, hsub]
  rfl

theorem maxOffset_toNat : (maxOffset size bs).toNat = size.toNat - bs.toNat := by
  unfold maxOffset
  split_ifs with hgt
  · exact UInt64.toNat_sub_of_le _ _ (UInt64.le_of_lt hgt)
  · have hle := UInt64.le_iff_toNat_le.mp (UInt64.not_lt.mp hgt)
    rw [Nat.sub_eq_zero_of_le hle]
    rfl

/-- A random offset as a number. -/
theorem randomOffset_toNat (hbs : bs ≠ 0) (output : UInt64) :
    (randomOffset size bs output).toNat =
      if bs.toNat < size.toNat then
        maskDown 64 (output.toNat % (size.toNat - bs.toNat)) bs.toNat
      else 0 := by
  have hmax : (maxOffset size bs).toNat = size.toNat - bs.toNat := maxOffset_toNat
  unfold randomOffset
  by_cases hlt : bs.toNat < size.toNat
  · have hpos : maxOffset size bs > 0 := UInt64.lt_iff_toNat_lt.mpr (by
      rw [hmax, UInt64.toNat_zero]
      omega)
    rw [if_pos hlt, if_pos hpos, alignDown_toNat hbs, UInt64.toNat_mod, hmax]
  · have hzero : ¬ maxOffset size bs > 0 := fun hpos => by
      have hnat := UInt64.lt_iff_toNat_lt.mp hpos
      rw [hmax, UInt64.toNat_zero] at hnat
      omega
    rw [if_neg hlt, if_neg hzero]
    rfl

/-! ## Good offsets -/

/-- A block at an offset is aligned, and within the file. -/
def InFile (size bs offset : UInt64) : Prop :=
  bs.toNat ∣ offset.toNat ∧ offset.toNat + bs.toNat ≤ size.toNat

/-- **Random offsets are good** whatever the random number is, exactly if the block size is a power
of two, or the bound so small that all of them are 0. -/
theorem randomOffset_inFile_iff (hbs : bs ≠ 0) (hsize : bs ≤ size) :
    (∀ output, InFile size bs (randomOffset size bs output)) ↔
      (∃ k, bs.toNat = 2 ^ k) ∨ ∃ t, 2 ^ t ∣ bs.toNat ∧ size.toNat ≤ 2 ^ t + bs.toNat := by
  have hpos : 0 < bs.toNat := Nat.pos_of_ne_zero fun h => hbs (UInt64.toNat_inj.mp h)
  have hle := UInt64.le_iff_toNat_le.mp hsize
  have hbound := size.toNat_lt
  have hmask := dvd_maskDown_iff (m := size.toNat - bs.toNat) hpos bs.toNat_lt (by omega)
  simp only [Nat.sub_le_iff_le_add] at hmask
  rw [← hmask]
  by_cases hlt : bs.toNat < size.toNat
  · have hvalue (output : UInt64) : (randomOffset size bs output).toNat =
        maskDown 64 (output.toNat % (size.toNat - bs.toNat)) bs.toNat := by
      rw [randomOffset_toNat hbs, if_pos hlt]
    refine ⟨fun h x hx => ?_, fun h output => ?_⟩
    · have hword : (UInt64.ofNat x).toNat = x := by
        rw [UInt64.toNat_ofNat']
        exact Nat.mod_eq_of_lt (by omega)
      have hdvd := (h (UInt64.ofNat x)).1
      rwa [hvalue, hword, Nat.mod_eq_of_lt hx] at hdvd
    · have hmod := Nat.mod_lt output.toNat (Nat.sub_pos_of_lt hlt)
      have hdown : maskDown 64 (output.toNat % (size.toNat - bs.toNat)) bs.toNat ≤ _ := maskDown_le
      refine ⟨?_, ?_⟩
      · rw [hvalue]
        exact h _ hmod
      · rw [hvalue]
        omega
  · refine ⟨fun _ x hx => by omega, fun _ output => ?_⟩
    have hzero : (randomOffset size bs output).toNat = 0 := by
      rw [randomOffset_toNat hbs, if_neg hlt]
    unfold InFile
    rw [hzero]
    exact ⟨Nat.dvd_zero _, by omega⟩

/-- A sequential offset from which the next ones are good: either it is a good one itself, or the
file ends before its block does; and adding the block size does not wrap around. -/
def SeqFits (size bs offset : UInt64) : Prop :=
  offset.toNat + bs.toNat < 2 ^ 64 ∧
    (bs.toNat ∣ offset.toNat ∨ size.toNat < offset.toNat + bs.toNat)

/-- No offset of a full block, or of the end of the last one, wraps around with a block more. -/
def SizeFits (size bs : UInt64) : Prop := (size.toNat / bs.toNat + 1) * bs.toNat < 2 ^ 64

variable {offset : UInt64}

/-- A sequential offset as a number, if adding the block size does not wrap around. -/
theorem seqStep_eq (h : offset.toNat + bs.toNat < 2 ^ 64) : seqStep size bs offset =
    if size.toNat < offset.toNat + bs.toNat then (0, bs) else (offset, offset + bs) := by
  have hadd : (offset + bs).toNat = offset.toNat + bs.toNat := by
    rw [UInt64.toNat_add]
    exact Nat.mod_eq_of_lt h
  unfold seqStep
  by_cases hgt : size.toNat < offset.toNat + bs.toNat
  · rw [if_pos hgt, if_pos (UInt64.lt_iff_toNat_lt.mpr (by rw [hadd]; exact hgt))]
  · rw [if_neg hgt, if_neg fun hlt => hgt (hadd ▸ UInt64.lt_iff_toNat_lt.mp hlt)]

/-- The end of a full block is one of those that do not wrap around. -/
theorem SizeFits.of_dvd (hfits : SizeFits size bs) {n : ℕ} (hdvd : bs.toNat ∣ n)
    (hle : n ≤ size.toNat) : n + bs.toNat < 2 ^ 64 := by
  obtain ⟨q, rfl⟩ := hdvd
  unfold SizeFits at hfits
  rcases Nat.eq_zero_or_pos bs.toNat with hzero | hpos
  · rw [hzero, Nat.zero_mul]
    exact Nat.two_pow_pos 64
  · have hq : q ≤ size.toNat / bs.toNat := by
      rw [Nat.le_div_iff_mul_le hpos, Nat.mul_comm]
      exact hle
    calc bs.toNat * q + bs.toNat = (q + 1) * bs.toNat := by rw [Nat.succ_mul, Nat.mul_comm]
      _ ≤ (size.toNat / bs.toNat + 1) * bs.toNat := Nat.mul_le_mul_right _ (Nat.succ_le_succ hq)
      _ < 2 ^ 64 := hfits

/-- **One sequential step**: a good offset, and the next one fits again. -/
theorem seqStep_good (hsize : bs ≤ size) (hfits : SizeFits size bs) (h : SeqFits size bs offset) :
    InFile size bs (seqStep size bs offset).1 ∧ SeqFits size bs (seqStep size bs offset).2 := by
  obtain ⟨hwrap, hgood⟩ := h
  have hle := UInt64.le_iff_toNat_le.mp hsize
  rw [seqStep_eq hwrap]
  split_ifs with hend
  · exact ⟨⟨Nat.dvd_zero _, by rw [UInt64.toNat_zero, Nat.zero_add]; exact hle⟩,
      hfits.of_dvd (dvd_refl _) hle, .inl (dvd_refl _)⟩
  · have hdvd := hgood.resolve_right hend
    have hadd : (offset + bs).toNat = offset.toNat + bs.toNat := by
      rw [UInt64.toNat_add]
      exact Nat.mod_eq_of_lt hwrap
    have hnext : bs.toNat ∣ offset.toNat + bs.toNat := (Nat.dvd_add_right hdvd).mpr (dvd_refl _)
    refine ⟨⟨hdvd, not_lt.mp hend⟩, ?_⟩
    unfold SeqFits
    rw [hadd]
    exact ⟨hfits.of_dvd hnext (not_lt.mp hend), .inl hnext⟩

/-- The value of `seq_offsets` after some operations. -/
def seqAfter (size bs offset : UInt64) (n : ℕ) : UInt64 :=
  (fun offset => (seqStep size bs offset).2)^[n] offset

theorem seqAfter_succ (size bs offset : UInt64) (n : ℕ) :
    seqAfter size bs offset (n + 1) = seqAfter size bs (seqStep size bs offset).2 n :=
  Function.iterate_succ_apply _ _ _

/-- If adding a block wraps around, the block is not within the file but taken to be so. -/
theorem not_inFile_of_wrap (hsize : bs ≤ size) (h : 2 ^ 64 ≤ offset.toNat + bs.toNat) :
    ¬ InFile size bs (seqStep size bs offset).1 := by
  have hle := UInt64.le_iff_toNat_le.mp hsize
  have hlt := offset.toNat_lt
  have hend := size.toNat_lt
  have hadd : (offset + bs).toNat = offset.toNat + bs.toNat - 2 ^ 64 := by
    have hbs := bs.toNat_lt
    rw [UInt64.toNat_add]
    omega
  have hno : ¬ offset + bs > size := fun hgt => by
    have hnat := UInt64.lt_iff_toNat_lt.mp hgt
    omega
  unfold seqStep
  rw [if_neg hno]
  exact fun hin => absurd hin.2 (by dsimp only; omega)

/-- If the end of the file wraps around, a run over its blocks gets there. -/
theorem exists_not_inFile (hbs : bs ≠ 0) (hsize : bs ≤ size) (hfits : ¬ SizeFits size bs) (d j : ℕ)
    (hj : j + d = size.toNat / bs.toNat) (hoffset : offset.toNat = j * bs.toNat) :
    ∃ n, ¬ InFile size bs (seqStep size bs (seqAfter size bs offset n)).1 := by
  have hpos : 0 < bs.toNat := Nat.pos_of_ne_zero fun h => hbs (UInt64.toNat_inj.mp h)
  unfold SizeFits at hfits
  induction d generalizing j offset with
  | zero =>
      refine ⟨0, not_inFile_of_wrap hsize ?_⟩
      change 2 ^ 64 ≤ offset.toNat + bs.toNat
      rw [hoffset, ← Nat.succ_mul]
      rw [← hj, Nat.add_zero] at hfits
      exact not_lt.mp hfits
  | succ d ih =>
      have hle : (j + 1) * bs.toNat ≤ size.toNat :=
        (Nat.le_div_iff_mul_le hpos).mp (by omega)
      rw [Nat.succ_mul, ← hoffset] at hle
      have hend := size.toNat_lt
      have hnext : (seqStep size bs offset).2 = offset + bs := by
        rw [seqStep_eq (by omega), if_neg (by omega)]
      have hadd : (offset + bs).toNat = (j + 1) * bs.toNat := by
        rw [UInt64.toNat_add, Nat.mod_eq_of_lt (by omega), hoffset, Nat.succ_mul]
      obtain ⟨n, hn⟩ := ih (j + 1) (by omega) hadd
      exact ⟨n + 1, by rwa [seqAfter_succ, hnext]⟩

/-- **Sequential offsets are good** for ever exactly if the first one fits, and the file does. -/
theorem seqStep_inFile_iff (hbs : bs ≠ 0) (hsize : bs ≤ size) :
    (∀ n, InFile size bs (seqStep size bs (seqAfter size bs offset n)).1) ↔
      SizeFits size bs ∧ SeqFits size bs offset := by
  have hpos : 0 < bs.toNat := Nat.pos_of_ne_zero fun h => hbs (UInt64.toNat_inj.mp h)
  refine ⟨fun h => ?_, fun h n => ?_⟩
  · have hzero : InFile size bs (seqStep size bs offset).1 := h 0
    have hwrap : offset.toNat + bs.toNat < 2 ^ 64 := by
      by_contra hno
      exact not_inFile_of_wrap hsize (not_lt.mp hno) hzero
    rw [seqStep_eq hwrap] at hzero
    by_cases hend : size.toNat < offset.toNat + bs.toNat
    · refine ⟨?_, hwrap, .inr hend⟩
      by_contra hfits
      have hbsone : bs.toNat = 1 * bs.toNat := (Nat.one_mul _).symm
      have hone : 1 ≤ size.toNat / bs.toNat :=
        (Nat.le_div_iff_mul_le hpos).mpr (hbsone ▸ UInt64.le_iff_toNat_le.mp hsize)
      obtain ⟨n, hn⟩ :=
        exists_not_inFile hbs hsize hfits (size.toNat / bs.toNat - 1) 1 (by omega) hbsone
      have hnext : (seqStep size bs offset).2 = bs := by
        rw [seqStep_eq hwrap, if_pos hend]
      have hlater := h (n + 1)
      rw [seqAfter_succ, hnext] at hlater
      exact hn hlater
    · rw [if_neg hend] at hzero
      change InFile size bs offset at hzero
      obtain ⟨j, hj⟩ := hzero.1
      refine ⟨?_, hwrap, .inl hzero.1⟩
      by_contra hfits
      have hle : j ≤ size.toNat / bs.toNat := by
        rw [Nat.le_div_iff_mul_le hpos, Nat.mul_comm, ← hj]
        omega
      obtain ⟨n, hn⟩ := exists_not_inFile hbs hsize hfits (size.toNat / bs.toNat - j) j (by omega)
        (hj.trans (Nat.mul_comm _ _))
      exact hn (h n)
  · obtain ⟨hfits, hfirst⟩ := h
    induction n generalizing offset with
    | zero => exact (seqStep_good hsize hfits hfirst).1
    | succ n ih =>
        rw [seqAfter_succ]
        exact ih (seqStep_good hsize hfits hfirst).2

/-! ## Coverage -/

/-- **The offsets that the random pattern can select.** -/
def randomOffsets (size bs : UInt64) : Set ℕ :=
  {offset | ∃ output : UInt64, (randomOffset size bs output).toNat = offset}

/-- The offsets of the full blocks of a file. -/
def blockOffsets (size bs : UInt64) : Set ℕ :=
  {offset | ∃ i < size.toNat / bs.toNat, offset = i * bs.toNat}

variable {k i offset : ℕ}

/-- Random offsets are the multiples of a power of two below the bound. -/
theorem mem_randomOffsets (hbs : bs.toNat = 2 ^ k) (hlt : bs.toNat < size.toNat) :
    offset ∈ randomOffsets size bs ↔
      ∃ i, offset = i * bs.toNat ∧ i * bs.toNat < size.toNat - bs.toNat := by
  have hne : bs ≠ 0 := by
    rintro rfl
    exact absurd hbs.symm (Nat.two_pow_pos k).ne'
  have hround (x : ℕ) (hx : x < 2 ^ 64) : maskDown 64 x bs.toNat = x / bs.toNat * bs.toNat := by
    rw [hbs]
    exact maskDown_two_pow (hbs ▸ bs.toNat_lt.le) hx
  have hsize := size.toNat_lt
  have hpos : 0 < size.toNat - bs.toNat := Nat.sub_pos_of_lt hlt
  refine ⟨?_, ?_⟩
  · rintro ⟨output, rfl⟩
    have hmod := Nat.mod_lt output.toNat hpos
    rw [randomOffset_toNat hne, if_pos hlt, hround _ (by omega)]
    exact ⟨_, rfl, (Nat.div_mul_le_self _ _).trans_lt hmod⟩
  · rintro ⟨i, rfl, hi⟩
    have hword : (UInt64.ofNat (i * bs.toNat)).toNat = i * bs.toNat := by
      rw [UInt64.toNat_ofNat']
      exact Nat.mod_eq_of_lt (by omega)
    refine ⟨UInt64.ofNat (i * bs.toNat), ?_⟩
    rw [randomOffset_toNat hne, if_pos hlt, hword, Nat.mod_eq_of_lt hi, hround _ (by omega),
      Nat.mul_div_cancel _ (hbs ▸ Nat.two_pow_pos k)]

/-- A block is a full one if it ends within the file. -/
theorem mem_blockOffsets (hpos : 0 < bs.toNat) : offset ∈ blockOffsets size bs ↔
    ∃ i, offset = i * bs.toNat ∧ (i + 1) * bs.toNat ≤ size.toNat := by
  refine ⟨fun ⟨i, hi, heq⟩ => ⟨i, heq, ?_⟩, fun ⟨i, heq, hi⟩ => ⟨i, ?_, heq⟩⟩
  · exact (Nat.le_div_iff_mul_le hpos).mp hi
  · exact (Nat.le_div_iff_mul_le hpos).mpr hi

/-- **Random offsets cover the full blocks of a file**, for a power of two as the block size,
exactly if there is a remainder behind the last full block, or no other block. -/
theorem randomOffset_covers_iff (size bs : UInt64) (k : ℕ) (hbs : bs.toNat = 2 ^ k)
    (hsize : bs ≤ size) :
    randomOffsets size bs = blockOffsets size bs ↔ ¬ bs.toNat ∣ size.toNat ∨ size = bs := by
  have hpos : 0 < bs.toNat := hbs ▸ Nat.two_pow_pos k
  rcases Nat.lt_or_eq_of_le (UInt64.le_iff_toNat_le.mp hsize) with hlt | heq
  · have hne : size ≠ bs := fun h => absurd hlt (h ▸ lt_irrefl _)
    refine ⟨fun hsets => .inl ?_, ?_⟩
    · rintro ⟨q, hq⟩
      have hq2 : 2 ≤ q := by
        by_contra hno
        have hle : bs.toNat * q ≤ bs.toNat * 1 := Nat.mul_le_mul_left _ (by omega)
        omega
      have hlast : (q - 1) * bs.toNat + bs.toNat = size.toNat := by
        rw [← Nat.succ_mul, Nat.succ_eq_add_one, Nat.sub_add_cancel (by omega), hq, Nat.mul_comm]
      have hmem : (q - 1) * bs.toNat ∈ blockOffsets size bs :=
        (mem_blockOffsets hpos).mpr ⟨q - 1, rfl, by rw [Nat.succ_mul]; omega⟩
      rw [← hsets, mem_randomOffsets hbs hlt] at hmem
      obtain ⟨i, hi, hbound⟩ := hmem
      omega
    · rintro (hdvd | heq)
      · ext offset
        rw [mem_randomOffsets hbs hlt, mem_blockOffsets hpos]
        refine exists_congr fun i => and_congr_right fun _ => ?_
        have hno : (i + 1) * bs.toNat ≠ size.toNat := fun h =>
          hdvd ⟨i + 1, by rw [← h, Nat.mul_comm]⟩
        rw [Nat.succ_mul] at hno ⊢
        omega
      · exact absurd heq hne
  · have hone : size = bs := UInt64.toNat_inj.mp heq.symm
    refine ⟨fun _ => .inr hone, fun _ => ?_⟩
    have hzero (output : UInt64) : (randomOffset size bs output).toNat = 0 := by
      rw [randomOffset_toNat fun h => absurd hpos (by rw [h]; exact lt_irrefl 0),
        if_neg (by omega)]
    ext offset
    rw [mem_blockOffsets hpos]
    refine ⟨?_, ?_⟩
    · rintro ⟨output, rfl⟩
      exact ⟨0, by rw [hzero, Nat.zero_mul], by omega⟩
    · rintro ⟨i, rfl, hi⟩
      obtain rfl : i = 0 := by
        by_contra hi0
        have hle : 2 * bs.toNat ≤ (i + 1) * bs.toNat := Nat.mul_le_mul_right _ (by omega)
        omega
      exact ⟨0, by rw [hzero, Nat.zero_mul]⟩

/-- With a remainder behind three blocks, all of them are covered. -/
theorem randomOffset_covers_three : randomOffsets 12500 4096 = blockOffsets 12500 4096 :=
  (randomOffset_covers_iff 12500 4096 12 rfl (by decide)).mpr (.inl (by decide))

/-- The second of two blocks is not covered. -/
theorem randomOffset_misses_last : randomOffsets 8192 4096 ≠ blockOffsets 8192 4096 := by
  intro hsets
  have hmem : 4096 ∈ blockOffsets 8192 4096 := ⟨1, by decide, rfl⟩
  rw [← hsets, mem_randomOffsets (k := 12) rfl (by decide)] at hmem
  obtain ⟨i, hi, hbound⟩ := hmem
  change 4096 = i * 4096 at hi
  change i * 4096 < 8192 - 4096 at hbound
  omega

end Aura
