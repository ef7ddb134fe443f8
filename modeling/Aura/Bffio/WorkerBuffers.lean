import Aura.Bffio.Worker
import Mathlib.Data.List.Perm.Basic

/-!
# The buffers of a worker

Each slot of the context pool is given a buffer once, and the buffer is freed through the slot. An
`fsync` that takes a slot clears the pointer, and the slot goes back to the pool without it.

* `WorkerState.SlotsInv` — each slot is in the pool, with the engine, or in the operation at hand.
* `slotsOwn_iff` — in the runs of a worker the slots keep their buffers exactly as long as no
  `fsync` finds a slot.
-/

namespace Aura

open Lib

/-- The slot of the operation that is being submitted. -/
def WorkloadPc.slots : WorkloadPc → List ℕ
  | .submitting io => [io.slot]
  | .syncing slot => [slot]
  | _ => []

namespace WorkerState

variable (w : WorkerConfig) (s : WorkerState)

/-- The buffers that `workload_run` frees in the end. -/
def cleanup : List ℕ := (List.range w.effectiveDepth).filterMap fun i => (s.slots i).buffer

/-- **The slots keep their buffers**: those in the pool own them, an operation is submitted with
one, and each is freed once. -/
structure SlotsOwn : Prop where
  pool : ∀ i ∈ s.pool, (s.slots i).buffer = some i
  submitted : ∀ io, s.pc = .submitting io →
    (s.slots io.slot).buffer = some io.slot ∧ io.abuf ≠ .ptr none
  freed : s.cleanup w = List.range w.effectiveDepth

/-- An `fsync` that is due after an accepted operation does not find a slot. -/
def FsyncFindsNoSlot (w : WorkerConfig) (s : WorkerState) (l : WorkerStep) : Prop :=
  ∀ io, l = .accept → s.pc = .submitting io → s.fsyncDue w io = true → s.pool = []

/-! ## The slots -/

/-- Each slot is in the pool, with the engine, or in the operation at hand; its buffer is its own or
lost; and the operation at hand uses it, or a registered one. -/
structure SlotsInv : Prop where
  slots : (s.pool ++ (s.pc.slots ++ s.outstanding)).Perm (List.range w.effectiveDepth)
  buffer : ∀ i, (s.slots i).buffer = none ∨ (s.slots i).buffer = some i
  abuf : ∀ io, s.pc = .submitting io →
    (∃ index, io.abuf = .fixed index) ∨ io.abuf = .ptr (s.slots io.slot).buffer

/-- No buffer is lost. -/
def NoneLost : Prop := ∀ i < w.effectiveDepth, (s.slots i).buffer = some i

variable {w s} {s' : WorkerState} {l : WorkerStep}

/-- A slot goes from the operation at hand to the pool. -/
theorem perm_putBack {pool outstanding range : List ℕ} {slot : ℕ}
    (h : (pool ++ ([slot] ++ outstanding)).Perm range) :
    (slot :: pool ++ ([] ++ outstanding)).Perm range :=
  List.perm_middle.symm.trans h

/-- **A step keeps the invariant of the slots.** -/
theorem SlotsInv.step (hs : s.SlotsInv w) (h : s.step w l = some s') : s'.SlotsInv w := by
  obtain ⟨hslots, hbuffer, habuf⟩ := hs
  cases moves_of_step h with
  | begin hpc | stop running hpc | pollReturn hpc | wait hpc | finish hpc | waitReturn hpc =>
      rw [hpc] at hslots
      exact ⟨hslots, hbuffer, nofun⟩
  | prepare slot rest calNow batchNow hpc hpool =>
      rw [hpc, hpool] at hslots
      refine ⟨List.perm_middle.trans hslots, fun i => ?_, fun io hio => ?_⟩
      · rw [prepare_buffer]
        exact hbuffer i
      · obtain rfl := WorkloadPc.submitting.inj hio
        rw [prepare_buffer]
        dsimp only
        split_ifs
        · exact .inl ⟨_, rfl⟩
        · exact .inr rfl
  | endBatch running calNow batchNow hpc =>
      rw [hpc] at hslots
      exact ⟨hslots, hbuffer, nofun⟩
  | accept io writes hpc =>
      rw [hpc] at hslots
      exact ⟨hslots, hbuffer, nofun⟩
  | beginFsync io slot rest hpc hdue hpool =>
      rw [hpc, hpool] at hslots
      have hmove : (rest ++ slot :: (io.slot :: s.outstanding)).Perm
          (slot :: rest ++ io.slot :: s.outstanding) := List.perm_middle
      refine ⟨hmove.trans hslots, fun i => ?_, nofun⟩
      by_cases hi : i = slot
      · exact .inl (by rw [hi]; exact congrArg IoCtx.buffer (Function.update_self slot _ s.slots))
      · have hsame : (((s.accepted w io 0).beginFsync io slot rest).slots i).buffer =
            (s.slots i).buffer := congrArg IoCtx.buffer (Function.update_of_ne hi _ s.slots)
        rw [hsame]
        exact hbuffer i
  | acceptFsync slot hpc =>
      rw [hpc] at hslots
      exact ⟨hslots, hbuffer, nofun⟩
  | refuse io hpc =>
      rw [hpc] at hslots
      exact ⟨perm_putBack hslots, hbuffer, nofun⟩
  | refuseFsync slot hpc =>
      rw [hpc] at hslots
      exact ⟨perm_putBack hslots, hbuffer, nofun⟩
  | callback slot ramping now hpc hslot =>
      refine ⟨?_, fun i => ?_, fun io hio => ?_⟩
      · rw [callback_pool, callback_pc, callback_outstanding]
        have hback : (slot :: s.pool ++ (s.pc.slots ++ s.outstanding.erase slot)).Perm
            (s.pool ++ (s.pc.slots ++ s.outstanding)) := by
          refine List.perm_middle.symm.trans (List.Perm.append_left _ ?_)
          exact List.perm_middle.symm.trans
            (List.Perm.append_left _ (List.perm_cons_erase hslot).symm)
        exact hback.trans hslots
      · rw [callback_slots]
        exact hbuffer i
      · rw [callback_pc] at hio
        rw [callback_slots]
        exact habuf io hio

/-- In the states that satisfy the invariant the slots keep their buffers if none is lost. -/
theorem slotsOwn_iff_noneLost (hs : s.SlotsInv w) : s.SlotsOwn w ↔ s.NoneLost w := by
  have hmem {i : ℕ} (hi : i ∈ s.pool ++ (s.pc.slots ++ s.outstanding)) : i < w.effectiveDepth :=
    List.mem_range.mp (hs.slots.mem_iff.mp hi)
  refine ⟨fun h i hi => ?_, fun h => ⟨fun i hi => ?_, fun io hio => ?_, ?_⟩⟩
  · rcases hs.buffer i with hnone | hown
    · have hin : i ∈ s.cleanup w := by
        rw [h.freed]
        exact List.mem_range.mpr hi
      obtain ⟨j, -, hj⟩ := List.mem_filterMap.mp hin
      rcases hs.buffer j with hnone' | hown
      · rw [hnone'] at hj
        cases hj
      · rw [hown] at hj
        obtain rfl := Option.some.inj hj
        exact hown
    · exact hown
  · exact h i (hmem (List.mem_append_left _ hi))
  · have hslot := h io.slot (hmem (List.mem_append_right _ (List.mem_append_left _ (by
      rw [hio]
      exact List.mem_singleton_self _))))
    refine ⟨hslot, fun hnull => ?_⟩
    rcases hs.abuf io hio with ⟨index, hfixed⟩ | hptr
    · rw [hfixed] at hnull
      cases hnull
    · rw [hptr, hslot] at hnull
      cases hnull
  · unfold cleanup
    rw [List.filterMap_congr (g := some) fun i hi => h i (List.mem_range.mp hi),
      List.filterMap_some]

/-- **A step loses no buffer** exactly if no `fsync` finds a slot. -/
theorem noneLost_step (hs : s.SlotsInv w) (h : s.step w l = some s') :
    s'.NoneLost w ↔ s.NoneLost w ∧ FsyncFindsNoSlot w s l := by
  have hsame (heq : ∀ i, (s'.slots i).buffer = (s.slots i).buffer) (hno : FsyncFindsNoSlot w s l) :
      s'.NoneLost w ↔ s.NoneLost w ∧ FsyncFindsNoSlot w s l := by
    unfold NoneLost
    simp only [heq]
    exact ⟨fun h => ⟨h, hno⟩, fun h => h.1⟩
  cases moves_of_step h with
  | prepare slot rest calNow batchNow => exact hsame (prepare_buffer rest calNow batchNow) nofun
  | callback slot ramping now => exact hsame (fun i => by rw [callback_slots]) nofun
  | accept io writes hpc hno =>
      refine hsame (fun i => rfl) fun io' _ hpc' hdue => hno ?_
      obtain rfl := WorkloadPc.submitting.inj (hpc.symm.trans hpc')
      exact hdue
  | acceptFsync slot hpc =>
      refine hsame (fun i => rfl) fun io' _ hpc' => ?_
      rw [hpc] at hpc'
      cases hpc'
  | beginFsync io slot rest hpc hdue hpool =>
      refine ⟨fun hlost => ?_, fun ⟨_, hno⟩ => ?_⟩
      · have hslot : slot < w.effectiveDepth := by
          refine List.mem_range.mp (hs.slots.mem_iff.mp (List.mem_append_left _ ?_))
          rw [hpool]
          exact List.mem_cons_self
        have hnull : (((s.accepted w io 0).beginFsync io slot rest).slots slot).buffer = none :=
          congrArg IoCtx.buffer (Function.update_self slot _ s.slots)
        have hown := hlost slot hslot
        rw [hnull] at hown
        cases hown
      · have hempty := hno io rfl hpc hdue
        rw [hpool] at hempty
        cases hempty
  | _ => exact hsame (fun i => rfl) nofun

end WorkerState

open WorkerState

theorem slotsInv_start {w : WorkerConfig} (tvNsec now : UInt64) :
    (WorkerState.start w tvNsec now).SlotsInv w := by
  refine ⟨?_, fun i => .inr rfl, nofun⟩
  exact (List.append_nil _).symm ▸ List.reverse_perm _

/-- **The slots keep their buffers** exactly in the runs of a worker in which no `fsync` finds a
slot. -/
theorem slotsOwn_iff (w : WorkerConfig) {s₀ s : WorkerState} {ls : List WorkerStep}
    (h₀ : (workerSystem w).init s₀) (hrun : Run (workerSystem w) s₀ ls s) :
    s.SlotsOwn w ↔ Run ((workerSystem w).restrict (FsyncFindsNoSlot w)) s₀ ls s := by
  obtain ⟨tvNsec, now, rfl⟩ := h₀
  have hstep : ∀ s l s', s.SlotsInv w → (workerSystem w).step s l s' → s'.SlotsInv w :=
    fun s l s' hs h => SlotsInv.step hs h
  have hinv : s.SlotsInv w := hrun.invariant hstep (slotsInv_start tvNsec now)
  rw [slotsOwn_iff_noneLost hinv]
  exact hrun.restrict_iff System.ofFn_deterministic hstep (fun s l s' hs h => noneLost_step hs h)
    (slotsInv_start tvNsec now) fun i _ => rfl

/-- A worker that writes with two slots, and an `fsync` after each write. -/
def syncingWorker : WorkerConfig where
  job :=
    { rw := .RW_WRITE, rwSet := true, size := 12288, filename := "data".toList, iodepth := 2
      fsyncFreq := 1 }
  perFileSize := 12288
  threadId := 0
  fdCount := 1
  effectiveDepth := 2
  buffersRegistered := false

/-- Up to its first write, no slot has lost its buffer. -/
theorem slotsOwn_iff_first : ∃ s, s.SlotsOwn syncingWorker ∧
    Run (workerSystem syncingWorker) (WorkerState.start syncingWorker 5 7)
      [.head true, .fill true 8 8] s := by
  have hfirst : Run ((workerSystem syncingWorker).restrict (FsyncFindsNoSlot syncingWorker))
      (WorkerState.start syncingWorker 5 7) [.head true] _ := Run.single ⟨nofun, rfl⟩
  have hrun : Run ((workerSystem syncingWorker).restrict (FsyncFindsNoSlot syncingWorker))
      (WorkerState.start syncingWorker 5 7) ([.head true] ++ [.fill true 8 8]) _ :=
    hfirst.append (Run.single ⟨nofun, rfl⟩)
  exact ⟨_, (slotsOwn_iff syncingWorker ⟨5, 7, rfl⟩ hrun.of_restrict).mpr hrun, hrun.of_restrict⟩

/-- The slot of its first `fsync` comes back without a buffer, and the next write gets none. -/
theorem fsync_loses_buffer : jobConfigValidate syncingWorker.job = none ∧
    ∃ s io, Reachable (workerSystem syncingWorker) s ∧ s.pc = .submitting io ∧
      io.abuf = .ptr none ∧ ¬ s.SlotsOwn syncingWorker := by
  refine ⟨rfl, ?_⟩
  have hrun : execute (fun s => s.step syncingWorker) (WorkerState.start syncingWorker 5 7)
      [.head true, .fill true 8 8, .accept, .accept, .fill true 9 9, .callback 0 false 10,
        .pollReturn, .head true, .fill true 11 11] = some _ := rfl
  exact ⟨_, _, Reachable.of_execute ⟨5, 7, rfl⟩ hrun, rfl, rfl, fun h => (h.submitted _ rfl).2 rfl⟩

end Aura
