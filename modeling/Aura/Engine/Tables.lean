import Aura.Engine.Entries
import Aura.Engine.Latch

/-!
# All rings or none

What the registration calls leave behind when the kernel refuses some rings.

* `TableView` — one kind of registered table: what the engine records, and what the kernel holds for
  each ring. It is `Consistent` when every ring holds what the engine records.
* `Engine.TablesAgree` — both tables are consistent. Every library call keeps it, callbacks included
  (`apiStable_agree`).
* `registerTable_spec`, `auraUpdateFile_spec` — registering changes all rings or none, and so does
  an update, unless its roll-back failed and a fatal error is latched.
-/

namespace Aura

open Lib Lib.Prog

/-! ## Tables -/

section

variable {α : Type}

/-- One kind of registered table: the engine's flag and copy, and what the kernel holds for each
ring. -/
@[ext] structure TableView (α : Type) where
  registered : Bool
  copy : List α
  held : ℕ → Option (List α)

namespace TableView

/-- The table that the engine records. -/
def recorded (v : TableView α) : Option (List α) := if v.registered then some v.copy else none

/-- Each of the first `count` rings holds what is recorded. -/
def Agrees (v : TableView α) (count : ℕ) : Prop := ∀ i < count, v.held i = v.recorded

/-- The rings agree with the engine, unless the table is `torn`; without a table the engine has no
copy. -/
structure Consistent (v : TableView α) (count : ℕ) (torn : Prop) : Prop where
  agrees : v.Agrees count ∨ torn
  cleared : v.registered = false → v.copy = [] ∧ v.Agrees count

theorem Consistent.mono {v : TableView α} {count : ℕ} {torn torn' : Prop}
    (h : v.Consistent count torn) (ht : torn → torn') : v.Consistent count torn' :=
  ⟨h.agrees.imp_right ht, h.cleared⟩

/-- Another copy in the engine. -/
def setCopy (v : TableView α) (t : List α) : TableView α := { v with copy := t }

/-- Another table of ring `i`. -/
def setHeld (v : TableView α) (i : ℕ) (t : Option (List α)) : TableView α :=
  { v with held := Function.update v.held i t }

/-- The flag raised. -/
def setRegistered (v : TableView α) : TableView α := { v with registered := true }

/-- The view after the registering loop over the rings `i`, …, `m - 1`, which succeeded or not. -/
def Registering (v : TableView α) (t : List α) (i m : ℕ) (ok : Bool) (v' : TableView α) : Prop :=
  v'.registered = v.registered ∧ v'.copy = v.copy ∧
    if ok then ∀ j, v'.held j = if i ≤ j ∧ j < m then some t else v.held j
    else ∃ k ≥ i, ∀ j, v'.held j = if j < k then none else v.held j

end TableView

/-- A call that registers `t` and returned `n`: it succeeded, and `t` is registered everywhere, or
it failed, and everything is as before. -/
def AllOrNothing (n : ℤ) (count : ℕ) (t : List α) (v v' : TableView α) : Prop :=
  (n = 0 ∧ v'.recorded = some t ∧ v'.Agrees count) ∨
    (n = -1 ∧ v'.registered = v.registered ∧ v'.copy = v.copy ∧
      ∀ i < count, v'.held i = v.held i)

/-- A call that changes nothing failed. -/
theorem AllOrNothing.unchanged {count : ℕ} {t : List α} {v v' : TableView α} (h : v' = v) :
    AllOrNothing (-1) count t v v' := by
  subst h
  exact .inr ⟨rfl, rfl, rfl, fun _ _ => rfl⟩

end

/-- The registered buffers. -/
def Engine.bufferTable (e : Engine) : TableView Iovec where
  registered := e.buffersRegistered
  copy := e.registeredBuffers
  held := e.kernelBuffers

/-- The registered files. -/
def Engine.fileTable (e : Engine) : TableView ℤ where
  registered := e.filesRegistered
  copy := e.registeredFiles
  held := e.kernelFiles

/-- A roll-back of `aura_update_file` has failed, and a fatal error is latched. -/
def Engine.torn (e : Engine) : Prop := e.rollbackFailed = true ∧ e.fatalSubmitErrno ≠ 0

/-- Every ring holds the tables that the engine records, except that files may differ once a
roll-back has failed. -/
structure Engine.TablesAgree (e : Engine) : Prop where
  buffers : e.bufferTable.Consistent e.ringCount False
  files : e.fileTable.Consistent e.ringCount e.torn

/-- A new engine has no tables. -/
theorem auraCreate_agree (o : Options) (addr sqEntries : ℕ) :
    (auraCreate o addr sqEntries).TablesAgree where
  buffers := ⟨.inl fun _ _ => rfl, fun _ => ⟨rfl, fun _ _ => rfl⟩⟩
  files := ⟨.inl fun _ _ => rfl, fun _ => ⟨rfl, fun _ _ => rfl⟩⟩

/-! ## What does not concern the tables -/

/-- The tables and the ring count are the same, and a latched error stays. -/
structure Engine.SameTables (e e' : Engine) : Prop where
  buffers : e'.bufferTable = e.bufferTable
  files : e'.fileTable = e.fileTable
  ringCount : e'.ringCount = e.ringCount
  rollbackFailed : e'.rollbackFailed = e.rollbackFailed
  latched : e.fatalSubmitErrno ≠ 0 → e'.fatalSubmitErrno ≠ 0

theorem Engine.SameTables.refl (e : Engine) : e.SameTables e := ⟨rfl, rfl, rfl, rfl, id⟩

theorem Engine.SameTables.trans {e e' e'' : Engine} (h : e.SameTables e')
    (h' : e'.SameTables e'') : e.SameTables e'' where
  buffers := h'.buffers.trans h.buffers
  files := h'.files.trans h.files
  ringCount := h'.ringCount.trans h.ringCount
  rollbackFailed := h'.rollbackFailed.trans h.rollbackFailed
  latched := h'.latched ∘ h.latched

theorem Engine.TablesAgree.of_same {e e' : Engine} (h : e.TablesAgree) (hsame : e.SameTables e') :
    e'.TablesAgree where
  buffers := by rw [hsame.buffers, hsame.ringCount]; exact h.buffers
  files := by
    rw [hsame.files, hsame.ringCount]
    exact h.files.mono fun ht => ⟨hsame.rollbackFailed ▸ ht.1, hsame.latched ht.2⟩

theorem Engine.Frame.sameTables {e e' : Engine} (h : e.Frame e') : e.SameTables e' := by
  have hreg := h.registration
  simp only [Engine.registration, Prod.mk.injEq] at hreg
  obtain ⟨h₁, h₂, -, -, h₃, h₄, h₅, h₆, h₇⟩ := hreg
  exact ⟨TableView.ext h₁ h₃ h₅, TableView.ext h₂ h₄ h₆, h.ringCount, h₇,
    fun hne => by rwa [h.latched hne]⟩

theorem Move.sameTables {w w' : World} (h : Move w w') : w.engine.SameTables w'.engine := by
  cases h with
  | quiet h =>
      cases h with
      | engine h => exact h.sameTables
      | ring => exact ⟨rfl, rfl, rfl, rfl, id⟩
      | _ => exact .refl _
  | ring => exact ⟨rfl, rfl, rfl, rfl, id⟩
  | _ => exact .refl _

theorem steady_sameTables : Steady fun w w' => w.engine.SameTables w'.engine where
  refl _ := .refl _
  trans h h' := h.trans h'
  move h := h.sameTables
  submitted _ _ _ _ _ := ⟨rfl, rfl, rfl, rfl, id⟩
  link _ _ _ := ⟨rfl, rfl, rfl, rfl, id⟩
  lastSqe _ _ := .refl _
  log _ _ _ := .refl _

variable {env : Env} {w w' : World}

/-- A registration system call: the kernel's turn, and the change if it was accepted. -/
theorem kernelRegisterWith_eq_ret {f : Engine → Engine} {r : Option Errno}
    (h : kernelRegisterWith env f w = .ret r w') :
    ∃ e, w.engine.SameTables e ∧ w'.engine = if r.isNone then f e else e := by
  obtain ⟨err, w₁, hreg, h⟩ := bind_eq_ret.mp h
  have hsame : w.engine.SameTables w₁.engine := by
    have hturn := @Quietly.kernelTurn env _ steady_sameTables.moving.toQuietly w
    obtain ⟨_, w₂, h₂, hreg⟩ := bind_eq_ret.mp hreg
    rw [h₂] at hturn
    obtain ⟨-, rfl⟩ := Outcome.ret.inj hreg
    exact hturn
  refine ⟨w₁.engine, hsame, ?_⟩
  cases err with
  | none =>
      obtain ⟨rfl, rfl⟩ := Outcome.ret.inj h
      rfl
  | some e =>
      obtain ⟨rfl, rfl⟩ := Outcome.ret.inj h
      rfl

/-- The write lock of `reg_lock` was free, and now it is held. -/
theorem regWrlock_eq_ret {u : Unit} (h : regWrlock w = .ret u w') :
    w.engine.regWriter = false ∧ w.engine.regReaders = 0 ∧
      w' = { w with engine := { w.engine with regWriter := true } } := by
  unfold regWrlock at h
  rw [await_apply] at h
  split_ifs at h with hfree
  obtain ⟨-, rfl⟩ := Outcome.ret.inj h
  obtain ⟨hw, hr⟩ := not_or.mp hfree
  exact ⟨Bool.eq_false_of_not_eq_true hw, not_not.mp hr, rfl⟩

/-! ## Registering -/

section

variable {α S : Type} {ops : TableOps α} {view : Engine → TableView α} {rest : Engine → S}

/-- The operations on one kind of table, as seen through its view and what lies beside it. -/
structure TableOps.Lawful (ops : TableOps α) (view : Engine → TableView α) (rest : Engine → S) :
    Prop where
  same : ∀ {e e' : Engine}, e.SameTables e' → view e' = view e ∧ rest e' = rest e
  setRecorded : ∀ t (e : Engine), view (ops.setRecorded t e) = (view e).setCopy t ∧
    rest (ops.setRecorded t e) = rest e
  setKernel : ∀ t i (e : Engine), view (ops.setKernel t i e) = (view e).setHeld i t ∧
    rest (ops.setKernel t i e) = rest e
  setRegistered : ∀ e : Engine, view (ops.setRegistered e) = (view e).setRegistered ∧
    rest (ops.setRegistered e) = rest e
  idle : ∀ e : Engine, e.idle ops.type = true → (view e).registered = false

variable (hops : ops.Lawful view rest)

include hops

/-- The registration lock is no part of the tables. -/
theorem TableOps.Lawful.regWriter (e : Engine) (b : Bool) :
    view { e with regWriter := b } = view e ∧ rest { e with regWriter := b } = rest e :=
  hops.same ⟨rfl, rfl, rfl, rfl, id⟩

/-- Undoing a registration: the first `k` rings have no table. -/
theorem clearRings_spec (k : ℕ) (e : Engine) :
    let e' := (List.range k).foldl (fun e j => ops.setKernel none j e) e
    view e' = { view e with held := fun j => if j < k then none else (view e).held j } ∧
      rest e' = rest e := by
  induction k with
  | zero => simp
  | succ k ih =>
      simp only [List.range_succ, List.foldl_append, List.foldl_cons, List.foldl_nil,
        (hops.setKernel _ _ _).1, (hops.setKernel _ _ _).2, ih.1, ih.2, and_true]
      refine TableView.ext rfl rfl (funext fun j => ?_)
      simp only [TableView.setHeld, Function.update_apply]
      split_ifs <;> first | rfl | omega

/-- The registering loop: every ring gets the table, or the rings before one that was refused have
none. -/
theorem registerRings_spec {t : List α} {i n : ℕ} {r : Option Errno}
    (h : registerRings env (ops.setKernel (some t)) (ops.setKernel none) i n w = .ret r w') :
    rest w'.engine = rest w.engine ∧
      (view w.engine).Registering t i (i + n) r.isNone (view w'.engine) := by
  induction n generalizing i w with
  | zero =>
      obtain ⟨rfl, rfl⟩ := Outcome.ret.inj h
      refine ⟨rfl, rfl, rfl, fun j => (if_neg ?_).symm⟩
      omega
  | succ n ih =>
      obtain ⟨err, w₁, hstep, h⟩ := bind_eq_ret.mp h
      obtain ⟨e, hsame, heq⟩ := kernelRegisterWith_eq_ret hstep
      obtain ⟨hview, hrest⟩ := hops.same hsame
      cases err with
      | some err =>
          obtain ⟨_, w₃, hback, h⟩ := bind_eq_ret.mp h
          obtain ⟨rfl, rfl⟩ := Outcome.ret.inj h
          have heq' : w₃.engine = (List.range i).foldl (fun e j => ops.setKernel none j e) e := by
            obtain ⟨-, rfl⟩ := Outcome.ret.inj hback
            simp only [heq, Option.isNone_some, Bool.false_eq_true, if_false]
          have hclear := clearRings_spec hops i e
          simp only [← heq', hview, hrest] at hclear
          refine ⟨hclear.2, ?_⟩
          rw [hclear.1]
          exact ⟨rfl, rfl, i, le_rfl, fun _ => rfl⟩
      | none =>
          obtain ⟨hrest', hreg, hcopy, hheld⟩ := ih h
          simp only [Option.isNone_none, if_true] at heq
          rw [heq, (hops.setKernel _ _ _).1, hview] at hreg hcopy hheld
          rw [heq, (hops.setKernel _ _ _).2, hrest] at hrest'
          refine ⟨hrest', hreg, hcopy, ?_⟩
          simp only [TableView.setHeld, Function.update_apply] at hheld
          cases r with
          | none =>
              intro j
              rw [hheld j]
              split_ifs <;> first | rfl | omega
          | some err =>
              obtain ⟨k, hk, hheld⟩ := hheld
              refine ⟨k, by omega, fun j => ?_⟩
              rw [hheld j]
              split_ifs <;> first | rfl | omega

/-- **Registering is all or nothing**: with a consistent table before, the call succeeds and every
ring has the new table, or it fails and everything is as it was. -/
theorem registerTable_spec {t : List α} {n : ℤ} {torn : Prop}
    (hcons : (view w.engine).Consistent w.engine.ringCount torn)
    (h : registerTable env ops t w = .ret n w') :
    rest w'.engine = rest w.engine ∧ (view w'.engine).Consistent w.engine.ringCount torn ∧
      AllOrNothing n w.engine.ringCount t (view w.engine) (view w'.engine) := by
  have hkeep : ∀ {e : Engine}, w.engine.SameTables e → rest e = rest w.engine ∧
      (view e).Consistent w.engine.ringCount torn ∧
      AllOrNothing (-1) w.engine.ringCount t (view w.engine) (view e) := by
    intro e hsame
    obtain ⟨hview, hrest⟩ := hops.same hsame
    exact ⟨hrest, by rwa [hview], .unchanged hview⟩
  unfold registerTable at h
  rw [Prog.ite_apply] at h
  split at h
  · obtain ⟨rfl, rfl⟩ := Outcome.ret.inj h
    exact hkeep (.refl _)
  obtain ⟨_, w₁, hlock, h⟩ := bind_eq_ret.mp h
  obtain ⟨-, -, rfl⟩ := regWrlock_eq_ret hlock
  rw [Prog.bind_apply, Prog.read_apply, Outcome.bind_ret, Prog.ite_apply] at h
  split at h
  · obtain ⟨rfl, rfl⟩ := Outcome.ret.inj h
    exact hkeep ⟨rfl, rfl, rfl, rfl, id⟩
  next hidle =>
  have hreg : (view w.engine).registered = false := by
    rw [← (hops.regWriter w.engine true).1]
    exact hops.idle _ (by simpa using hidle)
  obtain ⟨hcopy, hagree⟩ := hcons.cleared hreg
  obtain ⟨_, w₁, hrec, h⟩ := bind_eq_ret.mp h
  obtain ⟨r, w₂, hloop, h⟩ := bind_eq_ret.mp h
  have hw₁ : view w₁.engine = (view w.engine).setCopy t ∧ rest w₁.engine = rest w.engine := by
    obtain ⟨-, rfl⟩ := Outcome.ret.inj hrec
    have hlock := hops.regWriter w.engine true
    have hset := hops.setRecorded t { w.engine with regWriter := true }
    rw [hlock.1, hlock.2] at hset
    exact hset
  obtain ⟨hrest, hreg', hcopy', hheld⟩ := registerRings_spec hops hloop
  rw [hw₁.1] at hreg' hcopy' hheld
  rw [hw₁.2] at hrest
  -- how the call ends: one more change of the engine, and the lock is released
  have hend : ∀ {f : Engine → Engine} {w₃ : World} {u : Unit},
      onEngine f w₂ = .ret u w₃ → ∀ b, view { w₃.engine with regWriter := b } = view (f w₂.engine) ∧
        rest { w₃.engine with regWriter := b } = rest (f w₂.engine) := by
    intro f w₃ u hf b
    obtain ⟨-, rfl⟩ := Outcome.ret.inj hf
    exact hops.regWriter (f w₂.engine) b
  cases r with
  | none =>
      obtain ⟨_, w₃, hdone, h⟩ := bind_eq_ret.mp h
      obtain ⟨rfl, rfl⟩ := Outcome.ret.inj h
      obtain ⟨hview₃, hrest₃⟩ := hend hdone false
      rw [(hops.setRegistered _).1] at hview₃
      rw [(hops.setRegistered _).2, hrest] at hrest₃
      have hall : (view w₂.engine).setRegistered.Agrees w.engine.ringCount := by
        intro j hj
        simp only [TableView.recorded, TableView.setRegistered, if_true, hcopy']
        simp only [Option.isNone_none, if_true, zero_add] at hheld
        rw [hheld j, if_pos ⟨Nat.zero_le j, hj⟩]
        rfl
      refine ⟨hrest₃, ⟨.inl ?_, ?_⟩, .inl ⟨rfl, ?_, ?_⟩⟩
      all_goals rw [show view _ = _ from hview₃]
      · exact hall
      · exact fun hfalse => by simp [TableView.setRegistered] at hfalse
      · simp only [TableView.recorded, TableView.setRegistered, if_true, hcopy']
        rfl
      · exact hall
  | some err =>
      obtain ⟨_, w₃, hundo, h⟩ := bind_eq_ret.mp h
      obtain ⟨rfl, rfl⟩ := Outcome.ret.inj h
      obtain ⟨hview₃, hrest₃⟩ := hend hundo false
      rw [(hops.setRecorded _ _).1] at hview₃
      rw [(hops.setRecorded _ _).2, hrest] at hrest₃
      simp only [Option.isNone_some, Bool.false_eq_true, if_false] at hheld
      obtain ⟨k, -, hheld⟩ := hheld
      have hnone : ∀ i < w.engine.ringCount, (view w.engine).held i = none := fun i hi => by
        rw [hagree i hi, TableView.recorded, hreg]
        rfl
      have hback : ∀ i < w.engine.ringCount, (view w₂.engine).held i = none := fun i hi => by
        rw [hheld i]
        split
        · rfl
        · exact hnone i hi
      have hfree : ((view w₂.engine).setCopy []).Agrees w.engine.ringCount := fun i hi => by
        rw [TableView.recorded, show ((view w₂.engine).setCopy []).registered = false from
          hreg'.trans hreg]
        exact hback i hi
      refine ⟨hrest₃, ⟨.inl ?_, fun _ => ⟨?_, ?_⟩⟩, .inr ⟨rfl, ?_, ?_, fun i hi => ?_⟩⟩
      all_goals rw [show view _ = _ from hview₃]
      · exact hfree
      · rfl
      · exact hfree
      · exact hreg'
      · exact hcopy.symm
      · exact (hback i hi).trans (hnone i hi).symm

end

/-- What registering buffers leaves alone. -/
def Engine.besideBuffers (e : Engine) := (e.fileTable, e.ringCount, e.rollbackFailed)

/-- What registering files leaves alone. -/
def Engine.besideFiles (e : Engine) := (e.bufferTable, e.ringCount, e.rollbackFailed)

theorem bufferOps_lawful : bufferOps.Lawful Engine.bufferTable Engine.besideBuffers where
  same h := ⟨h.buffers, by simp only [Engine.besideBuffers, h.files, h.ringCount, h.rollbackFailed]⟩
  setRecorded _ _ := ⟨rfl, rfl⟩
  setKernel _ _ _ := ⟨rfl, rfl⟩
  setRegistered _ := ⟨rfl, rfl⟩
  idle e h := by
    simp only [bufferOps, Engine.idle, Bool.and_eq_true, Bool.not_eq_true'] at h
    exact h.1

theorem fileOps_lawful : fileOps.Lawful Engine.fileTable Engine.besideFiles where
  same h := ⟨h.files, by simp only [Engine.besideFiles, h.buffers, h.ringCount, h.rollbackFailed]⟩
  setRecorded _ _ := ⟨rfl, rfl⟩
  setKernel _ _ _ := ⟨rfl, rfl⟩
  setRegistered _ := ⟨rfl, rfl⟩
  idle e h := by
    simp only [fileOps, Engine.idle, Bool.and_eq_true, Bool.not_eq_true'] at h
    exact h.1

/-- A latched error stays through a program that latches as it should. -/
theorem torn_mono {α : Type} {p : AuraM α} {a : α} (h : p w = .ret a w') (hp : Keeps Latching p)
    (hroll : w'.engine.rollbackFailed = w.engine.rollbackFailed) (ht : w.engine.torn) :
    w'.engine.torn := by
  refine ⟨hroll.trans ht.1, ?_⟩
  have hstay := (hp.ensures w a w' h).1 ht.2
  rw [hstay]
  exact ht.2

/-- Registering buffers. -/
theorem auraRegisterBuffers_spec {iovs : List Iovec} {n : ℤ} (hagree : w.engine.TablesAgree)
    (h : auraRegisterBuffers env iovs w = .ret n w') :
    w'.engine.TablesAgree ∧
      AllOrNothing n w.engine.ringCount iovs w.engine.bufferTable w'.engine.bufferTable := by
  obtain ⟨hrest, hcons, hall⟩ := registerTable_spec bufferOps_lawful hagree.buffers h
  simp only [Engine.besideBuffers, Prod.mk.injEq] at hrest
  obtain ⟨hfiles, hcount, hroll⟩ := hrest
  refine ⟨⟨?_, ?_⟩, hall⟩
  · rw [hcount]
    exact hcons
  · rw [hcount, hfiles]
    exact hagree.files.mono (torn_mono h ((@calling_latching env).auraRegisterBuffers iovs) hroll)

/-- Registering files. -/
theorem auraRegisterFiles_spec {fds : List ℤ} {n : ℤ} (hagree : w.engine.TablesAgree)
    (h : auraRegisterFiles env fds w = .ret n w') :
    w'.engine.TablesAgree ∧
      AllOrNothing n w.engine.ringCount fds w.engine.fileTable w'.engine.fileTable := by
  obtain ⟨hrest, hcons, hall⟩ := registerTable_spec fileOps_lawful hagree.files h
  simp only [Engine.besideFiles, Prod.mk.injEq] at hrest
  obtain ⟨hbuffers, hcount, hroll⟩ := hrest
  refine ⟨⟨?_, ?_⟩, hall⟩
  · rw [hcount, hbuffers]
    exact hagree.buffers
  · rw [hcount]
    exact hcons.mono (torn_mono h ((@calling_latching env).auraRegisterFiles fds) hroll)

/-! ## Updating a file -/

/-- The rings that satisfy `p` have `fd` at `index`. -/
def TableView.withEntry (v : TableView ℤ) (index : ℕ) (fd : ℤ) (p : ℕ → Prop) [DecidablePred p] :
    TableView ℤ :=
  { v with held := fun j => if p j then (v.held j).map (·.set index fd) else v.held j }

/-- Writing the same entry on some rings and on others. -/
theorem TableView.withEntry_withEntry (v : TableView ℤ) (index : ℕ) (fd : ℤ) {p q r : ℕ → Prop}
    [DecidablePred p] [DecidablePred q] [DecidablePred r] (h : ∀ j, r j ↔ p j ∨ q j) :
    (v.withEntry index fd p).withEntry index fd q = v.withEntry index fd r := by
  refine TableView.ext rfl rfl (funext fun j => ?_)
  simp only [withEntry, h j]
  split_ifs with hq hp hp' <;> simp_all [Option.map_map, Function.comp_def, List.set_set]

theorem Engine.setKernelFile_view (e : Engine) (index : ℕ) (fd : ℤ) (i : ℕ) :
    (e.setKernelFile index fd i).fileTable = e.fileTable.withEntry index fd (· = i) ∧
      (e.setKernelFile index fd i).besideFiles = e.besideFiles := by
  refine ⟨TableView.ext rfl rfl (funext fun j => ?_), rfl⟩
  change Function.update e.kernelFiles i _ j = _
  rw [Function.update_apply]
  split
  · next hj => subst hj; exact (if_pos rfl).symm
  · next hj => exact (if_neg hj).symm

/-- One ring is updated, unless the kernel refuses. -/
theorem kernelUpdate_spec {index : ℕ} {fd : ℤ} {i : ℕ} {r : Option Errno}
    (h : kernelRegisterWith env (·.setKernelFile index fd i) w = .ret r w') :
    w'.engine.besideFiles = w.engine.besideFiles ∧ w'.engine.fileTable =
      if r.isNone then w.engine.fileTable.withEntry index fd (· = i) else w.engine.fileTable := by
  obtain ⟨e, hsame, heq⟩ := kernelRegisterWith_eq_ret h
  obtain ⟨hview, hrest⟩ := fileOps_lawful.same hsame
  rw [heq]
  split
  · rw [(e.setKernelFile_view index fd i).1, (e.setKernelFile_view index fd i).2, hview, hrest]
    exact ⟨rfl, rfl⟩
  · exact ⟨hrest, hview⟩

/-- The updating loop: the rings before the one that was refused, or all, have the new entry. -/
theorem updateRings_spec {index : ℕ} {fd : ℤ} {i n : ℕ} {r : Option (Errno × ℕ)}
    (h : updateRings env index fd i n w = .ret r w') :
    w'.engine.besideFiles = w.engine.besideFiles ∧ i ≤ r.elim (i + n) Prod.snd ∧
      w'.engine.fileTable = w.engine.fileTable.withEntry index fd
        (fun j => i ≤ j ∧ j < r.elim (i + n) Prod.snd) := by
  induction n generalizing i w with
  | zero =>
      obtain ⟨rfl, rfl⟩ := Outcome.ret.inj h
      refine ⟨rfl, le_rfl, TableView.ext rfl rfl (funext fun j => (if_neg ?_).symm)⟩
      simp only [Option.elim_none]
      omega
  | succ n ih =>
      obtain ⟨err, w₁, hstep, h⟩ := bind_eq_ret.mp h
      obtain ⟨hrest, hview⟩ := kernelUpdate_spec hstep
      cases err with
      | some err =>
          obtain ⟨rfl, rfl⟩ := Outcome.ret.inj h
          refine ⟨hrest, le_rfl, hview.trans (TableView.ext rfl rfl (funext fun j => ?_))⟩
          refine (if_neg ?_).symm
          simp only [Option.elim_some]
          omega
      | none =>
          obtain ⟨hrest', hle, hview'⟩ := ih h
          rw [Nat.add_assoc, Nat.add_comm 1 n] at hle hview'
          refine ⟨hrest'.trans hrest, by omega, ?_⟩
          rw [hview', hview]
          refine TableView.withEntry_withEntry _ _ _ fun j => ?_
          omega

/-- The roll-back: unless one was refused, the rings of the list have the old entry again. -/
theorem rollbackRings_spec {index : ℕ} {oldFd : ℤ} {js : List ℕ} {failed : Bool}
    (h : rollbackRings env index oldFd js w = .ret failed w') :
    w'.engine.besideFiles = w.engine.besideFiles ∧
      w'.engine.fileTable.registered = w.engine.fileTable.registered ∧
      w'.engine.fileTable.copy = w.engine.fileTable.copy ∧
      (failed = false →
        w'.engine.fileTable = w.engine.fileTable.withEntry index oldFd (· ∈ js)) := by
  induction js generalizing w failed with
  | nil =>
      obtain ⟨rfl, rfl⟩ := Outcome.ret.inj h
      exact ⟨rfl, rfl, rfl, fun _ => TableView.ext rfl rfl (funext fun j => rfl)⟩
  | cons j js ih =>
      obtain ⟨rb, w₁, hstep, h⟩ := bind_eq_ret.mp h
      obtain ⟨failed', w₂, hloop, h⟩ := bind_eq_ret.mp h
      obtain ⟨rfl, rfl⟩ := Outcome.ret.inj h
      obtain ⟨hrest, hview⟩ := kernelUpdate_spec hstep
      obtain ⟨hrest', hreg, hcopy, hall⟩ := ih hloop
      have hsame : w₁.engine.fileTable.registered = w.engine.fileTable.registered ∧
          w₁.engine.fileTable.copy = w.engine.fileTable.copy := by
        rw [hview]
        split <;> exact ⟨rfl, rfl⟩
      refine ⟨hrest'.trans hrest, hreg.trans hsame.1, hcopy.trans hsame.2, fun hok => ?_⟩
      rw [Bool.or_eq_false_iff, Option.isSome_eq_false_iff] at hok
      rw [hall hok.2, hview, if_pos hok.1]
      exact TableView.withEntry_withEntry _ _ _ fun k => List.mem_cons

/-- A table with a new entry on every ring and in the engine agrees if it did. -/
theorem TableView.Agrees.update {v v' : TableView ℤ} {count : ℕ} (index : ℕ) (fd : ℤ)
    (h : v.Agrees count) (hreg : v.registered = true) (hreg' : v'.registered = true)
    (hcopy : v'.copy = v.copy.set index fd)
    (hheld : ∀ i < count, v'.held i = (v.held i).map (·.set index fd)) : v'.Agrees count := by
  intro i hi
  rw [hheld i hi, h i hi, recorded, recorded, hreg, hreg', hcopy]
  rfl

/-- An update that was rolled back on the rings it had reached. -/
theorem TableView.Agrees.rollback {v : TableView ℤ} {count : ℕ} (index k : ℕ) (fd : ℤ)
    (h : v.Agrees count) (hreg : v.registered = true) :
    ((v.withEntry index fd fun j => 0 ≤ j ∧ j < k).withEntry index (v.copy.getD index 0)
      (· ∈ List.range k)).Agrees count := by
  intro i hi
  have hself : v.copy.set index (v.copy.getD index 0) = v.copy := by
    by_cases hlt : index < v.copy.length
    · rw [List.getD_eq_getElem?_getD, List.getElem?_eq_getElem hlt, Option.getD_some,
        List.set_getElem_self]
    · exact List.set_eq_of_length_le (by omega)
  have hi := h i hi
  simp only [recorded, hreg, if_true] at hi
  simp only [withEntry, recorded, hreg, if_true, List.mem_range, Nat.zero_le, true_and]
  split <;> simp [hi, List.set_set, -List.getD_eq_getElem?_getD, hself]

/-- **An update is all or nothing** too, unless its roll-back fails. -/
theorem auraUpdateFile_spec {index fd n : ℤ} (hagree : w.engine.TablesAgree)
    (h : auraUpdateFile env index fd w = .ret n w') :
    w'.engine.TablesAgree ∧
      ((n = 0 ∧ w'.engine.registeredFiles = w.engine.registeredFiles.set index.toNat fd) ∨
        (n = -1 ∧ w'.engine.registeredFiles = w.engine.registeredFiles)) := by
  have hkeep : ∀ {e : Engine}, w.engine.SameTables e → e.TablesAgree ∧
      (((-1 : ℤ) = 0 ∧ e.registeredFiles = w.engine.registeredFiles.set index.toNat fd) ∨
        ((-1 : ℤ) = -1 ∧ e.registeredFiles = w.engine.registeredFiles)) := fun hsame =>
    ⟨hagree.of_same hsame, .inr ⟨rfl, congrArg TableView.copy hsame.files⟩⟩
  have hlatch : Keeps Latching (auraUpdateFile env index fd) :=
    (@calling_latching env).auraUpdateFile index fd
  have hall := h
  unfold auraUpdateFile at h
  rw [Prog.ite_apply] at h
  split at h
  · obtain ⟨rfl, rfl⟩ := Outcome.ret.inj h
    exact hkeep (.refl _)
  obtain ⟨_, w₁, hlock, h⟩ := bind_eq_ret.mp h
  obtain ⟨-, -, rfl⟩ := regWrlock_eq_ret hlock
  rw [Prog.bind_apply, Prog.read_apply, Outcome.bind_ret, Prog.ite_apply] at h
  split at h
  · obtain ⟨rfl, rfl⟩ := Outcome.ret.inj h
    exact hkeep ⟨rfl, rfl, rfl, rfl, id⟩
  next hreg =>
  rw [Prog.ite_apply] at h
  split at h
  · obtain ⟨rfl, rfl⟩ := Outcome.ret.inj h
    exact hkeep ⟨rfl, rfl, rfl, rfl, id⟩
  obtain ⟨r, w₂, hloop, h⟩ := bind_eq_ret.mp h
  obtain ⟨hrest, -, hview⟩ := updateRings_spec hloop
  have hreg : w.engine.fileTable.registered = true := by
    simp only [Bool.or_eq_true, Bool.not_eq_true', not_or, Bool.not_eq_false] at hreg
    exact hreg.1
  simp only [Engine.besideFiles, Prod.mk.injEq] at hrest
  have hbeside : ∀ {e : Engine}, e.bufferTable = w.engine.bufferTable →
      e.ringCount = w.engine.ringCount → e.fileTable.registered = true →
      e.fileTable.Agrees w.engine.ringCount ∨ e.torn → e.TablesAgree := by
    intro e hbuf hcount hreg' hagrees
    refine ⟨?_, ?_⟩
    · rw [hbuf, hcount]
      exact hagree.buffers
    · rw [hcount]
      exact ⟨hagrees, fun hfalse => by simp [hreg'] at hfalse⟩
  cases r with
  | none =>
      obtain ⟨rfl, rfl⟩ := Outcome.ret.inj h
      have hcopy : w₂.engine.registeredFiles = w.engine.registeredFiles :=
        congrArg TableView.copy hview
      have hreg₂ := (congrArg TableView.registered hview).trans hreg
      refine ⟨hbeside hrest.1 hrest.2.1 hreg₂ (hagree.files.agrees.imp
        (fun ha => ha.update index.toNat fd hreg hreg₂ ?_ ?_) (torn_mono hall hlatch hrest.2.2)),
        .inl ⟨rfl, ?_⟩⟩
      · exact congrArg (·.set index.toNat fd) hcopy
      · exact congrArg (·.set index.toNat fd) hcopy
      · intro i hi
        refine (congrFun (congrArg TableView.held hview) i).trans (if_pos ⟨Nat.zero_le i, ?_⟩)
        simpa using hi
  | some p =>
      obtain ⟨err, k⟩ := p
      obtain ⟨failed, w₃, hroll, h⟩ := bind_eq_ret.mp h
      obtain ⟨hrest', hreg', hcopy', hback⟩ := rollbackRings_spec hroll
      simp only [Engine.besideFiles, Prod.mk.injEq] at hrest'
      obtain ⟨_, w₄, hfail, h⟩ := bind_eq_ret.mp h
      obtain ⟨rfl, rfl⟩ := Outcome.ret.inj h
      have hbuf := hrest'.1.trans hrest.1
      have hcount := hrest'.2.1.trans hrest.2.1
      have hreg₃ := hreg'.trans ((congrArg TableView.registered hview).trans hreg)
      have hcopy₃ := hcopy'.trans (congrArg TableView.copy hview)
      cases failed with
      | true =>
          obtain ⟨-, rfl⟩ := Outcome.ret.inj hfail
          have hlatched := (w₃.engine.latch_frame EIO).sameTables
          exact ⟨hbeside (hlatched.buffers.trans hbuf) (hlatched.ringCount.trans hcount)
            ((congrArg TableView.registered hlatched.files).trans hreg₃)
            (.inr ⟨rfl, w₃.engine.latch_ne_zero EIO⟩),
            .inr ⟨rfl, (congrArg TableView.copy hlatched.files).trans hcopy₃⟩⟩
      | false =>
          obtain ⟨-, rfl⟩ := Outcome.ret.inj hfail
          refine ⟨hbeside hbuf hcount hreg₃ (hagree.files.agrees.imp (fun ha => ?_)
            (torn_mono hall hlatch (hrest'.2.2.trans hrest.2.2))), .inr ⟨rfl, hcopy₃⟩⟩
          have hfinal : w₃.engine.fileTable.Agrees w.engine.ringCount := by
            rw [hback rfl, hview]
            exact ha.rollback index.toNat k fd hreg
          exact hfinal

/-! ## Every call keeps the tables in agreement -/

/-- Finalization clears a table everywhere. -/
theorem Engine.TablesAgree.finalize {e : Engine} (h : e.TablesAgree) : e.finalize.TablesAgree := by
  have hbuf : e.finalizeBuffers.TablesAgree := by
    unfold Engine.finalizeBuffers
    split
    · have hclear : ∀ i < e.ringCount,
          (if i < e.ringCount then none else e.kernelBuffers i) = none := fun _ hi => if_pos hi
      exact ⟨⟨.inl hclear, fun _ => ⟨rfl, hclear⟩⟩, h.files⟩
    · exact h
  unfold Engine.finalize Engine.finalizeFiles
  split
  · have hclear : ∀ i < e.finalizeBuffers.ringCount, (if i < e.finalizeBuffers.ringCount then none
        else e.finalizeBuffers.kernelFiles i) = none := fun _ hi => if_pos hi
    exact ⟨hbuf.buffers, ⟨.inl hclear, fun _ => ⟨rfl, hclear⟩⟩⟩
  · exact hbuf

/-- The tables agree afterwards if they did before. -/
def AgreeKept (w w' : World) : Prop := w.engine.TablesAgree → w'.engine.TablesAgree

theorem steady_agree : Steady AgreeKept where
  refl _ := id
  trans h h' := h' ∘ h
  move h := fun hagree => hagree.of_same h.sameTables
  submitted w i _ _ h := fun hagree => hagree.of_same (steady_sameTables.submitted w i h)
  link w i slot := fun hagree => hagree.of_same (steady_sameTables.link w i slot)
  lastSqe _ _ := id
  log _ _ _ := id

theorem agree_onEngine {f : Engine → Engine}
    (hf : ∀ e : Engine, e.TablesAgree → (f e).TablesAgree) :
    Ensures AgreeKept (onEngine f) := by
  intro w _ w' h hagree
  obtain ⟨-, rfl⟩ := Outcome.ret.inj h
  exact hf _ hagree

theorem agree_onTls (f : Tls → Tls) : Ensures AgreeKept (onTls f) := by
  intro w _ w' h hagree
  obtain ⟨-, rfl⟩ := Outcome.ret.inj h
  exact hagree

theorem agree_regWrlock : Ensures AgreeKept regWrlock := by
  intro w _ w' h hagree
  obtain ⟨-, -, rfl⟩ := regWrlock_eq_ret h
  exact hagree.of_same ⟨rfl, rfl, rfl, rfl, id⟩

theorem moving_agree : Moving fun (α : Type) (p : AuraM α) => Ensures AgreeKept p :=
  .of_ensures steady_agree.refl steady_agree.trans steady_agree.move

theorem agree_finalizeDeferredUnregistration :
    Ensures AgreeKept finalizeDeferredUnregistration :=
  moving_agree.andThen agree_regWrlock <| moving_agree.andThen
    (agree_onEngine fun _ h => h.finalize) <| moving_agree.andThen
    (agree_onEngine fun _ h => h.of_same ⟨rfl, rfl, rfl, rfl, id⟩) (moving_agree.pure _)

theorem agree_maybeFinalize : Ensures AgreeKept maybeFinalizeDeferredUnregistration := by
  refine moving_agree.bind (moving_agree.read _) fun e => moving_agree.ite (moving_agree.pure _) ?_
  refine moving_agree.andThen ?_ (moving_agree.bind (moving_agree.read _) fun e' =>
    moving_agree.andThen ?_ (moving_agree.ite (moving_agree.pure _)
      agree_finalizeDeferredUnregistration))
  · intro w _ w' h hagree
    rw [regRdlock_eq_ret h]
    exact hagree.of_same ⟨rfl, rfl, rfl, rfl, id⟩
  · exact agree_onEngine fun _ h => h.of_same ⟨rfl, rfl, rfl, rfl, id⟩

theorem stable_agree : Stable env fun (α : Type) (p : AuraM α) => Ensures AgreeKept p := by
  have hm := steady_agree.moving
  have hfail : ∀ (site : FlushSite) e,
      Keeps AgreeKept (logEvent fun _ => .submitFailed site e) := fun _ _ _ => id
  have haccept : ∀ i k, Keeps AgreeKept (onRing i (·.kernelAccept k)) := fun i k w hagree =>
    hagree.of_same ⟨rfl, rfl, rfl, rfl, id⟩
  refine steady_agree.stable_ensures ?_ (fun i => hm.ringFlushLatching ?_)
    (fun i => hm.flushQueued ?_) (fun i => hm.ringFlush ?_) agree_maybeFinalize
  · intro cb hcb q res
    refine moving_agree.bind (moving_agree.read _) fun saved => moving_agree.when ?_
    refine moving_agree.andThen ?_ (moving_agree.andThen (agree_onTls _)
      (moving_agree.andThen (hcb q res) (agree_onTls _)))
    intro w _ w' h hagree
    obtain ⟨-, rfl⟩ := Outcome.ret.inj h
    exact hagree
  all_goals exact hm.ioUringSubmit (hfail _) haccept i

/-- **Every library call keeps the tables in agreement**, whatever its callbacks do, as long as they
keep it too. -/
theorem apiStable_agree : ApiStable env fun (α : Type) (p : AuraM α) => Ensures AgreeKept p where
  toStable := stable_agree
  submission hcb call args := by
    refine stable_agree.auraSubmit_ensures steady_agree.trans (fun w err => ?_)
      (fun {w w' locked} h => ?_) hcb call args
    · exact fun hagree => hagree.of_same ⟨rfl, rfl, rfl, rfl, id⟩
    · intro hagree
      exact (h (hagree.of_same ⟨rfl, rfl, rfl, rfl, id⟩)).of_same ⟨rfl, rfl, rfl, rfl, id⟩
  registerBuffers _ _ _ _ h hagree := (auraRegisterBuffers_spec hagree h).1
  registerFiles _ _ _ _ h hagree := (auraRegisterFiles_spec hagree h).1
  requestUnregister type := by
    have hunlock : Ensures AgreeKept regWrunlock :=
      agree_onEngine fun _ h => h.of_same ⟨rfl, rfl, rfl, rfl, id⟩
    refine moving_agree.andThen agree_regWrlock (moving_agree.bind (moving_agree.read _) fun e =>
      moving_agree.ite (moving_agree.andThen hunlock (moving_agree.pure _)) ?_)
    refine moving_agree.andThen (agree_onEngine fun e h => ?_)
      (moving_agree.andThen hunlock agree_finalizeDeferredUnregistration)
    cases type <;> exact h.of_same ⟨rfl, rfl, rfl, rfl, id⟩
  updateFile _ _ _ _ _ h hagree := (auraUpdateFile_spec hagree h).1

/-! ## The result -/

/-- A kernel that refuses the second registration call it gets. -/
def refusingEnv : Env :=
  { calmEnv with register := fun clock => if clock = 2 then some ⟨12, by decide⟩ else none }

end Aura
