import Mathlib.Data.List.Nodup
import Mathlib.Data.List.Infix
import Mathlib.Logic.Function.Basic

/-!
# Every item is handed out once

Participants take items from a queue, and add the parts of what they took. Where an item is part of
one other item at most, every item is queued once and taken once.

* `Handout.Orderly.step` — what was taken and what is queued has no item twice, and what a
  participant is about to add is new. -/

namespace Aura.Lib

/-- A queue, with what was taken from it, what each participant is still at, and what it is about to
add. -/
structure Handout (ι α : Type*) where
  queue : List α
  taken : List α
  batch : ι → List α
  fresh : ι → List α

namespace Handout

variable {ι α : Type*} {sub : α → List α} {p q : Handout ι α} {i : ι} {x : α}

/-- All that was ever queued. -/
def all (p : Handout ι α) : List α := p.taken ++ p.queue

/-- An item that was taken and that nobody is at any more. -/
def Collected (p : Handout ι α) (x : α) : Prop := x ∈ p.taken ∧ ∀ i, x ∉ p.batch i

/-- Each item is part of one other item at most, and none is part of the first one. -/
structure Parts (sub : α → List α) (root : α) : Prop where
  apart : ∀ x y z, z ∈ sub x → z ∈ sub y → x = y
  first : ∀ x, root ∉ sub x

/-- **The order of a handout.** -/
structure Orderly (sub : α → List α) (root : α) (p : Handout ι α) : Prop where
  nodup : p.all.Nodup
  first : root ∈ p.taken
  batch : ∀ i, ∀ x ∈ p.batch i, x ∈ p.taken
  batchNodup : ∀ i, (p.batch i).Nodup
  batchApart : ∀ i j x, x ∈ p.batch i → x ∈ p.batch j → i = j
  fresh : ∀ i, ∀ x ∈ p.fresh i, x ∉ p.all
  freshNodup : ∀ i, (p.fresh i).Nodup
  freshApart : ∀ i j x, x ∈ p.fresh i → x ∈ p.fresh j → i = j
  origin : ∀ x, (x ∈ p.all ∧ x ≠ root) ∨ (∃ i, x ∈ p.fresh i) → ∃ y, x ∈ sub y ∧ p.Collected y

variable {root : α}

/-- A part of something that a participant is at was not queued, and nobody has it. -/
theorem Orderly.unseen (h : Orderly sub root p) (hparts : Parts sub root) {y : α}
    (hy : y ∈ p.batch i) (hx : x ∈ sub y) : x ∉ p.all ∧ ∀ j, x ∉ p.fresh j := by
  have hno (hsome : (x ∈ p.all ∧ x ≠ root) ∨ ∃ j, x ∈ p.fresh j) : False := by
    obtain ⟨z, hz, -, hnone⟩ := h.origin x hsome
    exact hnone i (hparts.apart y z x hx hz ▸ hy)
  refine ⟨fun hall => hno (.inl ⟨hall, ?_⟩), fun j hj => hno (.inr ⟨j, hj⟩)⟩
  rintro rfl
  exact hparts.first y hx

variable [DecidableEq ι]

/-- What a participant can do. -/
inductive Step (sub : α → List α) (p : Handout ι α) (i : ι) : Handout ι α → Prop
  /-- It takes the first items; some of them it does not look at. -/
  | take {ds rest keep : List α} (hqueue : p.queue = ds ++ rest) (hbatch : p.batch i = [])
      (hkeep : keep.Sublist ds) :
      Step sub p i { p with
        queue := rest
        taken := p.taken ++ ds
        batch := Function.update p.batch i keep }
  /-- It is through with what it took, and has parts of it. -/
  | collect {list : List α} (hfresh : p.fresh i = []) (hnodup : list.Nodup)
      (hsub : ∀ x ∈ list, ∃ y ∈ p.batch i, x ∈ sub y) :
      Step sub p i { p with
        batch := Function.update p.batch i []
        fresh := Function.update p.fresh i list }
  /-- It adds some of its new items. -/
  | push {xs ys : List α} (hfresh : p.fresh i = xs ++ ys) :
      Step sub p i { p with
        queue := p.queue ++ xs
        fresh := Function.update p.fresh i ys }
  /-- It drops some of them. -/
  | drop {ys : List α} (hys : ys.Sublist (p.fresh i)) :
      Step sub p i { p with fresh := Function.update p.fresh i ys }

variable {f : ι → List α} {l : List α} {j : ι}

/-- Membership after one list was replaced. -/
theorem mem_update : x ∈ Function.update f i l j ↔ (j = i ∧ x ∈ l) ∨ (j ≠ i ∧ x ∈ f j) := by
  by_cases hji : j = i
  · rw [hji, Function.update_self]
    exact ⟨fun hx => .inl ⟨rfl, hx⟩, fun hx => hx.elim And.right fun hno => absurd rfl hno.1⟩
  · rw [Function.update_of_ne hji]
    exact ⟨fun hx => .inr ⟨hji, hx⟩, fun hx => hx.elim (fun hno => absurd hno.1 hji) And.right⟩

theorem nodup_update (hl : l.Nodup) (hf : ∀ j, (f j).Nodup) (j : ι) :
    (Function.update f i l j).Nodup := by
  by_cases hji : j = i
  · rw [hji, Function.update_self]
    exact hl
  · rw [Function.update_of_ne hji]
    exact hf j

/-- Items are taken. -/
theorem Orderly.take (h : Orderly sub root p) {ds rest keep : List α}
    (hqueue : p.queue = ds ++ rest)
    (hkeep : keep.Sublist ds) :
    Orderly sub root { p with
      queue := rest
      taken := p.taken ++ ds
      batch := Function.update p.batch i keep } := by
  have hall : (p.taken ++ ds) ++ rest = p.all := by
    unfold all
    rw [hqueue, List.append_assoc]
  have hnodup := List.nodup_append.mp (List.nodup_append.mp (hall ▸ h.nodup)).1
  have hold {x : α} (hx : x ∈ p.taken) : x ∉ keep := fun hmem =>
    hnodup.2.2 x hx x (hkeep.subset hmem) rfl
  refine ⟨?_, List.mem_append_left _ h.first, fun j x hx => ?_,
    nodup_update (hnodup.2.1.sublist hkeep) h.batchNodup, fun j k x hj hk => ?_, fun j x hx => ?_,
    h.freshNodup, h.freshApart, fun x hx => ?_⟩
  · change ((p.taken ++ ds) ++ rest).Nodup
    rw [hall]
    exact h.nodup
  · rcases mem_update.mp hx with ⟨-, hx⟩ | ⟨-, hx⟩
    · exact List.mem_append_right _ (hkeep.subset hx)
    · exact List.mem_append_left _ (h.batch j x hx)
  · rcases mem_update.mp hj with ⟨hji, hj'⟩ | ⟨-, hj'⟩ <;>
      rcases mem_update.mp hk with ⟨hki, hk'⟩ | ⟨-, hk'⟩
    · rw [hji, hki]
    · exact absurd hj' (hold (h.batch k x hk'))
    · exact absurd hk' (hold (h.batch j x hj'))
    · exact h.batchApart j k x hj' hk'
  · change x ∉ (p.taken ++ ds) ++ rest
    rw [hall]
    exact h.fresh j x hx
  · change (x ∈ (p.taken ++ ds) ++ rest ∧ x ≠ root) ∨ (∃ j, x ∈ p.fresh j) at hx
    rw [hall] at hx
    obtain ⟨y, hy, htaken, hnone⟩ := h.origin x hx
    refine ⟨y, hy, List.mem_append_left _ htaken, fun j hj => ?_⟩
    rcases mem_update.mp hj with ⟨-, hj⟩ | ⟨-, hj⟩
    · exact hold htaken hj
    · exact hnone j hj

/-- Parts are collected. -/
theorem Orderly.collect (h : Orderly sub root p) (hparts : Parts sub root) (hnodup : l.Nodup)
    (hsub : ∀ x ∈ l, ∃ y ∈ p.batch i, x ∈ sub y) :
    Orderly sub root { p with
      batch := Function.update p.batch i []
      fresh := Function.update p.fresh i l } := by
  have hnew {x : α} (hx : x ∈ l) : x ∉ p.all ∧ ∀ j, x ∉ p.fresh j := by
    obtain ⟨y, hy, hxy⟩ := hsub x hx
    exact h.unseen hparts hy hxy
  have hless {j : ι} {x : α} (hx : x ∈ Function.update p.batch i [] j) :
      j ≠ i ∧ x ∈ p.batch j := by
    rcases mem_update.mp hx with ⟨-, hx⟩ | hx
    · cases hx
    · exact hx
  refine ⟨h.nodup, h.first, fun j x hx => h.batch j x (hless hx).2,
    nodup_update List.nodup_nil h.batchNodup,
    fun j k x hj hk => h.batchApart j k x (hless hj).2 (hless hk).2, fun j x hx => ?_,
    nodup_update hnodup h.freshNodup, fun j k x hj hk => ?_, fun x hx => ?_⟩
  · rcases mem_update.mp hx with ⟨-, hx⟩ | ⟨-, hx⟩
    · exact (hnew hx).1
    · exact h.fresh j x hx
  · rcases mem_update.mp hj with ⟨hji, hj'⟩ | ⟨-, hj'⟩ <;>
      rcases mem_update.mp hk with ⟨hki, hk'⟩ | ⟨-, hk'⟩
    · rw [hji, hki]
    · exact absurd hk' ((hnew hj').2 k)
    · exact absurd hj' ((hnew hk').2 j)
    · exact h.freshApart j k x hj' hk'
  · have hkept {y : α} (hxy : x ∈ sub y) (hy : p.Collected y) :
        ∃ y, x ∈ sub y ∧ y ∈ p.taken ∧ ∀ j, y ∉ Function.update p.batch i [] j :=
      ⟨y, hxy, hy.1, fun j hj => hy.2 j (hless hj).2⟩
    rcases hx with hall | ⟨j, hj⟩
    · obtain ⟨y, hxy, hy⟩ := h.origin x (.inl hall)
      exact hkept hxy hy
    · rcases mem_update.mp hj with ⟨-, hj⟩ | ⟨-, hj⟩
      · obtain ⟨y, hy, hxy⟩ := hsub x hj
        exact ⟨y, hxy, h.batch i y hy, fun k hk =>
          (hless hk).1 (h.batchApart k i y (hless hk).2 hy)⟩
      · obtain ⟨y, hxy, hy⟩ := h.origin x (.inr ⟨j, hj⟩)
        exact hkept hxy hy

/-- New items are queued. -/
theorem Orderly.push (h : Orderly sub root p) {xs ys : List α} (hfresh : p.fresh i = xs ++ ys) :
    Orderly sub root { p with
      queue := p.queue ++ xs
      fresh := Function.update p.fresh i ys } := by
  have hall : p.taken ++ (p.queue ++ xs) = p.all ++ xs := (List.append_assoc _ _ _).symm
  have hxs {x : α} (hx : x ∈ xs) : x ∈ p.fresh i := by
    rw [hfresh]
    exact List.mem_append_left _ hx
  have hys {x : α} (hx : x ∈ ys) : x ∈ p.fresh i := by
    rw [hfresh]
    exact List.mem_append_right _ hx
  have hsplit := List.nodup_append.mp (hfresh ▸ h.freshNodup i)
  have hmem {j : ι} {x : α} (hx : x ∈ Function.update p.fresh i ys j) : x ∈ p.fresh j ∧ x ∉ xs := by
    rcases mem_update.mp hx with ⟨hji, hx'⟩ | ⟨hji, hx'⟩
    · exact ⟨hji ▸ hys hx', fun hmem => hsplit.2.2 x hmem x hx' rfl⟩
    · exact ⟨hx', fun hmem => hji (h.freshApart j i x hx' (hxs hmem))⟩
  refine ⟨?_, h.first, h.batch, h.batchNodup, h.batchApart, fun j x hx hx' => ?_,
    nodup_update hsplit.2.1 h.freshNodup,
    fun j k x hj hk => h.freshApart j k x (hmem hj).1 (hmem hk).1, fun x hx => h.origin x ?_⟩
  · change (p.taken ++ (p.queue ++ xs)).Nodup
    rw [hall]
    refine List.nodup_append.mpr ⟨h.nodup, hsplit.1, fun x hx y hy heq => ?_⟩
    exact h.fresh i y (hxs hy) (heq ▸ hx)
  · change x ∈ p.taken ++ (p.queue ++ xs) at hx'
    rw [hall] at hx'
    rcases List.mem_append.mp hx' with hold | hpushed
    · exact h.fresh j x (hmem hx).1 hold
    · exact (hmem hx).2 hpushed
  · rcases hx with ⟨hx', hne⟩ | ⟨j, hj⟩
    · change x ∈ p.taken ++ (p.queue ++ xs) at hx'
      rw [hall] at hx'
      rcases List.mem_append.mp hx' with hold | hpushed
      · exact .inl ⟨hold, hne⟩
      · exact .inr ⟨i, hxs hpushed⟩
    · exact .inr ⟨j, (hmem hj).1⟩

/-- New items are dropped. -/
theorem Orderly.drop (h : Orderly sub root p) (hl : l.Sublist (p.fresh i)) :
    Orderly sub root { p with fresh := Function.update p.fresh i l } := by
  have hmem {j : ι} {x : α} (hx : x ∈ Function.update p.fresh i l j) : x ∈ p.fresh j := by
    rcases mem_update.mp hx with ⟨hji, hx'⟩ | ⟨-, hx'⟩
    · exact hji ▸ hl.subset hx'
    · exact hx'
  refine ⟨h.nodup, h.first, h.batch, h.batchNodup, h.batchApart,
    fun j x hx => h.fresh j x (hmem hx),
    nodup_update ((h.freshNodup i).sublist hl) h.freshNodup,
    fun j k x hj hk => h.freshApart j k x (hmem hj) (hmem hk),
    fun x hx => h.origin x (hx.imp id ?_)⟩
  rintro ⟨j, hj⟩
  exact ⟨j, hmem hj⟩

/-- **Every step keeps the order.** -/
theorem Orderly.step (h : Orderly sub root p) (hparts : Parts sub root) (hstep : Step sub p i q) :
    Orderly sub root q := by
  cases hstep with
  | take hqueue hbatch hkeep => exact h.take hqueue hkeep
  | collect hfresh hnodup hsub => exact h.collect hparts hnodup hsub
  | push hfresh => exact h.push hfresh
  | drop hys => exact h.drop hys

/-- Who gives up all it was at is through with it. -/
theorem Orderly.collected (h : Orderly sub root p) (htaken : q.taken = p.taken)
    (hbatch : q.batch = Function.update p.batch i []) (hx : x ∈ p.batch i) : q.Collected x := by
  refine ⟨htaken ▸ h.batch i x hx, fun j hj => ?_⟩
  rw [hbatch] at hj
  rcases mem_update.mp hj with ⟨-, hmem⟩ | ⟨hne, hmem⟩
  · cases hmem
  · exact hne (h.batchApart j i x hmem hx)

/-- **What somebody is through with** stays so. -/
theorem Step.collected (hstep : Step sub p i q) (h : Orderly sub root p) (hx : p.Collected x) :
    q.Collected x := by
  obtain ⟨htaken, hnone⟩ := hx
  cases hstep with
  | @take ds rest keep hqueue hbatch hkeep =>
      refine ⟨List.mem_append_left _ htaken, fun j hj => ?_⟩
      rcases mem_update.mp hj with ⟨-, hmem⟩ | ⟨-, hmem⟩
      · have hall := (List.nodup_append.mp h.nodup).2.2 x htaken x
        refine hall ?_ rfl
        rw [hqueue]
        exact List.mem_append_left _ (hkeep.subset hmem)
      · exact hnone j hmem
  | collect =>
      refine ⟨htaken, fun j hj => ?_⟩
      rcases mem_update.mp hj with ⟨-, hmem⟩ | ⟨-, hmem⟩
      · cases hmem
      · exact hnone j hmem
  | push | drop => exact ⟨htaken, hnone⟩

end Handout

end Aura.Lib
