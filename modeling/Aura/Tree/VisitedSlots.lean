import Aura.Lib.Contest
import Aura.Tree.Visited

/-!
# Slots of the visited set

Every slot that is not empty was claimed by one call, and has its tag and its key once they are
stored (`Slots`). A call walks along the search path of its pair (`Walks`).

* `InsertMoves` — what a step of a call can do, with `insertStep_moves`.
* `Slots.step`, `Walks.step` — every step keeps both.
-/

namespace Aura

open Lib

/-! ## Moves -/

/-- What a step of `visited_insert` can do. -/
inductive InsertMoves (vs : VisitedSet) (key : DevIno) : InsertPc → VisitedSet → InsertPc → Prop
  | enter (hload : vs.full = false) : InsertMoves vs key .start vs (.probe 0 (vs.home key))
  | full (hload : vs.full = true) : InsertMoves vs key .start vs .refused
  | exhausted {i idx : ℕ} (hi : ¬ i < vs.cap) : InsertMoves vs key (.probe i idx) vs .refused
  | empty {i idx : ℕ} (hi : i < vs.cap) : InsertMoves vs key (.probe i idx) vs (.claim i idx)
  | pass {pc : InsertPc} {i idx : ℕ} (hpc : pc = .probe i idx ∨ pc = .claim i idx) :
      InsertMoves vs key pc vs (.probe (i + 1) (vs.next idx))
  | present {pc : InsertPc} {i idx : ℕ} (hpc : pc = .probe i idx ∨ pc = .claim i idx)
      (hheld : vs.holds key idx = true) : InsertMoves vs key pc vs .refused
  | claim {i idx : ℕ} (hfree : vs.buckets idx = 0) :
      InsertMoves vs key (.claim i idx) (vs.store idx visitedPending) (.writeKey idx)
  | write {idx : ℕ} :
      InsertMoves vs key (.writeKey idx) { vs with keys := Function.update vs.keys idx key }
        (.publish idx)
  | publish {idx : ℕ} :
      InsertMoves vs key (.publish idx) (vs.store idx (visitedTag key))
        (.rescan idx (vs.home key))
  | check {idx j : ℕ} (hne : j ≠ idx) (hheld : vs.holds key j = false) :
      InsertMoves vs key (.rescan idx j) vs (.rescan idx (vs.next j))
  | duplicate {idx j : ℕ} (hne : j ≠ idx) (hheld : vs.holds key j = true) :
      InsertMoves vs key (.rescan idx j) vs (.release idx)
  | insert {idx : ℕ} :
      InsertMoves vs key (.rescan idx idx) { vs with count := vs.count + 1 } (.inserted idx)
  | release {idx : ℕ} : InsertMoves vs key (.release idx) (vs.store idx 0) .refused

theorem passOrRefuse_moves {vs : VisitedSet} {key : DevIno} {pc : InsertPc} {i idx : ℕ}
    (hpc : pc = .probe i idx ∨ pc = .claim i idx) :
    InsertMoves vs key pc vs (vs.passOrRefuse key i idx) := by
  unfold VisitedSet.passOrRefuse
  by_cases hpending : vs.buckets idx = visitedPending
  · rw [if_pos hpending]
    exact .pass hpc
  · rw [if_neg hpending]
    split_ifs with hheld
    · exact .present hpc hheld
    · exact .pass hpc

/-- Every step is one of the moves. -/
theorem insertStep_moves {vs vs' : VisitedSet} {key : DevIno} {pc pc' : InsertPc}
    (h : vs.insertStep key pc = some (vs', pc')) : InsertMoves vs key pc vs' pc' := by
  cases pc with
  | start =>
      simp only [VisitedSet.insertStep, Option.some.injEq, Prod.mk.injEq] at h
      obtain ⟨rfl, rfl⟩ := h
      cases hload : vs.full with
      | true => exact .full hload
      | false => exact .enter hload
  | probe i idx =>
      simp only [VisitedSet.insertStep] at h
      split_ifs at h with hi hempty
      · obtain ⟨rfl, rfl⟩ := Prod.mk.inj (Option.some.inj h)
        exact .empty hi
      · obtain ⟨rfl, rfl⟩ := Prod.mk.inj (Option.some.inj h)
        exact passOrRefuse_moves (.inl rfl)
      · obtain ⟨rfl, rfl⟩ := Prod.mk.inj (Option.some.inj h)
        exact .exhausted hi
  | claim i idx =>
      simp only [VisitedSet.insertStep] at h
      split_ifs at h with hempty
      · obtain ⟨rfl, rfl⟩ := Prod.mk.inj (Option.some.inj h)
        exact .claim hempty
      · obtain ⟨rfl, rfl⟩ := Prod.mk.inj (Option.some.inj h)
        exact passOrRefuse_moves (.inr rfl)
  | writeKey idx =>
      obtain ⟨rfl, rfl⟩ := Prod.mk.inj (Option.some.inj h)
      exact .write
  | publish idx =>
      obtain ⟨rfl, rfl⟩ := Prod.mk.inj (Option.some.inj h)
      exact .publish
  | rescan idx j =>
      simp only [VisitedSet.insertStep] at h
      split_ifs at h with hj hheld
      · obtain ⟨rfl, rfl⟩ := Prod.mk.inj (Option.some.inj h)
        subst hj
        exact .insert
      · obtain ⟨rfl, rfl⟩ := Prod.mk.inj (Option.some.inj h)
        exact .duplicate hj hheld
      · obtain ⟨rfl, rfl⟩ := Prod.mk.inj (Option.some.inj h)
        exact .check hj (Bool.eq_false_of_not_eq_true hheld)
  | release idx =>
      obtain ⟨rfl, rfl⟩ := Prod.mk.inj (Option.some.inj h)
      exact .release
  | inserted idx => cases h
  | refused => cases h

/-! ## Search paths -/

theorem visitedInitCap_pos : 0 < visitedInitCap := by decide

theorem home_eq {vs : VisitedSet} (hcap : vs.cap = visitedInitCap) (key : DevIno) :
    vs.home key = visitedInit.home key := by
  unfold VisitedSet.home
  rw [hcap]
  rfl

theorem home_lt (key : DevIno) : visitedInit.home key < visitedInitCap := by
  unfold VisitedSet.home
  change (visitedHash key).toNat &&& (2 ^ 20 - 1) < 2 ^ 20
  rw [Nat.and_two_pow_sub_one_eq_mod]
  exact Nat.mod_lt _ (by decide)

theorem next_eq {vs : VisitedSet} (hcap : vs.cap = visitedInitCap) (idx : ℕ) :
    vs.next idx = (idx + 1) % visitedInitCap := by
  unfold VisitedSet.next
  rw [hcap]
  exact Nat.and_two_pow_sub_one_eq_mod _ 20

namespace VisitedRun

variable {key : DevIno} {idx j : ℕ}

theorem rank_lt : rank key idx < visitedInitCap := Nat.mod_lt _ visitedInitCap_pos

theorem rank_cell (key : DevIno) {y : ℕ} (hy : y < visitedInitCap) :
    rank key (Probing.cell visitedInitCap (visitedInit.home key) y) = y := by
  have hdist := Probing.dist_cell (b := visitedInit.home key)
    visitedInitCap_pos visitedInitCap_pos hy
  rw [Probing.cell_zero (home_lt key), if_pos (Nat.zero_le y)] at hdist
  exact hdist

/-- A slot from its rank. -/
theorem cell_rank (key : DevIno) (hidx : idx < visitedInitCap) :
    Probing.cell visitedInitCap (visitedInit.home key) (rank key idx) = idx := by
  obtain ⟨y, hy, rfl⟩ := Probing.exists_cell (visitedInit.home key) hidx
  rw [rank_cell key hy]

theorem rank_home : rank key (visitedInit.home key) = 0 := by
  have h := rank_cell key visitedInitCap_pos
  rwa [Probing.cell_zero (home_lt key)] at h

theorem rank_inj (hidx : idx < visitedInitCap) (hj : j < visitedInitCap)
    (h : rank key idx = rank key j) : idx = j := by
  rw [← cell_rank key hidx, ← cell_rank key hj, h]

/-- The next slot has the next rank. -/
theorem rank_next {vs : VisitedSet} (hcap : vs.cap = visitedInitCap) (hj : j < visitedInitCap)
    (hlt : rank key j + 1 < visitedInitCap) :
    vs.next j < visitedInitCap ∧ rank key (vs.next j) = rank key j + 1 := by
  rw [next_eq hcap]
  refine ⟨Nat.mod_lt _ visitedInitCap_pos, ?_⟩
  conv_lhs => rw [← cell_rank key hj, Probing.cell_succ]
  exact rank_cell key hlt

end VisitedRun

/-! ## Slots -/

theorem visitedTag_ne (key : DevIno) : visitedTag key ≠ 0 ∧ visitedTag key ≠ visitedPending := by
  unfold visitedTag
  split_ifs with hle
  · have hcases : visitedHash key = 0 ∨ visitedHash key = 1 := by
      have hnat : (visitedHash key).toNat ≤ 1 := UInt64.le_iff_toNat_le.mp hle
      rcases Nat.le_one_iff_eq_zero_or_eq_one.mp hnat with hzero | hone
      · exact .inl (UInt64.toNat_inj.mp hzero)
      · exact .inr (UInt64.toNat_inj.mp hone)
    rcases hcases with hhash | hhash
    · rw [hhash]
      decide
    · rw [hhash]
      decide
  · refine ⟨fun hzero => hle ?_, fun hone => hle ?_⟩
    · rw [hzero]
      decide
    · rw [hone]
      exact UInt64.le_refl _

theorem pending_none_or {pc : InsertPc} {idx : ℕ} (hslot : pc.slot? = some idx) :
    pc.pending? = none ∨ pc.pending? = some idx := by
  cases pc with
  | writeKey | publish => exact .inr hslot
  | rescan | release | inserted => exact .inl rfl
  | _ => cases hslot

theorem slot_of_pending {pc : InsertPc} {idx : ℕ} (h : pc.pending? = some idx) :
    pc.slot? = some idx := by
  cases pc with
  | writeKey | publish => exact h
  | _ => cases h

/-- **The slots**: each is claimed by one call at most, is marked until its tag is stored, and then
has the tag and the key of its call. -/
structure Slots (key : ℕ → DevIno) (vs : VisitedSet) (pc : ℕ → InsertPc) : Prop where
  owner : ∀ c c' idx, (pc c).slot? = some idx → (pc c').slot? = some idx → c = c'
  pending : ∀ c idx, (pc c).pending? = some idx → vs.buckets idx = visitedPending
  tagged : ∀ c idx, (pc c).slot? = some idx → (pc c).pending? = none →
    vs.buckets idx = visitedTag (key c) ∧ vs.keys idx = key c
  written : ∀ c idx, pc c = .publish idx → vs.keys idx = key c
  claimed : ∀ idx, vs.buckets idx ≠ 0 → ∃ c, (pc c).slot? = some idx

namespace Slots

variable {key : ℕ → DevIno} {vs vs' : VisitedSet} {pc : ℕ → InsertPc} {c c' : ℕ} {x : InsertPc}
  {idx : ℕ}

theorem bucket_ne (h : Slots key vs pc) (hslot : (pc c).slot? = some idx) :
    vs.buckets idx ≠ 0 := by
  rcases pending_none_or hslot with hpending | hpending
  · rw [(h.tagged c idx hslot hpending).1]
    exact (visitedTag_ne (key c)).1
  · rw [h.pending c idx hpending]
    decide

/-- A slot that has the tag and the key was published by a call for the pair. -/
theorem of_holds {k : DevIno} (h : Slots key vs pc) (hheld : vs.holds k idx = true) :
    ∃ c, (pc c).slot? = some idx ∧ key c = k := by
  obtain ⟨htag, hkey⟩ := of_decide_eq_true hheld
  obtain ⟨c, hslot⟩ := h.claimed idx (by rw [htag]; exact (visitedTag_ne k).1)
  refine ⟨c, hslot, ?_⟩
  rcases pending_none_or hslot with hpending | hpending
  · exact (h.tagged c idx hslot hpending).2.symm.trans hkey
  · have hbucket := h.pending c idx hpending
    rw [htag] at hbucket
    exact absurd hbucket (visitedTag_ne k).2

/-- The slot of a call for the pair that is published has the tag and the key. -/
theorem holds_of (h : Slots key vs pc) (hslot : (pc c).slot? = some idx)
    (hpending : (pc c).pending? = none) : vs.holds (key c) idx = true :=
  decide_eq_true (h.tagged c idx hslot hpending)

/-- A move that leaves the buckets and the slot of the call as they are. -/
theorem quiet (h : Slots key vs pc) (hbuckets : vs'.buckets = vs.buckets)
    (hkeys : vs'.keys = vs.keys) (hslot : x.slot? = (pc c).slot?)
    (hpending : x.pending? = (pc c).pending?) (hpublish : ∀ idx, x ≠ .publish idx) :
    Slots key vs' (Function.update pc c x) := by
  have hslots (c' : ℕ) : (Function.update pc c x c').slot? = (pc c').slot? ∧
      (Function.update pc c x c').pending? = (pc c').pending? := by
    by_cases hc : c' = c
    · rw [hc, Function.update_self]
      exact ⟨hslot, hpending⟩
    · rw [Function.update_of_ne hc]
      exact ⟨rfl, rfl⟩
  refine ⟨fun c c' idx hc hc' => ?_, fun c idx hc => ?_, fun c idx hc hno => ?_,
    fun c' idx hc => ?_,
    fun idx hne => ?_⟩
  · rw [(hslots c).1] at hc
    rw [(hslots c').1] at hc'
    exact h.owner c c' idx hc hc'
  · rw [hbuckets]
    rw [(hslots c).2] at hc
    exact h.pending c idx hc
  · rw [hbuckets, hkeys]
    rw [(hslots c).1] at hc
    rw [(hslots c).2] at hno
    exact h.tagged c idx hc hno
  · rw [hkeys]
    by_cases heq : c' = c
    · rw [heq, Function.update_self] at hc
      exact absurd hc (hpublish idx)
    · rw [Function.update_of_ne heq] at hc
      exact h.written c' idx hc
  · rw [hbuckets] at hne
    obtain ⟨c', hc'⟩ := h.claimed idx hne
    exact ⟨c', (hslots c').1.trans hc'⟩

/-- A free slot is claimed. -/
theorem claim (h : Slots key vs pc) (hnone : (pc c).slot? = none) (hfree : vs.buckets idx = 0) :
    Slots key (vs.store idx visitedPending) (Function.update pc c (.writeKey idx)) := by
  have hself : Function.update pc c (.writeKey idx) c = .writeKey idx := Function.update_self _ _ _
  have hother {c' : ℕ} (hc : c' ≠ c) : Function.update pc c (.writeKey idx) c' = pc c' :=
    Function.update_of_ne hc _ _
  have hne {c' j : ℕ} (hslot : (pc c').slot? = some j) : j ≠ idx := by
    rintro rfl
    exact h.bucket_ne hslot hfree
  have hbucket {j : ℕ} (hj : j ≠ idx) : (vs.store idx visitedPending).buckets j = vs.buckets j :=
    Function.update_of_ne hj _ _
  have hmarked : (vs.store idx visitedPending).buckets idx = visitedPending :=
    Function.update_self _ _ _
  refine ⟨fun c₁ c₂ j h₁ h₂ => ?_, fun c' j hc => ?_, fun c' j hc hno => ?_, fun c' j hc => ?_,
    fun j hj => ?_⟩
  · by_cases hc₁ : c₁ = c <;> by_cases hc₂ : c₂ = c
    · rw [hc₁, hc₂]
    · rw [hc₁, hself] at h₁
      rw [hother hc₂] at h₂
      exact absurd (Option.some.inj h₁).symm (hne h₂)
    · rw [hc₂, hself] at h₂
      rw [hother hc₁] at h₁
      exact absurd (Option.some.inj h₂).symm (hne h₁)
    · rw [hother hc₁] at h₁
      rw [hother hc₂] at h₂
      exact h.owner c₁ c₂ j h₁ h₂
  · by_cases heq : c' = c
    · rw [heq, hself] at hc
      obtain rfl := Option.some.inj hc
      exact hmarked
    · rw [hother heq] at hc
      rw [hbucket (hne (slot_of_pending hc))]
      exact h.pending c' j hc
  · by_cases heq : c' = c
    · rw [heq, hself] at hno
      cases hno
    · rw [hother heq] at hc hno
      rw [hbucket (hne hc)]
      exact h.tagged c' j hc hno
  · by_cases heq : c' = c
    · rw [heq, hself] at hc
      cases hc
    · rw [hother heq] at hc
      exact h.written c' j hc
  · by_cases hji : j = idx
    · exact ⟨c, by rw [hself, hji]; rfl⟩
    · rw [hbucket hji] at hj
      obtain ⟨c', hc'⟩ := h.claimed j hj
      refine ⟨c', ?_⟩
      rw [hother]
      · exact hc'
      · rintro rfl
        rw [hnone] at hc'
        cases hc'

/-- The key of a claimed slot is written, its tag stored, or it is given back. Other slots are left
alone. -/
theorem own (h : Slots key vs pc) (hslot : (pc c).slot? = some idx)
    (hbuckets : ∀ j, j ≠ idx → vs'.buckets j = vs.buckets j)
    (hkeys : ∀ j, j ≠ idx → vs'.keys j = vs.keys j)
    (hkeep : ∀ j, x.slot? = some j → j = idx)
    (hpending : ∀ j, x.pending? = some j → vs'.buckets j = visitedPending)
    (htagged : ∀ j, x.slot? = some j → x.pending? = none →
      vs'.buckets j = visitedTag (key c) ∧ vs'.keys j = key c)
    (hwritten : ∀ j, x = .publish j → vs'.keys j = key c)
    (hfree : vs'.buckets idx ≠ 0 → x.slot? = some idx) :
    Slots key vs' (Function.update pc c x) := by
  have hself : Function.update pc c x c = x := Function.update_self _ _ _
  have hother {c' : ℕ} (hc : c' ≠ c) : Function.update pc c x c' = pc c' :=
    Function.update_of_ne hc _ _
  have hne {c' j : ℕ} (hc : c' ≠ c) (hj : (pc c').slot? = some j) : j ≠ idx := by
    rintro rfl
    exact hc (h.owner c' c j hj hslot)
  refine ⟨fun c₁ c₂ j h₁ h₂ => ?_, fun c' j hc => ?_, fun c' j hc hno => ?_, fun c' j hc => ?_,
    fun j hj => ?_⟩
  · by_cases hc₁ : c₁ = c <;> by_cases hc₂ : c₂ = c
    · rw [hc₁, hc₂]
    · rw [hc₁, hself] at h₁
      rw [hother hc₂] at h₂
      exact absurd (hkeep j h₁) (hne hc₂ h₂)
    · rw [hc₂, hself] at h₂
      rw [hother hc₁] at h₁
      exact absurd (hkeep j h₂) (hne hc₁ h₁)
    · rw [hother hc₁] at h₁
      rw [hother hc₂] at h₂
      exact h.owner c₁ c₂ j h₁ h₂
  · by_cases heq : c' = c
    · rw [heq, hself] at hc
      exact hpending j hc
    · rw [hother heq] at hc
      rw [hbuckets j (hne heq (slot_of_pending hc))]
      exact h.pending c' j hc
  · by_cases heq : c' = c
    · rw [heq, hself] at hc hno
      rw [heq]
      exact htagged j hc hno
    · rw [hother heq] at hc hno
      rw [hbuckets j (hne heq hc), hkeys j (hne heq hc)]
      exact h.tagged c' j hc hno
  · by_cases heq : c' = c
    · rw [heq, hself] at hc
      rw [heq]
      exact hwritten j hc
    · rw [hother heq] at hc
      have hslot' : (pc c').slot? = some j := by
        rw [hc]
        rfl
      rw [hkeys j (hne heq hslot')]
      exact h.written c' j hc
  · by_cases hji : j = idx
    · refine ⟨c, ?_⟩
      rw [hself, hji]
      exact hfree (hji ▸ hj)
    · rw [hbuckets j hji] at hj
      obtain ⟨c', hc'⟩ := h.claimed j hj
      refine ⟨c', ?_⟩
      rw [hother]
      · exact hc'
      · rintro rfl
        exact hji (Option.some.inj (hc'.symm.trans hslot))

/-- **Every step keeps the slots.** -/
theorem step (h : Slots key vs pc) (hmoves : InsertMoves vs (key c) (pc c) vs' x) :
    Slots key vs' (Function.update pc c x) := by
  have hbefore {pc : InsertPc} {i idx : ℕ} (hpc : pc = .probe i idx ∨ pc = .claim i idx) :
      none = pc.slot? ∧ none = pc.pending? := by
    rcases hpc with rfl | rfl <;> exact ⟨rfl, rfl⟩
  generalize hx : pc c = y at hmoves
  have hquiet (hbuckets : vs'.buckets = vs.buckets) (hkeys : vs'.keys = vs.keys)
      (hslot : x.slot? = y.slot?) (hpending : x.pending? = y.pending?)
      (hpublish : ∀ idx, x ≠ .publish idx) : Slots key vs' (Function.update pc c x) :=
    h.quiet hbuckets hkeys (hx ▸ hslot) (hx ▸ hpending) hpublish
  have hstore (idx : ℕ) (tag : UInt64) (j : ℕ) (hj : j ≠ idx) :
      (vs.store idx tag).buckets j = vs.buckets j := Function.update_of_ne hj _ _
  cases hmoves with
  | enter | full | exhausted | empty | check | duplicate | insert =>
      exact hquiet rfl rfl rfl rfl fun _ heq => by cases heq
  | pass hpc | present hpc =>
      exact hquiet rfl rfl (hbefore hpc).1 (hbefore hpc).2 fun _ heq => by cases heq
  | claim hfree => exact h.claim (by rw [hx]; rfl) hfree
  | @write idx =>
      have hpending : vs.buckets idx = visitedPending := h.pending c idx (by rw [hx]; rfl)
      refine h.own (by rw [hx]; rfl) (fun _ _ => rfl) (fun j hj => Function.update_of_ne hj _ _)
        (fun j hj => (Option.some.inj hj).symm) (fun j hj => ?_) (fun j _ hno => (by cases hno))
        (fun j hj => ?_) fun _ => rfl
      · obtain rfl := Option.some.inj hj
        exact hpending
      · obtain rfl := InsertPc.publish.inj hj
        exact Function.update_self _ _ _
  | @publish idx =>
      have hkey : vs.keys idx = key c := h.written c idx hx
      refine h.own (by rw [hx]; rfl) (hstore idx _) (fun _ _ => rfl)
        (fun j hj => (Option.some.inj hj).symm) (fun j hj => (by cases hj)) (fun j hj _ => ?_)
        (fun j hj => (by cases hj)) fun _ => rfl
      obtain rfl := Option.some.inj hj
      exact ⟨Function.update_self _ _ _, hkey⟩
  | @release idx =>
      refine h.own (by rw [hx]; rfl) (hstore idx _) (fun _ _ => rfl) (fun j hj => (by cases hj))
        (fun j hj => (by cases hj)) (fun j hj => (by cases hj)) (fun j hj => (by cases hj))
        fun hne => absurd (Function.update_self _ _ _) hne

end Slots

/-! ## Walks -/

/-- **The walks**: a call looks at slots of the table, and in its race check at none behind its
own. -/
structure Walks (key : ℕ → DevIno) (vs : VisitedSet) (pc : ℕ → InsertPc) : Prop where
  cap : vs.cap = visitedInitCap
  probing : ∀ c i idx, pc c = .probe i idx ∨ pc c = .claim i idx → idx < visitedInitCap
  place : ∀ c idx, (pc c).slot? = some idx → idx < visitedInitCap
  check : ∀ c idx j, pc c = .rescan idx j →
    j < visitedInitCap ∧ VisitedRun.rank (key c) j ≤ VisitedRun.rank (key c) idx

namespace Walks

open VisitedRun

variable {key : ℕ → DevIno} {vs vs' : VisitedSet} {pc : ℕ → InsertPc} {c : ℕ} {x : InsertPc}

/-- The next slot of a race check. -/
theorem next (h : Walks key vs pc) {idx j : ℕ} (hx : pc c = .rescan idx j) (hne : j ≠ idx) :
    rank (key c) j < rank (key c) idx ∧ vs.next j < visitedInitCap ∧
      rank (key c) (vs.next j) = rank (key c) j + 1 := by
  obtain ⟨hj, hle⟩ := h.check c idx j hx
  have hidx : idx < visitedInitCap := h.place c idx (by rw [hx]; rfl)
  have hlt : rank (key c) j < rank (key c) idx :=
    lt_of_le_of_ne hle fun heq => hne (rank_inj hj hidx heq)
  have hmax : rank (key c) idx < visitedInitCap := rank_lt
  exact ⟨hlt, rank_next h.cap hj (by omega)⟩

/-- A move of one call. -/
theorem update (h : Walks key vs pc) (hcap : vs'.cap = vs.cap)
    (hprobing : ∀ i idx, x = .probe i idx ∨ x = .claim i idx → idx < visitedInitCap)
    (hplace : ∀ idx, x.slot? = some idx → idx < visitedInitCap)
    (hcheck : ∀ idx j, x = .rescan idx j →
      j < visitedInitCap ∧ rank (key c) j ≤ rank (key c) idx) :
    Walks key vs' (Function.update pc c x) := by
  refine ⟨hcap.trans h.cap, fun c' i idx hc => ?_, fun c' idx hc => ?_, fun c' idx j hc => ?_⟩
  · by_cases heq : c' = c
    · rw [heq, Function.update_self] at hc
      exact hprobing i idx hc
    · rw [Function.update_of_ne heq] at hc
      exact h.probing c' i idx hc
  · by_cases heq : c' = c
    · rw [heq, Function.update_self] at hc
      exact hplace idx hc
    · rw [Function.update_of_ne heq] at hc
      exact h.place c' idx hc
  · by_cases heq : c' = c
    · rw [heq, Function.update_self] at hc
      rw [heq]
      exact hcheck idx j hc
    · rw [Function.update_of_ne heq] at hc
      exact h.check c' idx j hc

/-- **Every step keeps the walks.** -/
theorem step (h : Walks key vs pc) (hmoves : InsertMoves vs (key c) (pc c) vs' x) :
    Walks key vs' (Function.update pc c x) := by
  have hhome : vs.home (key c) < visitedInitCap := by
    rw [home_eq h.cap]
    exact home_lt (key c)
  generalize hx : pc c = y at hmoves
  -- a call that keeps its slot
  have hkeep {vs' : VisitedSet} {z : InsertPc} (hcap : vs'.cap = vs.cap) (hslot : z.slot? = y.slot?)
      (hprobing : ∀ i idx, ¬ (z = .probe i idx ∨ z = .claim i idx))
      (hcheck : ∀ idx j, z = .rescan idx j →
        j < visitedInitCap ∧ rank (key c) j ≤ rank (key c) idx) :
      Walks key vs' (Function.update pc c z) := by
    refine h.update hcap (fun i idx hz => absurd hz (hprobing i idx)) (fun idx hz => ?_) hcheck
    exact h.place c idx (by rw [hx, ← hslot]; exact hz)
  have hno {z : InsertPc} (hz : ∀ i idx, z ≠ .probe i idx ∧ z ≠ .claim i idx) (i idx : ℕ) :
      ¬ (z = .probe i idx ∨ z = .claim i idx) := not_or.mpr (hz i idx)
  cases hmoves with
  | enter =>
      refine h.update rfl ?_ (fun idx hz => (by cases hz)) fun idx j hz => (by cases hz)
      rintro i idx (hz | hz)
      · obtain ⟨rfl, rfl⟩ := InsertPc.probe.inj hz
        exact hhome
      · cases hz
  | full | exhausted | present =>
      exact h.update rfl (fun i idx hz => by rcases hz with hz | hz <;> cases hz)
        (fun idx hz => (by cases hz)) fun idx j hz => (by cases hz)
  | @empty i idx =>
      refine h.update rfl ?_ (fun idx hz => (by cases hz)) fun idx j hz => (by cases hz)
      rintro i' idx' (hz | hz)
      · cases hz
      · obtain ⟨rfl, rfl⟩ := InsertPc.claim.inj hz
        exact h.probing c _ _ (.inl hx)
  | @pass i idx hpc =>
      refine h.update rfl ?_ (fun idx hz => (by cases hz)) fun idx j hz => (by cases hz)
      rintro i' idx' (hz | hz)
      · obtain ⟨rfl, rfl⟩ := InsertPc.probe.inj hz
        rw [next_eq h.cap]
        exact Nat.mod_lt _ visitedInitCap_pos
      · cases hz
  | @claim i idx =>
      refine h.update rfl (fun i idx hz => by rcases hz with hz | hz <;> cases hz)
        (fun idx' hz => ?_) fun idx j hz => (by cases hz)
      obtain rfl := Option.some.inj hz
      exact h.probing c i _ (.inr hx)
  | write | insert | duplicate =>
      exact hkeep rfl rfl (hno fun i idx => ⟨fun hz => (by cases hz), fun hz => (by cases hz)⟩)
        fun idx j hz => (by cases hz)
  | @publish idx =>
      refine hkeep rfl rfl (hno fun i idx => ⟨fun hz => (by cases hz), fun hz => (by cases hz)⟩)
        fun idx' j hz => ?_
      obtain ⟨rfl, rfl⟩ := InsertPc.rescan.inj hz
      rw [home_eq h.cap, rank_home]
      exact ⟨home_lt (key c), Nat.zero_le _⟩
  | @check idx j hne =>
      refine hkeep rfl rfl (hno fun i idx => ⟨fun hz => (by cases hz), fun hz => (by cases hz)⟩)
        fun idx' j' hz => ?_
      obtain ⟨rfl, rfl⟩ := InsertPc.rescan.inj hz
      obtain ⟨hlt, hnext, hrank⟩ := h.next hx hne
      exact ⟨hnext, by omega⟩
  | release =>
      exact h.update rfl (fun i idx hz => by rcases hz with hz | hz <;> cases hz)
        (fun idx hz => (by cases hz)) fun idx j hz => (by cases hz)

end Walks

end Aura
