import Mathlib.Algebra.BigOperators.Group.Finset.Basic
import Mathlib.Algebra.Order.BigOperators.Group.Finset
import Mathlib.Logic.Function.Basic
import Mathlib.Tactic.SplitIfs

/-!
# Windows that deliver in order

Parts of streams are announced one after the other, arrive in any order in the slots of a window,
and are delivered in the order of their offsets. A part may arrive shorter than announced, or not at
all.

* `Window.Ordered`: announced parts lie one beside the other between what is delivered and what is
  to be announced next.
* `Window.Gapless`: no part that arrived waits behind a gap. It is lost where a part is cut or
  dropped before one that arrived, and where one arrives behind a gap.
* `Window.eq_none_of_idle`: a window without gaps that has delivered what it can is empty once
  everything announced has arrived.
* `Window.Tiled`: where every part arrives as announced, nothing is missing anywhere.
-/

namespace Aura.Lib

/-- A part of a stream, announced or arrived. -/
structure Segment (τ : Type*) where
  stream : τ
  offset : ℕ
  len : ℕ
  arrived : Bool

/-- The slots of a window, and for every stream the offset of the next delivery and that of the next
announcement. -/
@[ext] structure Window (ι τ : Type*) where
  slots : ι → Option (Segment τ)
  next : τ → ℕ
  top : τ → ℕ

namespace Window

variable {ι τ : Type*} [DecidableEq ι]

/-! ## Operations -/

/-- The next part of a stream is announced. -/
def reserve [DecidableEq τ] (w : Window ι τ) (i : ι) (t : τ) (n : ℕ) : Window ι τ :=
  { w with
    slots := Function.update w.slots i (some ⟨t, w.top t, n, false⟩)
    top := Function.update w.top t (w.top t + n) }

/-- A part arrives with `n` bytes. -/
def arrive (w : Window ι τ) (i : ι) (s : Segment τ) (n : ℕ) : Window ι τ :=
  { w with slots := Function.update w.slots i (some { s with len := n, arrived := true }) }

/-- A part is delivered. -/
def deliver [DecidableEq τ] (w : Window ι τ) (i : ι) (s : Segment τ) : Window ι τ :=
  { w with
    slots := Function.update w.slots i none
    next := Function.update w.next s.stream (s.offset + s.len) }

/-- A part is given up. -/
def drop (w : Window ι τ) (i : ι) : Window ι τ :=
  { w with slots := Function.update w.slots i none }

variable {w : Window ι τ} {i j : ι} {s s' : Segment τ} {t : τ} {n p : ℕ}

/-- What a slot holds after one of them changed. -/
theorem eq_of_update {x : Option (Segment τ)} (h : Function.update w.slots i x j = some s') :
    (j = i ∧ x = some s') ∨ (j ≠ i ∧ w.slots j = some s') := by
  by_cases hj : j = i
  · rw [hj, Function.update_self] at h
    exact .inl ⟨hj, h⟩
  · rw [Function.update_of_ne hj] at h
    exact .inr ⟨hj, h⟩

theorem eq_of_clear (h : Function.update w.slots i none j = some s') :
    j ≠ i ∧ w.slots j = some s' := by
  rcases eq_of_update h with ⟨-, hnone⟩ | hrest
  · cases hnone
  · exact hrest

theorem reserve_slot [DecidableEq τ] :
    (w.reserve i t n).slots i = some ⟨t, w.top t, n, false⟩ := Function.update_self _ _ _

/-- A part that is given up as it arrives. -/
theorem drop_arrive : (w.arrive i s n).drop i = w.drop i := by
  unfold drop arrive
  rw [Function.update_idem]

/-! ## Order -/

/-- **The parts of a stream** have bytes, lie between delivery and announcement, and do not overlap.
-/
structure Ordered (w : Window ι τ) : Prop where
  pos : ∀ {i s}, w.slots i = some s → 0 < s.len
  after : ∀ {i s}, w.slots i = some s → w.next s.stream ≤ s.offset
  before : ∀ {i s}, w.slots i = some s → s.offset + s.len ≤ w.top s.stream
  apart : ∀ {i j s s'}, i ≠ j → w.slots i = some s → w.slots j = some s' → s.stream = s'.stream →
    s.offset + s.len ≤ s'.offset ∨ s'.offset + s'.len ≤ s.offset
  next_le : ∀ t, w.next t ≤ w.top t

namespace Ordered

theorem reserve [DecidableEq τ] (h : w.Ordered) (hn : 0 < n) : (w.reserve i t n).Ordered := by
  have htop (t' : τ) : w.top t' ≤ (w.reserve i t n).top t' := by
    change w.top t' ≤ Function.update w.top t (w.top t + n) t'
    by_cases ht : t' = t
    · rw [ht, Function.update_self]
      exact Nat.le_add_right _ _
    · rw [Function.update_of_ne ht]
  refine ⟨fun {j s} hj => ?_, fun {j s} hj => ?_, fun {j s} hj => ?_,
    fun {j k s s'} hne hj hk heq => ?_, fun t' => (h.next_le t').trans (htop t')⟩
  · rcases eq_of_update hj with ⟨-, hnew⟩ | ⟨-, hold⟩
    · obtain rfl := Option.some.inj hnew
      exact hn
    · exact h.pos hold
  · rcases eq_of_update hj with ⟨-, hnew⟩ | ⟨-, hold⟩
    · obtain rfl := Option.some.inj hnew
      exact h.next_le t
    · exact h.after hold
  · rcases eq_of_update hj with ⟨-, hnew⟩ | ⟨-, hold⟩
    · obtain rfl := Option.some.inj hnew
      exact le_of_eq (Function.update_self t (w.top t + n) w.top).symm
    · exact (h.before hold).trans (htop _)
  · rcases eq_of_update hj with ⟨hji, hnew⟩ | ⟨-, hold⟩
    · obtain rfl := Option.some.inj hnew
      rcases eq_of_update hk with ⟨hki, -⟩ | ⟨-, hold⟩
      · exact absurd (hji.trans hki.symm) hne
      · refine .inr ?_
        have hbefore := h.before hold
        rw [← heq] at hbefore
        exact hbefore
    · rcases eq_of_update hk with ⟨-, hnew⟩ | ⟨-, hold'⟩
      · obtain rfl := Option.some.inj hnew
        refine .inl ?_
        have hbefore := h.before hold
        rw [heq] at hbefore
        exact hbefore
      · exact h.apart hne hold hold' heq

theorem arrive (h : w.Ordered) (hs : w.slots i = some s) (hn : 0 < n) (hle : n ≤ s.len) :
    (w.arrive i s n).Ordered := by
  have hafter := h.after hs
  have hbefore := h.before hs
  refine ⟨fun {j s'} hj => ?_, fun {j s'} hj => ?_, fun {j s'} hj => ?_,
    fun {j k s' s''} hne hj hk heq => ?_, h.next_le⟩
  · rcases eq_of_update hj with ⟨-, hnew⟩ | ⟨-, hold⟩
    · obtain rfl := Option.some.inj hnew
      exact hn
    · exact h.pos hold
  · rcases eq_of_update hj with ⟨-, hnew⟩ | ⟨-, hold⟩
    · obtain rfl := Option.some.inj hnew
      exact hafter
    · exact h.after hold
  · rcases eq_of_update hj with ⟨-, hnew⟩ | ⟨-, hold⟩
    · obtain rfl := Option.some.inj hnew
      exact (Nat.add_le_add_left hle _).trans hbefore
    · exact h.before hold
  · rcases eq_of_update hj with ⟨hji, hnew⟩ | ⟨hji, hold⟩
    · obtain rfl := Option.some.inj hnew
      rcases eq_of_update hk with ⟨hki, -⟩ | ⟨hki, hold⟩
      · exact absurd (hji.trans hki.symm) hne
      · refine (h.apart (Ne.symm hki) hs hold heq).imp (fun hle' => ?_) id
        exact (Nat.add_le_add_left hle _).trans hle'
    · rcases eq_of_update hk with ⟨-, hnew⟩ | ⟨-, hold'⟩
      · obtain rfl := Option.some.inj hnew
        refine (h.apart hji hold hs heq).imp id fun hle' => ?_
        exact (Nat.add_le_add_left hle _).trans hle'
      · exact h.apart hne hold hold' heq

theorem drop (h : w.Ordered) : (w.drop i).Ordered :=
  ⟨fun hj => h.pos (eq_of_clear hj).2, fun hj => h.after (eq_of_clear hj).2,
    fun hj => h.before (eq_of_clear hj).2,
    fun hne hj hk heq => h.apart hne (eq_of_clear hj).2 (eq_of_clear hk).2 heq, h.next_le⟩

/-- What is delivered lies before the rest of its stream. -/
theorem deliver [DecidableEq τ] (h : w.Ordered) (hs : w.slots i = some s)
    (hnext : s.offset = w.next s.stream) :
    (w.deliver i s).Ordered := by
  refine ⟨fun hj => h.pos (eq_of_clear hj).2, fun {j s'} hj => ?_,
    fun hj => h.before (eq_of_clear hj).2,
    fun hne hj hk heq => h.apart hne (eq_of_clear hj).2 (eq_of_clear hk).2 heq, fun t => ?_⟩
  · obtain ⟨hne, hold⟩ := eq_of_clear hj
    change Function.update w.next s.stream (s.offset + s.len) s'.stream ≤ s'.offset
    by_cases heq : s'.stream = s.stream
    · rw [heq, Function.update_self]
      have hafter := h.after hold
      have hpos := h.pos hold
      rw [heq, ← hnext] at hafter
      rcases h.apart hne hold hs heq with hle | hle
      · omega
      · exact hle
    · rw [Function.update_of_ne heq]
      exact h.after hold
  · change Function.update w.next s.stream (s.offset + s.len) t ≤ w.top t
    by_cases heq : t = s.stream
    · rw [heq, Function.update_self]
      exact h.before hs
    · rw [Function.update_of_ne heq]
      exact h.next_le t

end Ordered

/-! ## Gaps -/

/-- Some part has this byte of the stream. -/
def Covered (w : Window ι τ) (t : τ) (p : ℕ) : Prop :=
  ∃ i s, w.slots i = some s ∧ s.stream = t ∧ s.offset ≤ p ∧ p < s.offset + s.len

/-- Nothing is missing before the offset `o`. -/
def Reaches (w : Window ι τ) (t : τ) (o : ℕ) : Prop :=
  ∀ p, w.next t ≤ p → p < o → w.Covered t p

/-- **No part that arrived waits behind a gap.** -/
def Gapless (w : Window ι τ) : Prop :=
  ∀ i s, w.slots i = some s → s.arrived = true → w.Reaches s.stream s.offset

/-- Nothing is missing in what was announced. -/
def Tiled (w : Window ι τ) : Prop := ∀ t, w.Reaches t (w.top t)

/-- What could be delivered was delivered. -/
def Waits (w : Window ι τ) (t : τ) : Prop :=
  ∀ i s, w.slots i = some s → s.stream = t → s.arrived = true → s.offset ≠ w.next t

omit [DecidableEq ι] in
theorem Reaches.mono {o o' : ℕ} (h : w.Reaches t o) (hle : o' ≤ o) : w.Reaches t o' :=
  fun p hnext hp => h p hnext (lt_of_lt_of_le hp hle)

omit [DecidableEq ι] in
/-- The slot that covers a byte keeps covering it while another one changes. -/
theorem Covered.of_ne {x : Window ι τ} (h : w.Covered t p)
    (hslots : ∀ j s, w.slots j = some s → s.stream = t → s.offset ≤ p → p < s.offset + s.len →
      x.slots j = some s) : x.Covered t p := by
  obtain ⟨j, s, hj, heq, hle, hlt⟩ := h
  exact ⟨j, s, hslots j s hj heq hle hlt, heq, hle, hlt⟩

theorem Covered.reserve [DecidableEq τ] (h : w.Covered t p) (hfree : w.slots i = none) {t' : τ} :
    (w.reserve i t' n).Covered t p := by
  refine h.of_ne fun j s hj _ _ _ => ?_
  refine (Function.update_of_ne ?_ _ _).trans hj
  rintro rfl
  rw [hfree] at hj
  cases hj

theorem Reaches.reserve [DecidableEq τ] (h : w.Reaches t p) (hfree : w.slots i = none) {t' : τ} :
    (w.reserve i t' n).Reaches t p :=
  fun q hnext hq => (h q hnext hq).reserve hfree

theorem Gapless.reserve [DecidableEq τ] (h : w.Gapless) (hfree : w.slots i = none) :
    (w.reserve i t n).Gapless := by
  intro j s hj harr
  rcases eq_of_update hj with ⟨-, hnew⟩ | ⟨-, hold⟩
  · obtain rfl := Option.some.inj hnew
    cases harr
  · exact (h _ _ hold harr).reserve hfree

/-- An arrival keeps the bytes before the part, and all of them if it is not cut. -/
theorem Covered.arrive (h : w.Covered t p) (hs : w.slots i = some s)
    (hp : t = s.stream → p < s.offset ∨ n = s.len) : (w.arrive i s n).Covered t p := by
  obtain ⟨j, s', hj, heq, hle, hlt⟩ := h
  by_cases hji : j = i
  · subst hji
    rw [hs] at hj
    obtain rfl := Option.some.inj hj
    refine ⟨j, _, Function.update_self _ _ _, heq, hle, ?_⟩
    rcases hp heq.symm with hbefore | hfull
    · exact absurd hbefore (not_lt.mpr hle)
    · exact hfull ▸ hlt
  · exact ⟨j, s', (Function.update_of_ne hji _ _).trans hj, heq, hle, hlt⟩

theorem Gapless.arrive (h : w.Gapless) (hs : w.slots i = some s)
    (hreach : w.Reaches s.stream s.offset)
    (hlast : n ≠ s.len → ∀ j s', w.slots j = some s' → s'.stream = s.stream →
      s'.arrived = true → s'.offset ≤ s.offset) : (w.arrive i s n).Gapless := by
  intro j s' hj harr
  rcases eq_of_update hj with ⟨-, hnew⟩ | ⟨-, hold⟩
  · obtain rfl := Option.some.inj hnew
    exact fun p hnext hp => (hreach p hnext hp).arrive hs fun _ => .inl hp
  · refine fun p hnext hp => (h _ _ hold harr p hnext hp).arrive hs fun heq => ?_
    by_cases hfull : n = s.len
    · exact .inr hfull
    · exact .inl (lt_of_lt_of_le hp (hlast hfull j s' hold heq harr))

theorem Gapless.drop (h : w.Gapless) (hs : w.slots i = some s)
    (hlast : ∀ j s', w.slots j = some s' → s'.stream = s.stream →
      s'.arrived = true → s'.offset ≤ s.offset) : (w.drop i).Gapless := by
  intro j s' hj harr
  obtain ⟨-, hold⟩ := eq_of_clear hj
  intro p hnext hp
  refine (h _ _ hold harr p hnext hp).of_ne fun k s'' hk heq hle _ => ?_
  refine (Function.update_of_ne ?_ _ _).trans hk
  rintro rfl
  rw [hs] at hk
  obtain rfl := Option.some.inj hk
  have hle' := hlast j s' hold heq.symm harr
  omega

/-- Behind what is delivered nothing else changes. -/
theorem Reaches.deliver [DecidableEq τ] (h : w.Reaches t p) (hord : w.Ordered)
    (hs : w.slots i = some s) :
    (w.deliver i s).Reaches t p := by
  intro q hnext hq
  change Function.update w.next s.stream (s.offset + s.len) t ≤ q at hnext
  have hold : w.next t ≤ q := by
    by_cases heq : t = s.stream
    · rw [heq, Function.update_self] at hnext
      have hafter := hord.after hs
      rw [heq]
      omega
    · rwa [Function.update_of_ne heq] at hnext
  refine (h q hold hq).of_ne fun k s' hk heq hle hlt => ?_
  refine (Function.update_of_ne ?_ _ _).trans hk
  rintro rfl
  rw [hs] at hk
  obtain rfl := Option.some.inj hk
  rw [← heq, Function.update_self] at hnext
  omega

theorem Gapless.deliver [DecidableEq τ] (h : w.Gapless) (hord : w.Ordered)
    (hs : w.slots i = some s) :
    (w.deliver i s).Gapless := by
  intro j s' hj harr
  obtain ⟨-, hold⟩ := eq_of_clear hj
  exact (h _ _ hold harr).deliver hord hs

omit [DecidableEq ι] in
/-- **Once everything announced has arrived, the window is empty.** -/
theorem eq_none_of_idle (hord : w.Ordered) (hgap : w.Gapless) (hwait : ∀ t, w.Waits t)
    (hidle : ∀ i s, w.slots i = some s → s.arrived = true) (i : ι) : w.slots i = none := by
  by_contra hsome
  obtain ⟨s, hs⟩ := Option.ne_none_iff_exists'.mp hsome
  have harr := hidle i s hs
  have hlt : w.next s.stream < s.offset :=
    lt_of_le_of_ne (hord.after hs) (Ne.symm (hwait s.stream i s hs rfl harr))
  -- the next byte to deliver is in a part that starts there
  obtain ⟨j, s', hj, heq, hle, -⟩ := hgap i s hs harr _ (le_refl _) hlt
  have hge := hord.after hj
  rw [heq] at hge
  exact hwait s.stream j s' hj heq (hidle j s' hj) (le_antisymm hle hge)

theorem Waits.reserve [DecidableEq τ] (h : w.Waits t) {t' : τ} : (w.reserve i t' n).Waits t := by
  intro j s hj heq harr
  rcases eq_of_update hj with ⟨-, hnew⟩ | ⟨-, hold⟩
  · obtain rfl := Option.some.inj hnew
    cases harr
  · exact h _ _ hold heq harr

theorem Waits.drop (h : w.Waits t) : (w.drop i).Waits t :=
  fun _ _ hj heq harr => h _ _ (eq_of_clear hj).2 heq harr

theorem Waits.arrive (h : w.Waits t) (hne : s.stream ≠ t) : (w.arrive i s n).Waits t := by
  intro j s' hj heq harr
  rcases eq_of_update hj with ⟨-, hnew⟩ | ⟨-, hold⟩
  · obtain rfl := Option.some.inj hnew
    exact absurd heq hne
  · exact h _ _ hold heq harr

theorem Waits.deliver [DecidableEq τ] (h : w.Waits t) (hne : s.stream ≠ t) :
    (w.deliver i s).Waits t := by
  intro j s' hj heq harr
  change s'.offset ≠ Function.update w.next s.stream (s.offset + s.len) t
  rw [Function.update_of_ne hne.symm]
  exact h _ _ (eq_of_clear hj).2 heq harr

omit [DecidableEq ι] in
theorem Tiled.gapless (h : w.Tiled) (hord : w.Ordered) : w.Gapless := by
  intro i s hs _
  exact (h s.stream).mono ((Nat.le_add_right _ _).trans (hord.before hs))

theorem Tiled.reserve [DecidableEq τ] (h : w.Tiled) (hfree : w.slots i = none) :
    (w.reserve i t n).Tiled := by
  intro t' p hnext hp
  by_cases hold : p < w.top t'
  · exact (h t' p hnext hold).reserve hfree
  · change p < Function.update w.top t (w.top t + n) t' at hp
    have ht : t' = t := by
      by_contra hne
      rw [Function.update_of_ne hne] at hp
      exact hold hp
    rw [ht, Function.update_self] at hp
    rw [ht] at hold ⊢
    exact ⟨i, _, Function.update_self _ _ _, rfl, not_lt.mp hold, hp⟩

theorem Tiled.arrive (h : w.Tiled) (hs : w.slots i = some s) : (w.arrive i s s.len).Tiled :=
  fun t p hnext hp => (h t p hnext hp).arrive hs fun _ => .inr rfl

theorem Tiled.deliver [DecidableEq τ] (h : w.Tiled) (hord : w.Ordered) (hs : w.slots i = some s) :
    (w.deliver i s).Tiled := fun t => (h t).deliver hord hs

/-! ## Counting -/

/-- How many slots of `F` hold a part with the property `q`. -/
def count (w : Window ι τ) (F : Finset ι) (q : Segment τ → Bool) : ℕ :=
  ∑ i ∈ F, if (w.slots i).any q then 1 else 0

/-- A slot is counted before or after it changed. -/
theorem count_update {x : Window ι τ} {F : Finset ι} {q : Segment τ → Bool} {o : Option (Segment τ)}
    (hi : i ∈ F) (hx : x.slots = Function.update w.slots i o) :
    x.count F q + (if (w.slots i).any q then 1 else 0) =
      w.count F q + if o.any q then 1 else 0 := by
  unfold count
  rw [hx, ← Finset.sum_erase_add _ _ hi, Function.update_self,
    ← Finset.sum_erase_add F (fun i => if (w.slots i).any q then 1 else 0) hi]
  have hrest : ∑ j ∈ F.erase i, (if (Function.update w.slots i o j).any q then 1 else 0) =
      ∑ j ∈ F.erase i, if (w.slots j).any q then 1 else 0 :=
    Finset.sum_congr rfl fun j hj => by rw [Function.update_of_ne (Finset.ne_of_mem_erase hj)]
  omega

omit [DecidableEq ι] in
theorem count_eq_zero {F : Finset ι} {q : Segment τ → Bool}
    (h : ∀ i ∈ F, (w.slots i).any q = false) : w.count F q = 0 :=
  Finset.sum_eq_zero fun i hi => by rw [h i hi, if_neg Bool.false_ne_true]

omit [DecidableEq ι] in
theorem count_le_card {F : Finset ι} {q : Segment τ → Bool} : w.count F q ≤ F.card := by
  refine (Finset.sum_le_card_nsmul F _ 1 fun i _ => ?_).trans (le_of_eq (Nat.mul_one _))
  split_ifs
  · exact le_refl 1
  · exact Nat.zero_le 1

omit [DecidableEq ι] in
theorem count_pos {F : Finset ι} {q : Segment τ → Bool} :
    0 < w.count F q ↔ ∃ i ∈ F, (w.slots i).any q = true := by
  constructor
  · intro hpos
    by_contra hnone
    push Not at hnone
    rw [count_eq_zero fun i hi => Bool.eq_false_of_not_eq_true (hnone i hi)] at hpos
    exact absurd hpos (lt_irrefl 0)
  · rintro ⟨i, hi, hany⟩
    have hle := Finset.single_le_sum
      (f := fun i => if (w.slots i).any q then 1 else 0) (fun _ _ => Nat.zero_le _) hi
    rw [if_pos hany] at hle
    exact hle

end Window

end Aura.Lib
