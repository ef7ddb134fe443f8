import Mathlib.Data.Finset.Card
import Mathlib.Data.Nat.ModEq

/-!
# Linear probing in a circular table

A table of `n` slots, and for every key the slot `home` from which a search for it starts. The
theory of such tables is one of straight lines: seen from a good base `b`, no search path wraps
around.

* `cell n b y` — the slot with coordinate `y`, counted from the base.
* `Laid` — seen from `b`, every entry sits above its home, and the slots between them are taken.
* `Laid.path` and `Laid.place` — a search finds what is there; what is put at the end of a search
  path is found later.
* `Carried` — the invariant of a deletion with backward shift, which carries a hole upwards
  (`Carried.start`, `move`, `keep`, `finish`). A full table needs no special case: the test of the
  shift (`dist_le_iff`) fails below the hole. -/

namespace Aura.Lib.Probing

variable {K V : Type*}

/-! ## Coordinates -/

/-- The slot with coordinate `y` seen from `b`. -/
def cell (n b y : ℕ) : ℕ := (b + y) % n

/-- The distance from slot `a` up to slot `p`. -/
def dist (n a p : ℕ) : ℕ := (p + n - a) % n

variable {n : ℕ}

theorem cell_lt (hn : 0 < n) (b y : ℕ) : cell n b y < n := Nat.mod_lt _ hn

theorem cell_succ (b y : ℕ) : (cell n b y + 1) % n = cell n b (y + 1) := by
  unfold cell
  rw [Nat.mod_add_mod, Nat.add_assoc]

/-- A slot as a base. -/
theorem cell_cell (b z y : ℕ) : cell n (cell n b z) y = cell n b (z + y) := by
  unfold cell
  rw [Nat.mod_add_mod, Nat.add_assoc]

theorem cell_add_self (b y : ℕ) : cell n b (y + n) = cell n b y := by
  unfold cell
  rw [← Nat.add_assoc, Nat.add_mod_right]

theorem cell_zero {b : ℕ} (hb : b < n) : cell n b 0 = b := Nat.mod_eq_of_lt hb

theorem cell_inj {b y y' : ℕ} (hy : y < n) (hy' : y' < n) (h : cell n b y = cell n b y') :
    y = y' := by
  have hmod : y ≡ y' [MOD n] := Nat.ModEq.add_left_cancel' b h
  rwa [Nat.ModEq, Nat.mod_eq_of_lt hy, Nat.mod_eq_of_lt hy'] at hmod

/-- Every slot has a coordinate. -/
theorem exists_cell (b : ℕ) {p : ℕ} (hp : p < n) : ∃ y, y < n ∧ cell n b y = p := by
  have hb : b % n < n := Nat.mod_lt _ (Nat.zero_lt_of_lt hp)
  refine ⟨(p + n - b % n) % n, Nat.mod_lt _ (Nat.zero_lt_of_lt hp), ?_⟩
  unfold cell
  rw [Nat.add_mod_mod, ← Nat.mod_add_mod, show b % n + (p + n - b % n) = p + n by omega,
    Nat.add_mod_right, Nat.mod_eq_of_lt hp]

theorem dist_cell {b ν y : ℕ} (hn : 0 < n) (hν : ν < n) (hy : y < n) :
    dist n (cell n b ν) (cell n b y) = if ν ≤ y then y - ν else y + n - ν := by
  have ha := cell_lt hn b ν
  have hp := cell_lt hn b y
  -- both sides are the coordinate of the second slot seen from the first
  refine cell_inj (b := cell n b ν) (Nat.mod_lt _ hn) (by split_ifs <;> omega) ?_
  have hright : cell n (cell n b ν) (if ν ≤ y then y - ν else y + n - ν) = cell n b y := by
    rw [cell_cell]
    split_ifs with hle
    · rw [Nat.add_sub_cancel' hle]
    · rw [show ν + (y + n - ν) = y + n by omega, cell_add_self]
  rw [hright]
  change (cell n b ν + (cell n b y + n - cell n b ν) % n) % n = cell n b y
  rw [Nat.add_mod_mod, show cell n b ν + (cell n b y + n - cell n b ν) = cell n b y + n by omega,
    Nat.add_mod_right, Nat.mod_eq_of_lt hp]

/-- **The test of the backward shift**: the slot `η` lies between the home `ν` and the slot `y`. -/
theorem dist_le_iff {b ν η y : ℕ} (hν : ν ≤ y) (hy : y < n) (hη : η < n) :
    dist n (cell n b ν) (cell n b η) ≤ dist n (cell n b ν) (cell n b y) ↔ ν ≤ η ∧ η ≤ y := by
  have hn : 0 < n := Nat.zero_lt_of_lt hy
  rw [dist_cell hn (lt_of_le_of_lt hν hy) hη, dist_cell hn (lt_of_le_of_lt hν hy) hy]
  split_ifs <;> omega

/-! ## Tables -/

/-- Seen from `b`, every entry sits above its home, and the slots between them are taken. -/
def Laid (n : ℕ) (home : K → ℕ) (s : ℕ → Option (K × V)) (b : ℕ) : Prop :=
  ∀ y, y < n → ∀ k v, s (cell n b y) = some (k, v) →
    ∃ ν, ν ≤ y ∧ home k = cell n b ν ∧ ∀ i, ν ≤ i → i < y → (s (cell n b i)).isSome

/-- No key has two entries. -/
def Distinct (n : ℕ) (s : ℕ → Option (K × V)) : Prop :=
  ∀ p q, p < n → q < n → ∀ k v w, s p = some (k, v) → s q = some (k, w) → p = q

/-- The table has this entry. -/
def Holds (n : ℕ) (s : ℕ → Option (K × V)) (k : K) (v : V) : Prop := ∃ p, p < n ∧ s p = some (k, v)

variable {home : K → ℕ} {s : ℕ → Option (K × V)} {b : ℕ}

/-- **A search path.** From its home to an entry every slot is taken. -/
theorem Laid.path (h : Laid n home s b) {p : ℕ} (hp : p < n) {k : K} {v : V}
    (hs : s p = some (k, v)) :
    ∃ d, d < n ∧ cell n (home k) d = p ∧ ∀ i, i < d → (s (cell n (home k) i)).isSome := by
  obtain ⟨y, hy, rfl⟩ := exists_cell b hp
  obtain ⟨ν, hν, hhome, htaken⟩ := h y hy k v hs
  refine ⟨y - ν, by omega, ?_, fun i hi => ?_⟩
  · rw [hhome, cell_cell, Nat.add_sub_cancel' hν]
  · rw [hhome, cell_cell]
    exact htaken _ (Nat.le_add_right ν i) (by omega)

/-- The slot above an empty one is a base. -/
theorem Laid.rebase (h : Laid n home s b) {p : ℕ} (hp : p < n) (hs : s p = none) :
    Laid n home s (p + 1) := by
  obtain ⟨z, hz, rfl⟩ := exists_cell b hp
  have hshift (y : ℕ) : cell n (cell n b z + 1) y = cell n b (z + 1 + y) := by
    rw [← cell_cell b (z + 1) y, ← cell_succ]
    unfold cell
    rw [Nat.mod_add_mod]
  intro y hy k v hyk
  rw [hshift] at hyk
  by_cases hwrap : z + 1 + y < n
  · obtain ⟨ν, hν, hhome, htaken⟩ := h _ hwrap k v hyk
    have hzν : z < ν := by
      by_contra hle
      have hsome := htaken z (not_lt.mp hle) (by omega)
      rw [hs] at hsome
      cases hsome
    refine ⟨ν - (z + 1), by omega, ?_, fun i hi hlt => ?_⟩
    · rw [hshift, Nat.add_sub_cancel' hzν, hhome]
    · rw [hshift]
      exact htaken _ (by omega) (by omega)
  · have hback : cell n b (z + 1 + y) = cell n b (z + 1 + y - n) := by
      rw [← cell_add_self b (z + 1 + y - n), Nat.sub_add_cancel (not_lt.mp hwrap)]
    rw [hback] at hyk
    obtain ⟨ν, hν, hhome, htaken⟩ := h _ (by omega) k v hyk
    refine ⟨ν + n - (z + 1), by omega, ?_, fun i hi hlt => ?_⟩
    · rw [hshift, show z + 1 + (ν + n - (z + 1)) = ν + n by omega, cell_add_self, hhome]
    · rw [hshift, show z + 1 + i = z + 1 + i - n + n by omega, cell_add_self]
      exact htaken _ (by omega) (by omega)

/-- **Putting an entry at the end of its search path.** -/
theorem Laid.place (h : Laid n home s b) (hhome : ∀ k, home k < n) {k : K} (v : V) {d : ℕ}
    (hd : d < n) (hs : s (cell n (home k) d) = none)
    (htaken : ∀ i, i < d → (s (cell n (home k) i)).isSome) :
    Laid n home (Function.update s (cell n (home k) d) (some (k, v)))
      (cell n (home k) d + 1) := by
  have hn : 0 < n := Nat.zero_lt_of_lt hd
  have hbase := h.rebase (cell_lt hn _ _) hs
  -- seen from the new base, the empty slot is the last one and the home lies `d` slots below it
  have hcoord (i : ℕ) (hi : i ≤ d) :
      cell n (cell n (home k) d + 1) (n - 1 - d + i) = cell n (home k) i := by
    have heq : cell n (cell n (home k) d + 1) (n - 1 - d + i) =
        cell n (home k) (d + 1 + (n - 1 - d + i)) := by
      rw [← cell_cell (home k) (d + 1), ← cell_succ]
      unfold cell
      rw [Nat.mod_add_mod]
    rw [heq, show d + 1 + (n - 1 - d + i) = i + n by omega, cell_add_self]
  intro y hy k' v' hyk
  by_cases hlast : y = n - 1 - d + d
  · rw [hlast, hcoord d (le_refl d), Function.update_self] at hyk
    obtain ⟨rfl, rfl⟩ := Prod.mk.inj (Option.some.inj hyk)
    refine ⟨n - 1 - d, by omega, ?_, fun i hi hlt => ?_⟩
    · have hzero := hcoord 0 (Nat.zero_le d)
      rw [cell_zero (hhome k)] at hzero
      exact hzero.symm
    · obtain ⟨j, rfl⟩ := Nat.exists_eq_add_of_le hi
      rw [hcoord j (by omega), Function.update_apply]
      split_ifs
      · rfl
      · exact htaken j (by omega)
  · have hne : cell n (cell n (home k) d + 1) y ≠ cell n (home k) d := fun heq =>
      hlast (cell_inj hy (by omega) (heq.trans (hcoord d (le_refl d)).symm))
    rw [Function.update_of_ne hne] at hyk
    obtain ⟨ν, hν, hhome', htaken'⟩ := hbase y hy k' v' hyk
    refine ⟨ν, hν, hhome', fun i hi hlt => ?_⟩
    rw [Function.update_apply]
    split_ifs
    · rfl
    · exact htaken' i hi hlt

/-- What the table holds after it. -/
theorem holds_place {p : ℕ} (hp : p < n) (hs : s p = none) (k : K) (v : V) (k' : K) (v' : V) :
    Holds n (Function.update s p (some (k, v))) k' v' ↔ (k' = k ∧ v' = v) ∨ Holds n s k' v' := by
  constructor
  · rintro ⟨q, hq, heq⟩
    by_cases hqp : q = p
    · rw [hqp, Function.update_self] at heq
      obtain ⟨rfl, rfl⟩ := Prod.mk.inj (Option.some.inj heq)
      exact .inl ⟨rfl, rfl⟩
    · rw [Function.update_of_ne hqp] at heq
      exact .inr ⟨q, hq, heq⟩
  · rintro (⟨rfl, rfl⟩ | ⟨q, hq, heq⟩)
    · exact ⟨p, hp, Function.update_self _ _ _⟩
    · refine ⟨q, hq, ?_⟩
      rw [Function.update_of_ne]
      · exact heq
      · rintro rfl
        rw [hs] at heq
        cases heq

theorem Distinct.place (h : Distinct n s) {p : ℕ} {k : K} (v : V) (hk : ∀ w, ¬ Holds n s k w) :
    Distinct n (Function.update s p (some (k, v))) := by
  intro q r hq hr k' w w' hqk hrk
  rw [Function.update_apply] at hqk hrk
  split_ifs at hqk hrk with hqp hrp hrp
  · rw [hqp, hrp]
  · obtain ⟨rfl, -⟩ := Prod.mk.inj (Option.some.inj hqk)
    exact absurd ⟨r, hr, hrk⟩ (hk w')
  · obtain ⟨rfl, -⟩ := Prod.mk.inj (Option.some.inj hrk)
    exact absurd ⟨q, hq, hqk⟩ (hk w)
  · exact h q r hq hr k' w w' hqk hrk

/-- A table with fewer keys than slots has an empty slot. -/
theorem Distinct.exists_empty (h : Distinct n s) {ks : Finset K}
    (hks : ∀ k v, Holds n s k v → k ∈ ks) (hlt : ks.card < n) : ∃ p, p < n ∧ s p = none := by
  by_contra hfull
  have hsome (p : ℕ) (hp : p < n) : ∃ k v, s p = some (k, v) := by
    cases hs : s p with
    | none => exact absurd ⟨p, hp, hs⟩ hfull
    | some e => exact ⟨e.1, e.2, rfl⟩
  obtain ⟨k₀, v₀, -⟩ := hsome 0 (Nat.zero_lt_of_lt hlt)
  have hK : Nonempty K := ⟨k₀⟩
  have hV : Nonempty V := ⟨v₀⟩
  choose! key value hkey using hsome
  refine absurd (Finset.card_le_card_of_injOn key (s := Finset.range n) (t := ks) ?_ ?_) ?_
  · intro p hp
    have hp' := Finset.mem_range.mp hp
    exact hks _ _ ⟨p, hp', hkey p hp'⟩
  · intro p hp q hq heq
    have hp' := Finset.mem_range.mp hp
    have hq' := Finset.mem_range.mp hq
    refine h p q hp' hq' (key p) _ (value q) (hkey p hp') ?_
    rw [heq]
    exact hkey q hq'
  · rw [Finset.card_range]
    exact not_le.mpr hlt

/-! ## Update in place -/

/-- A new value for a key. -/
theorem Laid.set (h : Laid n home s b) {p : ℕ} {k : K} {v : V} (hs : s p = some (k, v)) (w : V) :
    Laid n home (Function.update s p (some (k, w))) b := by
  intro y hy k' v' hyk
  have hold : ∃ w', s (cell n b y) = some (k', w') := by
    rw [Function.update_apply] at hyk
    split_ifs at hyk with heq
    · obtain ⟨rfl, -⟩ := Prod.mk.inj (Option.some.inj hyk)
      exact ⟨v, heq ▸ hs⟩
    · exact ⟨v', hyk⟩
  obtain ⟨w', hold⟩ := hold
  obtain ⟨ν, hν, hhome, htaken⟩ := h y hy k' w' hold
  refine ⟨ν, hν, hhome, fun i hi hlt => ?_⟩
  rw [Function.update_apply]
  split_ifs
  · rfl
  · exact htaken i hi hlt

theorem Distinct.set (h : Distinct n s) {p : ℕ} {k : K} {v : V} (hs : s p = some (k, v)) (w : V) :
    Distinct n (Function.update s p (some (k, w))) := by
  have hold (q : ℕ) (k' : K) (v' : V)
      (hq : Function.update s p (some (k, w)) q = some (k', v')) : ∃ w', s q = some (k', w') := by
    rw [Function.update_apply] at hq
    split_ifs at hq with heq
    · obtain ⟨rfl, -⟩ := Prod.mk.inj (Option.some.inj hq)
      exact ⟨v, heq ▸ hs⟩
    · exact ⟨v', hq⟩
  intro q r hq hr k' v' w' hqk hrk
  obtain ⟨v₁, h₁⟩ := hold q k' v' hqk
  obtain ⟨v₂, h₂⟩ := hold r k' w' hrk
  exact h q r hq hr k' v₁ v₂ h₁ h₂

theorem holds_set (h : Distinct n s) {p : ℕ} (hp : p < n) {k : K} {v : V} (hs : s p = some (k, v))
    (w : V) (k' : K) (v' : V) :
    Holds n (Function.update s p (some (k, w))) k' v' ↔
      (k' = k ∧ v' = w) ∨ (k' ≠ k ∧ Holds n s k' v') := by
  constructor
  · rintro ⟨q, hq, heq⟩
    rw [Function.update_apply] at heq
    split_ifs at heq with hqp
    · obtain ⟨rfl, rfl⟩ := Prod.mk.inj (Option.some.inj heq)
      exact .inl ⟨rfl, rfl⟩
    · refine .inr ⟨?_, q, hq, heq⟩
      rintro rfl
      exact hqp (h q p hq hp _ _ _ heq hs)
  · rintro (⟨rfl, rfl⟩ | ⟨hne, q, hq, heq⟩)
    · exact ⟨p, hp, Function.update_self _ _ _⟩
    · refine ⟨q, hq, ?_⟩
      rw [Function.update_of_ne]
      · exact heq
      · rintro rfl
        rw [hs] at heq
        exact hne (Prod.mk.inj (Option.some.inj heq)).1.symm

/-! ## Deletion -/

/-- A hole at `η` is carried upwards, and the slots up to `y` have been looked at. The slot `η`
still shows an entry, either the deleted one or one that has a copy further down. -/
structure Carried (n : ℕ) (home : K → ℕ) (s : ℕ → Option (K × V)) (b η y : ℕ) : Prop where
  le : η ≤ y
  lt : y < n
  taken : (s (cell n b η)).isSome
  laid : ∀ y', y' < n → y' ≠ η → ∀ k v, s (cell n b y') = some (k, v) →
    ∃ ν, ν ≤ y' ∧ home k = cell n b ν ∧ ∀ i, ν ≤ i → i < y' → (s (cell n b i)).isSome
  past : ∀ y', η < y' → y' ≤ y → ∀ k v, s (cell n b y') = some (k, v) →
    ∀ ν, ν ≤ y' → home k = cell n b ν → η < ν

/-- The deletion starts with the hole at the deleted entry. -/
theorem Laid.carried (h : Laid n home s b) {y : ℕ} (hy : y < n) (hs : (s (cell n b y)).isSome) :
    Carried n home s b y y where
  le := le_refl y
  lt := hy
  taken := hs
  laid y' hy' _ := h y' hy'
  past _ hlt hle := absurd hlt (not_lt.mpr hle)

/-- The next entry moves into the hole, as its home lies below it. -/
theorem Carried.move {η y ν : ℕ} (h : Carried n home s b η y) (hy : y + 1 < n) {k : K} {v : V}
    (hs : s (cell n b (y + 1)) = some (k, v)) (hhome : home k = cell n b ν) (hν : ν ≤ η) :
    Carried n home (Function.update s (cell n b η) (some (k, v))) b (y + 1) (y + 1) := by
  have hη : η < n := lt_of_le_of_lt h.le h.lt
  have hle := h.le
  have hsome (i : ℕ) (hi : (s (cell n b i)).isSome) :
      (Function.update s (cell n b η) (some (k, v)) (cell n b i)).isSome := by
    rw [Function.update_apply]
    split_ifs
    · rfl
    · exact hi
  refine ⟨le_refl _, hy, hsome _ (by rw [hs]; rfl), ?_, fun y' hlt hle' => absurd hlt (by omega)⟩
  intro y' hy' hne k' v' hyk
  by_cases hy'η : y' = η
  · rw [hy'η, Function.update_self] at hyk
    obtain ⟨rfl, rfl⟩ := Prod.mk.inj (Option.some.inj hyk)
    obtain ⟨ν', hν', hhome', htaken⟩ := h.laid (y + 1) hy (by omega) k v hs
    have hνeq : ν' = ν := by
      refine cell_inj (n := n) (b := b) ?_ (by omega) (hhome'.symm.trans hhome)
      exact lt_of_le_of_lt hν' hy
    refine ⟨ν, hy'η ▸ hν, hhome, fun i hi hlt => hsome i (htaken i ?_ ?_)⟩
    · rw [hνeq]
      exact hi
    · omega
  · rw [Function.update_of_ne (fun heq => hy'η (cell_inj hy' hη heq))] at hyk
    obtain ⟨ν', hν', hhome', htaken⟩ := h.laid y' hy' hy'η k' v' hyk
    exact ⟨ν', hν', hhome', fun i hi hlt => hsome i (htaken i hi hlt)⟩

/-- The next entry stays, as its home lies above the hole. -/
theorem Carried.keep {η y ν : ℕ} (h : Carried n home s b η y) (hy : y + 1 < n) {k : K} {v : V}
    (hs : s (cell n b (y + 1)) = some (k, v)) (hhome : home k = cell n b ν) (hνy : ν ≤ y + 1)
    (hν : η < ν) : Carried n home s b η (y + 1) := by
  refine ⟨h.le.trans (Nat.le_succ y), hy, h.taken, h.laid, ?_⟩
  intro y' hlt hle k' v' hyk ν' hν' hhome'
  by_cases hlast : y' = y + 1
  · rw [hlast, hs] at hyk
    obtain ⟨rfl, rfl⟩ := Prod.mk.inj (Option.some.inj hyk)
    have heq : ν' = ν :=
      cell_inj (n := n) (b := b) (by omega) (by omega) (hhome'.symm.trans hhome)
    rw [heq]
    exact hν
  · exact h.past y' hlt (by omega) k' v' hyk ν' hν' hhome'

/-- **The end of the deletion**: no entry above needs the hole, and it is cleared. -/
theorem Carried.finish {η y : ℕ} (h : Carried n home s b η y)
    (hend : y + 1 = n ∨ (y + 1 < n ∧ s (cell n b (y + 1)) = none)) :
    Laid n home (Function.update s (cell n b η) none) b := by
  have hη : η < n := lt_of_le_of_lt h.le h.lt
  intro y' hy' k v hyk
  have hne : y' ≠ η := by
    rintro rfl
    rw [Function.update_self] at hyk
    cases hyk
  rw [Function.update_of_ne (fun heq => hne (cell_inj hy' hη heq))] at hyk
  obtain ⟨ν, hν, hhome, htaken⟩ := h.laid y' hy' hne k v hyk
  have habove (hlt : η < y') : η < ν := by
    rcases hend with hlast | ⟨hnext, hempty⟩
    · exact h.past y' hlt (by omega) k v hyk ν hν hhome
    · by_cases hle : y' ≤ y
      · exact h.past y' hlt hle k v hyk ν hν hhome
      · have hy'ne : y' ≠ y + 1 := by
          rintro rfl
          rw [hempty] at hyk
          cases hyk
        by_contra hνη
        have hsome := htaken (y + 1) (by have := h.le; omega) (by omega)
        rw [hempty] at hsome
        cases hsome
  refine ⟨ν, hν, hhome, fun i hi hlt => ?_⟩
  have hiη : i ≠ η := by
    rintro rfl
    exact absurd (habove hlt) (not_lt.mpr hi)
  rw [Function.update_of_ne (fun heq => hiη (cell_inj (by omega) hη heq))]
  exact htaken i hi hlt

/-- Moving an entry into the hole changes nothing but the place of the hole. -/
theorem holds_move {p q : ℕ} (hp : p < n) (hq : q < n) (hne : p ≠ q) (k : K) (v : V) :
    Holds n (Function.update (Function.update s p (s q)) q none) k v ↔
      Holds n (Function.update s p none) k v := by
  constructor
  · rintro ⟨r, hr, heq⟩
    rw [Function.update_apply, Function.update_apply] at heq
    split_ifs at heq with hrq hrp
    · refine ⟨q, hq, ?_⟩
      rw [Function.update_of_ne (Ne.symm hne)]
      exact heq
    · refine ⟨r, hr, ?_⟩
      rw [Function.update_of_ne hrp]
      exact heq
  · rintro ⟨r, hr, heq⟩
    rw [Function.update_apply] at heq
    split_ifs at heq with hrp
    by_cases hrq : r = q
    · refine ⟨p, hp, ?_⟩
      rw [Function.update_of_ne hne, Function.update_self, ← hrq]
      exact heq
    · refine ⟨r, hr, ?_⟩
      rw [Function.update_of_ne hrq, Function.update_of_ne hrp]
      exact heq

theorem Distinct.move {p q : ℕ} (hq : q < n) (hne : p ≠ q)
    (h : Distinct n (Function.update s p none)) :
    Distinct n (Function.update (Function.update s p (s q)) q none) := by
  -- the new slot of an entry, as a function of the old one
  have hold (r : ℕ) (hr : r < n) (e : K × V)
      (heq : Function.update (Function.update s p (s q)) q none r = some e) :
      ∃ r', r' < n ∧ Function.update s p none r' = some e ∧ ((r = p ∧ r' = q) ∨
        (r ≠ p ∧ r ≠ q ∧ r' = r)) := by
    rw [Function.update_apply, Function.update_apply] at heq
    split_ifs at heq with hrq hrp
    · refine ⟨q, hq, ?_, .inl ⟨hrp, rfl⟩⟩
      rw [Function.update_of_ne (Ne.symm hne)]
      exact heq
    · refine ⟨r, hr, ?_, .inr ⟨hrp, hrq, rfl⟩⟩
      rw [Function.update_of_ne hrp]
      exact heq
  intro r t hr ht k v w hrk htk
  obtain ⟨r', hr', hrk', hrcase⟩ := hold r hr _ hrk
  obtain ⟨t', ht', htk', htcase⟩ := hold t ht _ htk
  have heq := h r' t' hr' ht' k v w hrk' htk'
  omega

/-- What the table holds once the hole is cleared. -/
theorem holds_clear (h : Distinct n s) {p : ℕ} (hp : p < n) {k : K} {v : V}
    (hs : s p = some (k, v)) (k' : K) (v' : V) :
    Holds n (Function.update s p none) k' v' ↔ k' ≠ k ∧ Holds n s k' v' := by
  constructor
  · rintro ⟨q, hq, heq⟩
    rw [Function.update_apply] at heq
    split_ifs at heq with hqp
    refine ⟨?_, q, hq, heq⟩
    rintro rfl
    exact hqp (h q p hq hp _ _ _ heq hs)
  · rintro ⟨hne, q, hq, heq⟩
    refine ⟨q, hq, ?_⟩
    rw [Function.update_of_ne]
    · exact heq
    · rintro rfl
      rw [hs] at heq
      exact hne (Prod.mk.inj (Option.some.inj heq)).1.symm

theorem Distinct.clear (h : Distinct n s) (p : ℕ) : Distinct n (Function.update s p none) := by
  intro q r hq hr k v w hqk hrk
  rw [Function.update_apply] at hqk hrk
  split_ifs at hqk hrk
  exact h q r hq hr k v w hqk hrk

end Aura.Lib.Probing
