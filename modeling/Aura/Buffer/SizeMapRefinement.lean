import Aura.Buffer.SizeMap

/-!
# The buffer size map is a finite map

* `BufSizeMap.Refines` — the map holds the entries of a reference map, laid out for linear probing.
* `search_found`, `search_absent` — what a search does, in terms of the entries alone.
* `sizeMap_refines` — every operation terminates and does to the entries what the reference does,
  for any pattern of failing allocations and up to a completely full table. -/

namespace Aura

open Lib Lib.Probing

/-! ## Masks -/

theorem and_mask (x k : ℕ) : x &&& (2 ^ k - 1) = x % 2 ^ k := Nat.and_two_pow_sub_one_eq_mod x k

/-- A masked difference is a circular distance. -/
theorem maskedSub_eq {a b k : ℕ} (hk : k ≤ 64) (hb : b < 2 ^ k) :
    maskedSub a b (2 ^ k - 1) = Probing.dist (2 ^ k) b a := by
  have hle : 2 ^ k ≤ 2 ^ 64 := Nat.pow_le_pow_right (by decide) hk
  have hdvd : 2 ^ k ∣ 2 ^ 64 := Nat.pow_dvd_pow 2 hk
  unfold maskedSub Probing.dist
  rw [and_mask, Nat.mod_mod_of_dvd _ hdvd]
  obtain ⟨c, hc⟩ := hdvd
  have hcpos : 0 < c := by
    rcases Nat.eq_zero_or_pos c with rfl | h
    · rw [Nat.mul_zero] at hc
      exact absurd hc (by decide)
    · exact h
  obtain ⟨c', rfl⟩ := Nat.exists_eq_add_of_lt hcpos
  rw [hc, show a + 2 ^ k * (0 + c' + 1) - b = a + 2 ^ k - b + 2 ^ k * c' by
    rw [Nat.mul_add, Nat.mul_add]
    omega]
  exact Nat.add_mul_mod_self_left _ _ _

theorem bufMapHash_lt (key : UInt64) {k : ℕ} (hk : k ≤ 64) :
    bufMapHash key (2 ^ k - 1) < 2 ^ k := by
  unfold bufMapHash
  rw [UInt64.toNat_and]
  have hpos : 0 < 2 ^ k := Nat.two_pow_pos k
  have hle : 2 ^ k ≤ 2 ^ 64 := Nat.pow_le_pow_right (by decide) hk
  have hmask : (UInt64.ofNat (2 ^ k - 1)).toNat = 2 ^ k - 1 :=
    UInt64.toNat_ofNat_of_lt' (by simp only [UInt64.size]; omega)
  rw [hmask]
  exact lt_of_le_of_lt Nat.and_le_right (by omega)

/-! ## The entries of a table -/

/-- What a slot holds. -/
def BufMapEntry.content (e : BufMapEntry) : Option (UInt64 × UInt8) :=
  if e.key = 0 then none else some (e.key, e.classIdx)

theorem BufMapEntry.content_eq_none {e : BufMapEntry} : e.content = none ↔ e.key = 0 := by
  unfold content
  split_ifs with h <;> simp [h]

theorem BufMapEntry.content_eq_some {e : BufMapEntry} {k : UInt64} {u : UInt8} :
    e.content = some (k, u) ↔ k ≠ 0 ∧ e = { key := k, classIdx := u } := by
  unfold content
  split_ifs with h
  · simp only [false_iff, not_and]
    rintro hk rfl
    exact hk h
  · constructor
    · intro heq
      obtain ⟨rfl, rfl⟩ := Prod.mk.inj (Option.some.inj heq)
      exact ⟨h, rfl⟩
    · rintro ⟨-, rfl⟩
      rfl

theorem BufMapEntry.content_isSome {e : BufMapEntry} : e.content.isSome ↔ e.key ≠ 0 := by
  rw [← Option.ne_none_iff_isSome, ne_eq, content_eq_none]

/-- The slots of a table. -/
def slotsOf (entries : ℕ → BufMapEntry) (p : ℕ) : Option (UInt64 × UInt8) := (entries p).content

theorem slotsOf_update (entries : ℕ → BufMapEntry) (p : ℕ) (e : BufMapEntry) :
    slotsOf (Function.update entries p e) = Function.update (slotsOf entries) p e.content := by
  funext q
  unfold slotsOf
  rw [Function.update_apply, Function.update_apply]
  split_ifs <;> rfl

/-- The natural slot of a key in a table of capacity `n`. -/
def homeOf (n : ℕ) (key : UInt64) : ℕ := bufMapHash key (n - 1)

/-- A table of `2 ^ k` slots, laid out for linear probing. -/
structure Table (k : ℕ) (entries : ℕ → BufMapEntry) : Prop where
  le : k ≤ 64
  laid : ∃ b, Laid (2 ^ k) (homeOf (2 ^ k)) (slotsOf entries) b
  distinct : Distinct (2 ^ k) (slotsOf entries)

/-- The table has this entry. -/
abbrev HasEntry (k : ℕ) (entries : ℕ → BufMapEntry) (key : UInt64) (u : UInt8) : Prop :=
  Holds (2 ^ k) (slotsOf entries) key u

/-! ## Search -/

section Search

variable {map : BufSizeMap} {k : ℕ}

/-- The slots that a search visits. -/
theorem next_cell (b i : ℕ) : (cell (2 ^ k) b i + 1) &&& (2 ^ k - 1) = cell (2 ^ k) b (i + 1) := by
  rw [and_mask, cell_succ]

/-- From `d` slots below the entry a search finds it. -/
theorem probe_found (hcap : map.capacity = 2 ^ k) (hdist : Distinct (2 ^ k) (slotsOf map.entries))
    {key : UInt64} {u : UInt8} {b d : ℕ}
    (hs : slotsOf map.entries (cell (2 ^ k) b d) = some (key, u)) (hd : d < 2 ^ k)
    (htaken : ∀ i, i < d → (slotsOf map.entries (cell (2 ^ k) b i)).isSome) {n i : ℕ} (hi : i ≤ d)
    (hn : d < n + i) :
    map.probe key n (cell (2 ^ k) b i) = (true, cell (2 ^ k) b d) := by
  have hpos : 0 < 2 ^ k := Nat.two_pow_pos k
  induction n generalizing i with
  | zero => omega
  | succ n ih =>
      unfold BufSizeMap.probe
      rcases Nat.eq_or_lt_of_le hi with rfl | hlt
      · obtain ⟨hkey, heq⟩ := BufMapEntry.content_eq_some.mp hs
        rw [heq, if_neg hkey, if_pos rfl]
      · have hsome := htaken i hlt
        obtain ⟨⟨key', u'⟩, hentry⟩ := Option.isSome_iff_exists.mp hsome
        obtain ⟨hkey', heq⟩ := BufMapEntry.content_eq_some.mp hentry
        have hne : key' ≠ key := by
          rintro rfl
          have hcell := hdist _ _ (cell_lt hpos b i) (cell_lt hpos b d) _ _ _ hentry hs
          have := cell_inj (lt_trans hlt hd) hd hcell
          omega
        rw [heq, if_neg hkey', if_neg hne, hcap, next_cell]
        exact ih hlt (by omega)

/-- Without the entry a search ends in the first empty slot, if there is one. -/
theorem probe_absent (hcap : map.capacity = 2 ^ k) {key : UInt64}
    (habsent : ∀ u, ¬ HasEntry k map.entries key u) (b n i : ℕ) :
    ∃ j, j ≤ n ∧ map.probe key n (cell (2 ^ k) b i) = (false, cell (2 ^ k) b (i + j)) ∧
      (∀ i', i ≤ i' → i' < i + j → (slotsOf map.entries (cell (2 ^ k) b i')).isSome) ∧
      (j < n → slotsOf map.entries (cell (2 ^ k) b (i + j)) = none) := by
  induction n generalizing i with
  | zero => exact ⟨0, le_refl 0, rfl, fun i' hle hlt => absurd hlt (by omega), nofun⟩
  | succ n ih =>
      unfold BufSizeMap.probe
      by_cases hempty : (map.entries (cell (2 ^ k) b i)).key = 0
      · refine ⟨0, Nat.zero_le _, by rw [if_pos hempty]; rfl, fun i' hle hlt => ?_, fun _ => ?_⟩
        · omega
        · exact BufMapEntry.content_eq_none.mpr hempty
      · have hsome : (slotsOf map.entries (cell (2 ^ k) b i)).isSome :=
          BufMapEntry.content_isSome.mpr hempty
        have hne : (map.entries (cell (2 ^ k) b i)).key ≠ key := by
          rintro rfl
          refine habsent (map.entries (cell (2 ^ k) b i)).classIdx
            ⟨_, cell_lt (Nat.two_pow_pos k) b i, ?_⟩
          exact BufMapEntry.content_eq_some.mpr ⟨hempty, rfl⟩
        obtain ⟨j, hj, hprobe, htaken, hlast⟩ := ih (i + 1)
        rw [if_neg hempty, if_neg hne, hcap, next_cell, hprobe]
        refine ⟨j + 1, by omega, by rw [Nat.add_right_comm]; rfl, fun i' hle hlt => ?_,
          fun hlt => ?_⟩
        · rcases Nat.eq_or_lt_of_le hle with rfl | hlt'
          · exact hsome
          · exact htaken i' hlt' (by omega)
        · rw [show i + (j + 1) = i + 1 + j by omega]
          exact hlast (by omega)

theorem homeOf_lt {k : ℕ} (hk : k ≤ 64) (key : UInt64) : homeOf (2 ^ k) key < 2 ^ k :=
  bufMapHash_lt key hk

/-- A key with an entry is found where the entry is. -/
theorem search_found (hcap : map.capacity = 2 ^ k) (ht : Table k map.entries) {key : UInt64}
    {u : UInt8} (h : HasEntry k map.entries key u) :
    ∃ p, p < 2 ^ k ∧ map.search key = (true, p) ∧ slotsOf map.entries p = some (key, u) := by
  obtain ⟨p, hp, hs⟩ := h
  obtain ⟨b, hlaid⟩ := ht.laid
  obtain ⟨d, hd, rfl, htaken⟩ := hlaid.path hp hs
  refine ⟨_, hp, ?_, hs⟩
  have hprobe := probe_found hcap ht.distinct hs hd htaken (n := 2 ^ k) (Nat.zero_le d) (by omega)
  rw [cell_zero (homeOf_lt ht.le key)] at hprobe
  unfold BufSizeMap.search
  rw [hcap]
  exact hprobe

/-- For any other key the search ends in the first empty slot, or has seen the whole table. -/
theorem search_absent (hcap : map.capacity = 2 ^ k) (hk : k ≤ 64) {key : UInt64}
    (h : ∀ u, ¬ HasEntry k map.entries key u) :
    ∃ j, j ≤ 2 ^ k ∧ map.search key = (false, cell (2 ^ k) (homeOf (2 ^ k) key) j) ∧
      (∀ i, i < j → (slotsOf map.entries (cell (2 ^ k) (homeOf (2 ^ k) key) i)).isSome) ∧
      (j < 2 ^ k → slotsOf map.entries (cell (2 ^ k) (homeOf (2 ^ k) key) j) = none) := by
  obtain ⟨j, hj, hprobe, htaken, hlast⟩ :=
    probe_absent hcap h (homeOf (2 ^ k) key) (2 ^ k) 0
  rw [Nat.zero_add] at hprobe htaken hlast
  rw [cell_zero (homeOf_lt hk key)] at hprobe
  refine ⟨j, hj, ?_, fun i hi => htaken i (Nat.zero_le i) hi, hlast⟩
  unfold BufSizeMap.search
  rw [hcap]
  exact hprobe

end Search

/-! ## The backward shift -/

section Shift

variable {k b : ℕ}

/-- The test of the shift, in coordinates. -/
theorem shift_test (hk : k ≤ 64) {key : UInt64} {ν η y : ℕ}
    (hhome : homeOf (2 ^ k) key = cell (2 ^ k) b ν)
    (hν : ν ≤ y) (hy : y < 2 ^ k) (hη : η < 2 ^ k) :
    maskedSub (cell (2 ^ k) b η) (bufMapHash key (2 ^ k - 1)) (2 ^ k - 1) ≤
        maskedSub (cell (2 ^ k) b y) (bufMapHash key (2 ^ k - 1)) (2 ^ k - 1) ↔ ν ≤ η ∧ η ≤ y := by
  rw [maskedSub_eq hk (bufMapHash_lt key hk), maskedSub_eq hk (bufMapHash_lt key hk)]
  change Probing.dist _ (homeOf (2 ^ k) key) _ ≤ Probing.dist _ (homeOf (2 ^ k) key) _ ↔ _
  rw [hhome]
  exact dist_le_iff hν hy hη

/-- Below the hole nothing moves: the shift of a full table comes back to where it started. -/
theorem shift_wrap (hk : k ≤ 64) {entries : ℕ → BufMapEntry} {η y : ℕ}
    (h : Carried (2 ^ k) (homeOf (2 ^ k)) (slotsOf entries) b η y) {n z : ℕ} (hz : z + n ≤ η + 1) :
    BufSizeMap.shift (2 ^ k - 1) n entries (cell (2 ^ k) b η) (cell (2 ^ k) b z) =
      (entries, cell (2 ^ k) b η) := by
  have hη : η < 2 ^ k := lt_of_le_of_lt h.le h.lt
  induction n generalizing z with
  | zero => rfl
  | succ n ih =>
      unfold BufSizeMap.shift
      by_cases hempty : (entries (cell (2 ^ k) b z)).key = 0
      · rw [if_pos hempty]
      · rw [if_neg hempty]
        rcases Nat.eq_or_lt_of_le (show z ≤ η by omega) with rfl | hlt
        · obtain rfl : n = 0 := by omega
          split_ifs
          · rw [Function.update_eq_self]
            rfl
          · rfl
        · obtain ⟨ν, hν, hhome, -⟩ := h.laid z (by omega) (by omega) _ _
            (BufMapEntry.content_eq_some.mpr ⟨hempty, rfl⟩)
          rw [if_neg, next_cell]
          · exact ih (by omega)
          · rw [shift_test hk hhome hν (by omega) hη]
            omega

/-- **The backward shift.** What it leaves, once the hole is cleared, is laid out for searching and
holds the same entries. -/
theorem shift_spec (hk : k ≤ 64) {y₀ n : ℕ} {entries : ℕ → BufMapEntry} {η y : ℕ}
    (h : Carried (2 ^ k) (homeOf (2 ^ k)) (slotsOf entries) b η y)
    (hdist : Distinct (2 ^ k) (Function.update (slotsOf entries) (cell (2 ^ k) b η) none))
    (hy₀ : y₀ ≤ η) (hn : y + n = y₀ + 2 ^ k) :
    ∃ entries' η', η' < 2 ^ k ∧
      BufSizeMap.shift (2 ^ k - 1) n entries (cell (2 ^ k) b η) (cell (2 ^ k) b (y + 1)) =
        (entries', cell (2 ^ k) b η') ∧
      Laid (2 ^ k) (homeOf (2 ^ k))
        (Function.update (slotsOf entries') (cell (2 ^ k) b η') none) b ∧
      Distinct (2 ^ k) (Function.update (slotsOf entries') (cell (2 ^ k) b η') none) ∧
      ∀ key u, Holds (2 ^ k) (Function.update (slotsOf entries') (cell (2 ^ k) b η') none) key u ↔
        Holds (2 ^ k) (Function.update (slotsOf entries) (cell (2 ^ k) b η) none) key u := by
  have hpos : 0 < 2 ^ k := Nat.two_pow_pos k
  induction n generalizing entries η y with
  | zero =>
      have hlt := h.lt
      have hle := h.le
      omega
  | succ n ih =>
      have hη : η < 2 ^ k := lt_of_le_of_lt h.le h.lt
      by_cases hlast : y + 1 = 2 ^ k
      · -- the last coordinate: the shift goes on below the hole
        refine ⟨entries, η, hη, ?_, h.finish (.inl hlast), hdist, fun _ _ => Iff.rfl⟩
        rw [show y + 1 = 0 + 2 ^ k by omega, cell_add_self]
        exact shift_wrap hk h (by omega)
      · have hy : y + 1 < 2 ^ k := lt_of_le_of_ne h.lt hlast
        unfold BufSizeMap.shift
        by_cases hempty : (entries (cell (2 ^ k) b (y + 1))).key = 0
        · rw [if_pos hempty]
          exact ⟨entries, η, hη, rfl,
            h.finish (.inr ⟨hy, BufMapEntry.content_eq_none.mpr hempty⟩), hdist, fun _ _ => Iff.rfl⟩
        · have hle := h.le
          have hne : y + 1 ≠ η := by omega
          have hsome : slotsOf entries (cell (2 ^ k) b (y + 1)) =
              some ((entries (cell (2 ^ k) b (y + 1))).key,
                (entries (cell (2 ^ k) b (y + 1))).classIdx) :=
            BufMapEntry.content_eq_some.mpr ⟨hempty, rfl⟩
          obtain ⟨ν, hν, hhome, -⟩ := h.laid (y + 1) hy hne _ _ hsome
          have htest := shift_test hk hhome hν hy hη
          have hcell : cell (2 ^ k) b η ≠ cell (2 ^ k) b (y + 1) :=
            fun heq => hne (cell_inj hη hy heq).symm
          rw [if_neg hempty, next_cell]
          by_cases hmove : ν ≤ η
          · rw [if_pos (htest.mpr ⟨hmove, by omega⟩)]
            have hslots : slotsOf (Function.update entries (cell (2 ^ k) b η)
                (entries (cell (2 ^ k) b (y + 1)))) =
                Function.update (slotsOf entries) (cell (2 ^ k) b η)
                  (slotsOf entries (cell (2 ^ k) b (y + 1))) := slotsOf_update _ _ _
            have hcarried := h.move hy hsome hhome hmove
            rw [← hsome, ← hslots] at hcarried
            have hdist' := hdist.move (cell_lt hpos b (y + 1)) hcell
            rw [← hslots] at hdist'
            obtain ⟨entries', η', hη', heq, hlaid, hdist'', hholds⟩ :=
              ih hcarried hdist' (by omega) (by omega)
            refine ⟨entries', η', hη', heq, hlaid, hdist'', fun key u => ?_⟩
            rw [hholds, hslots]
            exact holds_move (cell_lt hpos b η) (cell_lt hpos b (y + 1)) hcell key u
          · rw [if_neg (fun ht => hmove (htest.mp ht).1)]
            exact ih (h.keep hy hsome hhome hν (by omega)) hdist hy₀ (by omega)

end Shift

/-! ## Growth -/

section Growth

variable {k : ℕ} {entries : ℕ → BufMapEntry}

/-- The loop for a free slot ends when there is one. -/
theorem bufMapFreeSlot_spec {b j n : ℕ} (hj : slotsOf entries (cell (2 ^ k) b j) = none) {i : ℕ}
    (hi : i ≤ j) (hn : j < i + n) :
    ∃ d, i ≤ d ∧ d ≤ j ∧ bufMapFreeSlot entries (2 ^ k - 1) n (cell (2 ^ k) b i) =
        some (cell (2 ^ k) b d) ∧
      (∀ i', i ≤ i' → i' < d → (slotsOf entries (cell (2 ^ k) b i')).isSome) ∧
      slotsOf entries (cell (2 ^ k) b d) = none := by
  induction n generalizing i with
  | zero => omega
  | succ n ih =>
      unfold bufMapFreeSlot
      by_cases hempty : (entries (cell (2 ^ k) b i)).key = 0
      · refine ⟨i, le_refl i, hi, if_neg (not_not.mpr hempty), fun i' hle hlt => ?_, ?_⟩
        · omega
        · exact BufMapEntry.content_eq_none.mpr hempty
      · have hne : i ≠ j := by
          rintro rfl
          exact hempty (BufMapEntry.content_eq_none.mp hj)
        obtain ⟨d, hd, hdj, heq, htaken, hlast⟩ := ih (show i + 1 ≤ j by omega) (by omega)
        rw [if_pos hempty, next_cell]
        refine ⟨d, by omega, hdj, heq, fun i' hle hlt => ?_, hlast⟩
        rcases Nat.eq_or_lt_of_le hle with rfl | hlt'
        · exact BufMapEntry.content_isSome.mpr hempty
        · exact htaken i' hlt' hlt

theorem table_empty (hk : k ≤ 64) : Table k fun _ => {} where
  le := hk
  laid := ⟨0, nofun⟩
  distinct := nofun

/-- A new entry at the end of its search path. -/
theorem Table.place (ht : Table k entries) {key : UInt64} (hkey : key ≠ 0) (u : UInt8)
    (habsent : ∀ w, ¬ HasEntry k entries key w) {d : ℕ} (hd : d < 2 ^ k)
    (hempty : slotsOf entries (cell (2 ^ k) (homeOf (2 ^ k) key) d) = none)
    (htaken : ∀ i, i < d → (slotsOf entries (cell (2 ^ k) (homeOf (2 ^ k) key) i)).isSome) :
    Table k (Function.update entries (cell (2 ^ k) (homeOf (2 ^ k) key) d)
        { key, classIdx := u }) ∧
      ∀ key' w, HasEntry k (Function.update entries (cell (2 ^ k) (homeOf (2 ^ k) key) d)
        { key, classIdx := u }) key' w ↔ (key' = key ∧ w = u) ∨ HasEntry k entries key' w := by
  obtain ⟨b, hlaid⟩ := ht.laid
  have hcontent : BufMapEntry.content { key, classIdx := u } = some (key, u) :=
    BufMapEntry.content_eq_some.mpr ⟨hkey, rfl⟩
  have hslots := slotsOf_update entries (cell (2 ^ k) (homeOf (2 ^ k) key) d) { key, classIdx := u }
  rw [hcontent] at hslots
  refine ⟨⟨ht.le, ⟨cell (2 ^ k) (homeOf (2 ^ k) key) d + 1, ?_⟩, ?_⟩, fun key' w => ?_⟩
  · rw [hslots]
    exact hlaid.place (homeOf_lt ht.le) u hd hempty htaken
  · rw [hslots]
    exact ht.distinct.place u habsent
  · change Holds _ (slotsOf _) _ _ ↔ _
    rw [hslots]
    exact holds_place (cell_lt (Nat.two_pow_pos k) _ _) hempty key u key' w

/-- **Rehashing.** The new table has the entries of the slots that were copied. -/
theorem bufMapRehash_spec {old : ℕ → BufMapEntry} (hold : Distinct (2 ^ k) (slotsOf old))
    (hk : k + 1 ≤ 64) {i : ℕ} (hi : i ≤ 2 ^ k) :
    ∃ new, bufMapRehash old (2 ^ (k + 1)) i = some new ∧ Table (k + 1) new ∧
      ∀ key u, HasEntry (k + 1) new key u ↔ ∃ p, p < i ∧ slotsOf old p = some (key, u) := by
  induction i with
  | zero =>
      refine ⟨_, rfl, table_empty hk, fun key u => ?_⟩
      simp only [Nat.not_lt_zero, false_and, exists_false, iff_false]
      rintro ⟨p, -, hp⟩
      cases hp
  | succ i ih =>
      obtain ⟨new, hnew, ht, hentries⟩ := ih (by omega)
      unfold bufMapRehash
      rw [hnew, Option.bind_some]
      by_cases hempty : (old i).key = 0
      · rw [if_neg (not_not.mpr hempty)]
        refine ⟨new, rfl, ht, fun key u => ?_⟩
        rw [hentries]
        constructor
        · rintro ⟨p, hp, hs⟩
          exact ⟨p, by omega, hs⟩
        · rintro ⟨p, hp, hs⟩
          refine ⟨p, ?_, hs⟩
          have hne : p ≠ i := by
            rintro rfl
            exact (BufMapEntry.content_eq_some.mp hs).1
              (by rw [← hempty, (BufMapEntry.content_eq_some.mp hs).2])
          omega
      · rw [if_pos hempty]
        have hsi : slotsOf old i = some ((old i).key, (old i).classIdx) :=
          BufMapEntry.content_eq_some.mpr ⟨hempty, rfl⟩
        have habsent (w : UInt8) : ¬ HasEntry (k + 1) new (old i).key w := by
          rw [hentries]
          rintro ⟨p, hp, hs⟩
          have := hold p i (by omega) (by omega) _ _ _ hs hsi
          omega
        -- there are at most `i` keys in a table of twice as many slots
        have hkeys : ∀ key u, HasEntry (k + 1) new key u →
            key ∈ (Finset.range i).image fun p => (old p).key := by
          intro key u hholds
          obtain ⟨p, hp, hs⟩ := (hentries key u).mp hholds
          refine Finset.mem_image.mpr ⟨p, Finset.mem_range.mpr hp, ?_⟩
          rw [(BufMapEntry.content_eq_some.mp hs).2]
        have hcard : ((Finset.range i).image fun p => (old p).key).card < 2 ^ (k + 1) := by
          refine lt_of_le_of_lt Finset.card_image_le ?_
          rw [Finset.card_range, Nat.pow_succ]
          omega
        obtain ⟨p, hp, hpempty⟩ := ht.distinct.exists_empty hkeys hcard
        obtain ⟨j, hj, rfl⟩ := exists_cell (homeOf (2 ^ (k + 1)) (old i).key) hp
        obtain ⟨d, -, hdj, hfree, htaken, hlast⟩ :=
          bufMapFreeSlot_spec hpempty (n := 2 ^ (k + 1)) (Nat.zero_le j) (by omega)
        rw [cell_zero (homeOf_lt hk _)] at hfree
        obtain ⟨ht', hentries'⟩ := ht.place hempty (old i).classIdx habsent (lt_of_le_of_lt hdj hj)
          hlast (fun i' hlt => htaken i' (Nat.zero_le i') hlt)
        refine ⟨_, congrArg (Option.map _) hfree, ht', fun key u => ?_⟩
        rw [hentries', hentries]
        constructor
        · rintro (⟨rfl, rfl⟩ | ⟨p, hp, hs⟩)
          · exact ⟨i, Nat.lt_succ_self i, hsi⟩
          · exact ⟨p, by omega, hs⟩
        · rintro ⟨p, hp, hs⟩
          rcases Nat.eq_or_lt_of_le (Nat.le_of_lt_succ hp) with rfl | hlt
          · rw [hsi] at hs
            obtain ⟨rfl, rfl⟩ := Prod.mk.inj (Option.some.inj hs)
            exact .inl ⟨rfl, rfl⟩
          · exact .inr ⟨p, hlt, hs⟩

end Growth

/-! ## Refinement -/

/-- A size class as it is stored. -/
def classByte (c : Fin BUFFER_SIZE_CLASSES) : UInt8 := UInt8.ofNat c

theorem classByte_ofInt : ∀ c : Fin BUFFER_SIZE_CLASSES, UInt8.ofInt (c : ℤ) = classByte c := by
  decide

theorem classByte_toNat : ∀ c : Fin BUFFER_SIZE_CLASSES, (classByte c).toNat = c := by decide

/-- The map with `2 ^ k` slots holds exactly the entries of `m`, and counts them. -/
structure BufSizeMap.Refines (k : ℕ) (map : BufSizeMap) (m : SizeMap) : Prop where
  ge : 10 ≤ k
  le : k ≤ 20
  capacity : map.capacity = 2 ^ k
  table : Table k map.entries
  entries : ∀ key u, HasEntry k map.entries key u ↔ ∃ c, m.lookup key = some c ∧ u = classByte c
  count : map.count = m.keys.card

namespace BufSizeMap

variable {map : BufSizeMap} {m : SizeMap} {k : ℕ}

theorem refines_init : bufSizeMapInit.Refines 10 ∅ where
  ge := le_refl 10
  le := by decide
  capacity := rfl
  table := table_empty (by decide)
  entries key u := by
    rw [Finmap.lookup_empty]
    simp only [reduceCtorEq, false_and, exists_false, iff_false]
    rintro ⟨p, -, hp⟩
    cases hp
  count := rfl

/-- A key of the reference is the key of an entry. -/
theorem Refines.mem_keys (h : map.Refines k m) {key : UInt64} {u : UInt8}
    (he : HasEntry k map.entries key u) : key ∈ m.keys := by
  obtain ⟨c, hc, -⟩ := (h.entries key u).mp he
  exact Finmap.mem_keys.mpr (Finmap.mem_of_lookup_eq_some hc)

theorem Refines.not_mem_keys (h : map.Refines k m) {key : UInt64}
    (hnone : m.lookup key = none) (u : UInt8) : ¬ HasEntry k map.entries key u := by
  rw [h.entries, hnone]
  rintro ⟨c, hc, -⟩
  cases hc

/-- Below full load there is an empty slot. -/
theorem Refines.exists_empty (h : map.Refines k m) (hlt : map.count < 2 ^ k) :
    ∃ p, p < 2 ^ k ∧ slotsOf map.entries p = none :=
  h.table.distinct.exists_empty (fun _ _ => h.mem_keys) (h.count ▸ hlt)

/-- There are no more keys than slots. -/
theorem Refines.count_le (h : map.Refines k m) : map.count ≤ 2 ^ k := by
  have hslot (key : UInt64) (hkey : key ∈ m.keys) :
      ∃ p u, p < 2 ^ k ∧ slotsOf map.entries p = some (key, u) := by
    obtain ⟨c, hc⟩ := Finmap.mem_iff.mp (Finmap.mem_keys.mp hkey)
    obtain ⟨p, hp, hs⟩ := (h.entries key (classByte c)).mpr ⟨c, hc, rfl⟩
    exact ⟨p, _, hp, hs⟩
  choose! slot byte hslot using hslot
  rw [h.count, ← Finset.card_range (2 ^ k)]
  refine Finset.card_le_card_of_injOn slot ?_ ?_
  · intro key hkey
    exact Finset.mem_coe.mpr (Finset.mem_range.mpr (hslot key hkey).1)
  · intro key hkey key' hkey' heq
    have hs := (hslot key hkey).2
    rw [heq, (hslot key' hkey').2] at hs
    exact (Prod.mk.inj (Option.some.inj hs)).1.symm

/-- The entries after an insertion. -/
theorem Refines.insert_entries (h : map.Refines k m) {key : UInt64} {c : Fin BUFFER_SIZE_CLASSES}
    {entries : ℕ → BufMapEntry}
    (he : ∀ key' u, HasEntry k entries key' u ↔
      (key' = key ∧ u = classByte c) ∨ (key' ≠ key ∧ HasEntry k map.entries key' u))
    (key' : UInt64) (u : UInt8) :
    HasEntry k entries key' u ↔
      ∃ c', (m.insert key c).lookup key' = some c' ∧ u = classByte c' := by
  rw [he]
  by_cases hkey : key' = key
  · rw [hkey, Finmap.lookup_insert]
    simp
  · rw [Finmap.lookup_insert_of_ne _ hkey, h.entries]
    simp [hkey]

theorem keys_insert (m : SizeMap) (key : UInt64) (c : Fin BUFFER_SIZE_CLASSES) :
    (m.insert key c).keys = Insert.insert key m.keys := by
  ext key'
  rw [Finmap.mem_keys, Finmap.mem_insert, Finset.mem_insert, Finmap.mem_keys]

/-- **An insertion below full load succeeds**, in place when the key is there. -/
theorem Refines.insertSlot (h : map.Refines k m) (hlt : map.count < 2 ^ k) {key : UInt64}
    (hkey : key ≠ 0) (c : Fin BUFFER_SIZE_CLASSES) :
    ∃ map', map.insertSlot key c = (0, map') ∧ map'.Refines k (m.insert key c) := by
  cases hlookup : m.lookup key with
  | some c₀ =>
      obtain ⟨p, hp, hsearch, hs⟩ :=
        search_found h.capacity h.table ((h.entries key (classByte c₀)).mpr ⟨c₀, hlookup, rfl⟩)
      obtain ⟨b, hlaid⟩ := h.table.laid
      have hentry := (BufMapEntry.content_eq_some.mp hs).2
      have hslots := slotsOf_update map.entries p { key, classIdx := classByte c }
      rw [show BufMapEntry.content { key, classIdx := classByte c } = some (key, classByte c) from
        BufMapEntry.content_eq_some.mpr ⟨hkey, rfl⟩] at hslots
      refine ⟨{ map with
        entries := Function.update map.entries p { key, classIdx := classByte c } }, ?_, ?_⟩
      · unfold BufSizeMap.insertSlot
        rw [hsearch, classByte_ofInt]
        simp only [if_true, hentry]
      · refine ⟨h.ge, h.le, h.capacity, ⟨h.table.le, ⟨b, ?_⟩, ?_⟩, h.insert_entries ?_, ?_⟩
        · rw [hslots]
          exact hlaid.set hs _
        · rw [hslots]
          exact h.table.distinct.set hs _
        · intro key' u
          change Holds _ (slotsOf _) _ _ ↔ _
          rw [hslots]
          exact holds_set h.table.distinct hp hs _ key' u
        · rw [keys_insert, Finset.insert_eq_of_mem]
          · exact h.count
          · exact Finmap.mem_keys.mpr (Finmap.mem_of_lookup_eq_some hlookup)
  | none =>
      have habsent := h.not_mem_keys hlookup
      obtain ⟨j, hj, hsearch, htaken, hlast⟩ := search_absent h.capacity h.table.le habsent
      obtain ⟨p, hp, hempty⟩ := h.exists_empty hlt
      have hjlt : j < 2 ^ k := by
        refine lt_of_le_of_ne hj ?_
        rintro rfl
        obtain ⟨y, hy, rfl⟩ := exists_cell (homeOf (2 ^ k) key) hp
        have hsome := htaken y hy
        rw [hempty] at hsome
        cases hsome
      obtain ⟨ht, he⟩ := h.table.place hkey (classByte c) habsent hjlt (hlast hjlt) htaken
      refine ⟨{ map with
        entries := Function.update map.entries (cell (2 ^ k) (homeOf (2 ^ k) key) j)
          { key, classIdx := classByte c }
        count := map.count + 1 }, ?_, ?_⟩
      · unfold BufSizeMap.insertSlot
        rw [hsearch, classByte_ofInt]
        simp only [Bool.false_eq_true, if_false]
        rw [if_neg (not_not.mpr (BufMapEntry.content_eq_none.mp (hlast hjlt)))]
      · refine ⟨h.ge, h.le, h.capacity, ht, h.insert_entries fun key' u => ?_, ?_⟩
        · rw [he]
          refine or_congr_right ⟨fun hold => ⟨?_, hold⟩, fun hold => hold.2⟩
          rintro rfl
          exact habsent u hold
        · rw [keys_insert, Finset.card_insert_of_notMem]
          · exact congrArg (· + 1) h.count
          · rw [Finmap.mem_keys, ← Finmap.lookup_eq_none]
            exact hlookup

/-- **Growth** doubles the capacity and keeps the entries. -/
theorem Refines.grow (h : map.Refines k m) (hk : k < 20) :
    ∃ map', map.grow true = some (0, map') ∧ map'.Refines (k + 1) m ∧ map'.count = map.count := by
  have hge := h.ge
  obtain ⟨new, hnew, ht, he⟩ :=
    bufMapRehash_spec h.table.distinct (by omega) (le_refl (2 ^ k))
  have hcap : map.capacity * 2 = 2 ^ (k + 1) := by rw [h.capacity, Nat.pow_succ]
  have hle : 2 ^ (k + 1) ≤ BUF_MAP_MAX_CAPACITY := Nat.pow_le_pow_right (by decide) hk
  refine ⟨{ map with entries := new, capacity := 2 ^ (k + 1) }, ?_, ?_, rfl⟩
  · unfold BufSizeMap.grow
    simp only [h.capacity, ← Nat.pow_succ, hnew]
    rw [if_neg (not_lt.mpr hle)]
    rfl
  · refine ⟨by omega, hk, rfl, ht, fun key u => ?_, h.count⟩
    rw [he]
    exact h.entries key u

/-- An insertion does what the reference says. -/
theorem Refines.insert (h : map.Refines k m) (ptr : UInt64) (c : Fin BUFFER_SIZE_CLASSES)
    (calloc : Bool) :
    ∃ r map' k' m', map.insert calloc ptr c = some (r, map') ∧ map'.Refines k' m' ∧
      m.Step (.insert ptr c calloc, r) m' := by
  unfold BufSizeMap.insert
  by_cases hptr : ptr = 0
  · exact ⟨-1, map, k, m, if_pos hptr, h, .inr ⟨.inl hptr, rfl, rfl⟩⟩
  rw [if_neg hptr]
  have hsucceeds {map₁ : BufSizeMap} {k₁ : ℕ} (h₁ : map₁.Refines k₁ m) (hlt : map₁.count < 2 ^ k₁) :
      ∃ r map' k' m', some (map₁.insertSlot ptr c) = some (r, map') ∧ map'.Refines k' m' ∧
        m.Step (.insert ptr c calloc, r) m' := by
    obtain ⟨map', heq, h'⟩ := h₁.insertSlot hlt hptr c
    exact ⟨0, map', k₁, m.insert ptr c, congrArg some heq, h', .inl ⟨hptr, rfl, rfl⟩⟩
  have hcap := h.capacity
  have hpos : 0 < 2 ^ k := Nat.two_pow_pos k
  split_ifs with hload hmax hfull
  · refine ⟨-1, map, k, m, rfl, h, .inr ⟨.inr (.inr ?_), rfl, rfl⟩⟩
    rw [← h.count]
    exact hmax.trans hfull
  · exact hsucceeds h (hcap ▸ not_le.mp hfull)
  · have hk : k < 20 := by
      rw [hcap] at hmax
      exact (Nat.pow_lt_pow_iff_right (by decide)).mp (not_le.mp hmax)
    cases calloc with
    | false =>
        have hfail : map.grow false = some (-1, map) := by
          unfold BufSizeMap.grow
          simp only [Bool.not_false, if_true, ite_self]
        rw [hfail]
        exact ⟨-1, map, k, m, rfl, h, .inr ⟨.inr (.inl rfl), rfl, rfl⟩⟩
    | true =>
        obtain ⟨map₁, hgrow, h₁, hcount⟩ := h.grow hk
        rw [hgrow]
        refine hsucceeds h₁ ?_
        have hle := h.count_le
        rw [hcount, Nat.pow_succ]
        omega
  · refine hsucceeds h ?_
    simp only [BUF_MAP_LOAD_FACTOR_DEN, BUF_MAP_LOAD_FACTOR_NUM] at hload
    omega

/-- **A removal** returns the class of its key and deletes the key. -/
theorem Refines.remove (h : map.Refines k m) (ptr : UInt64) :
    ∃ r map' m', map.remove ptr = (r, map') ∧ map'.Refines k m' ∧ m.Step (.remove ptr, r) m' := by
  have hpos : 0 < 2 ^ k := Nat.two_pow_pos k
  cases hlookup : m.lookup ptr with
  | none =>
      obtain ⟨j, -, hsearch, -⟩ :=
        search_absent h.capacity h.table.le (h.not_mem_keys hlookup)
      refine ⟨-1, map, m, ?_, h, by rw [hlookup]; rfl, ?_⟩
      · unfold BufSizeMap.remove
        rw [hsearch]
        rfl
      · refine Finmap.ext_lookup fun key => ?_
        by_cases hkey : key = ptr
        · rw [hkey, hlookup, Finmap.lookup_erase]
        · rw [Finmap.lookup_erase_ne hkey]
  | some c =>
      obtain ⟨p, hp, hsearch, hs⟩ :=
        search_found h.capacity h.table ((h.entries ptr (classByte c)).mpr ⟨c, hlookup, rfl⟩)
      obtain ⟨b, hlaid⟩ := h.table.laid
      obtain ⟨y, hy, rfl⟩ := exists_cell b hp
      have hentry := (BufMapEntry.content_eq_some.mp hs).2
      obtain ⟨entries, η, hη, hshift, hlaid', hdist', hholds⟩ :=
        shift_spec h.table.le (hlaid.carried hy (by rw [hs]; rfl)) (h.table.distinct.clear _)
          (le_refl y) rfl
      have hslots : slotsOf (Function.update entries (cell (2 ^ k) b η)
          { entries (cell (2 ^ k) b η) with key := 0 }) =
          Function.update (slotsOf entries) (cell (2 ^ k) b η) none :=
        (slotsOf_update _ _ _).trans (congrArg _ (BufMapEntry.content_eq_none.mpr rfl))
      refine ⟨c, { map with
        entries := Function.update entries (cell (2 ^ k) b η)
          { entries (cell (2 ^ k) b η) with key := 0 }
        count := map.count - 1 }, m.erase ptr, ?_, ?_, by rw [hlookup]; rfl, rfl⟩
      · unfold BufSizeMap.remove
        rw [hsearch]
        simp only [if_true, h.capacity, next_cell, hshift, hentry, classByte_toNat]
      · refine ⟨h.ge, h.le, h.capacity, ⟨h.table.le, ⟨b, hslots ▸ hlaid'⟩, hslots ▸ hdist'⟩,
          fun key u => ?_, ?_⟩
        · change Holds _ (slotsOf _) _ _ ↔ _
          rw [hslots, hholds, holds_clear h.table.distinct hp hs]
          by_cases hkey : key = ptr
          · rw [hkey, Finmap.lookup_erase]
            simp
          · rw [Finmap.lookup_erase_ne hkey]
            refine ⟨fun hold => (h.entries key u).mp hold.2, fun hold => ⟨hkey, ?_⟩⟩
            exact (h.entries key u).mpr hold
        · rw [Finmap.keys_erase, Finset.card_erase_of_mem]
          · exact congrArg (· - 1) h.count
          · exact Finmap.mem_keys.mpr (Finmap.mem_of_lookup_eq_some hlookup)

/-- **Every operation terminates and does what the reference says.** -/
theorem Refines.apply (h : map.Refines k m) (op : SizeMapOp) :
    ∃ r map' k' m', map.apply op = some (r, map') ∧ map'.Refines k' m' ∧ m.Step (op, r) m' := by
  cases op with
  | insert ptr c calloc => exact h.insert ptr c calloc
  | remove ptr =>
      obtain ⟨r, map', m', heq, h', hstep⟩ := h.remove ptr
      exact ⟨r, map', k, m', congrArg some heq, h', hstep⟩

end BufSizeMap

/-! ## The result -/

/-- The entries of a map, whatever its layout. -/
def BufSizeMap.Contains (map : BufSizeMap) (key : UInt64) (c : ℕ) : Prop :=
  key ≠ 0 ∧ ∃ p, p < map.capacity ∧ (map.entries p).key = key ∧ (map.entries p).classIdx.toNat = c

theorem BufSizeMap.Refines.contains_iff {map : BufSizeMap} {m : SizeMap} {k : ℕ}
    (h : map.Refines k m) (key : UInt64) (c : ℕ) :
    map.Contains key c ↔ ∃ c' : Fin BUFFER_SIZE_CLASSES, m.lookup key = some c' ∧ c = c' := by
  unfold BufSizeMap.Contains
  rw [h.capacity]
  constructor
  · rintro ⟨hkey, p, hp, rfl, rfl⟩
    obtain ⟨c', hc', hbyte⟩ := (h.entries _ _).mp
      ⟨p, hp, BufMapEntry.content_eq_some.mpr ⟨hkey, rfl⟩⟩
    exact ⟨c', hc', by rw [hbyte, classByte_toNat]⟩
  · rintro ⟨c', hc', rfl⟩
    obtain ⟨p, hp, hs⟩ := (h.entries key (classByte c')).mpr ⟨c', hc', rfl⟩
    obtain ⟨hkey, heq⟩ := BufMapEntry.content_eq_some.mp hs
    exact ⟨hkey, p, hp, by rw [heq], by rw [heq, classByte_toNat]⟩

/-- A run of the map is one of the reference. -/
theorem sizeMap_run {map : BufSizeMap} {ls : List (SizeMapOp × ℤ)}
    (hrun : Run sizeMapSystem bufSizeMapInit ls map) :
    ∃ k m, map.Refines k m ∧ Run referenceSystem ∅ ls m := by
  induction hrun with
  | nil => exact ⟨10, ∅, BufSizeMap.refines_init, Run.nil _⟩
  | @snoc map map' ls l _ hstep ih =>
      obtain ⟨k, m, h, hrun⟩ := ih
      obtain ⟨op, r⟩ := l
      obtain ⟨r', map₁, k', m', heq, h', hm⟩ := h.apply op
      obtain ⟨rfl, rfl⟩ := Prod.mk.inj (Option.some.inj (hstep.symm.trans heq))
      exact ⟨k', m', h', hrun.snoc hm⟩

/-- **The buffer size map is a finite map.** After any sequence of operations, with any results of
the allocations, it holds the entries of a reference map that went through the same operations with
the same results, and counts them; and every further operation terminates. -/
theorem sizeMap_refines {map : BufSizeMap} {ls : List (SizeMapOp × ℤ)}
    (hrun : Run sizeMapSystem bufSizeMapInit ls map) :
    (∃ m, Run referenceSystem ∅ ls m ∧
      (∀ (key : UInt64) (c : ℕ), map.Contains key c ↔
        ∃ c' : Fin BUFFER_SIZE_CLASSES, m.lookup key = some c' ∧ c = c') ∧
      map.count = m.keys.card) ∧
    ∀ op, ∃ r map', map.apply op = some (r, map') := by
  obtain ⟨k, m, h, hm⟩ := sizeMap_run hrun
  refine ⟨⟨m, hm, h.contains_iff, h.count⟩, fun op => ?_⟩
  obtain ⟨r, map', -, -, heq, -⟩ := h.apply op
  exact ⟨r, map', heq⟩

/-- A map with one key. -/
def oneKeyMap : BufSizeMap := (bufSizeMapInit.insertSlot 4096 3).2

theorem oneKeyMap_run : Run sizeMapSystem bufSizeMapInit
    [(SizeMapOp.insert 4096 3 true, 0), (SizeMapOp.remove 4096, 3)] (oneKeyMap.remove 4096).2 := by
  have hinsert : sizeMapSystem.step bufSizeMapInit (SizeMapOp.insert 4096 3 true, 0)
      oneKeyMap := rfl
  have hremove : sizeMapSystem.step oneKeyMap (SizeMapOp.remove 4096, 3)
      (oneKeyMap.remove 4096).2 := rfl
  exact (Run.single hinsert).snoc hremove

/-- Inserting a key and removing it again. -/
theorem sizeMap_refines_one_key :
    ∃ m, Run referenceSystem ∅ [(SizeMapOp.insert 4096 3 true, 0), (SizeMapOp.remove 4096, 3)] m ∧
      (∀ (key : UInt64) (c : ℕ), (oneKeyMap.remove 4096).2.Contains key c ↔
        ∃ c' : Fin BUFFER_SIZE_CLASSES, m.lookup key = some c' ∧ c = c') ∧
      (oneKeyMap.remove 4096).2.count = m.keys.card :=
  (sizeMap_refines oneKeyMap_run).1

end Aura
