import Mathlib.Data.List.GetD
import Mathlib.Data.UInt
import Aura.Lib.Probing
import Aura.Tree.Print

/-!
# The display caches of atree

The two tables of names have 128 entries and drop nothing: once they are full, an owner that is not
among them is shown by number, also when it has a name. The date cache has one entry and keeps 11
bytes of the text, which is the terminator of ten characters.

* `firstIds` — the ids whose names a table has, and `Remembers`: the table is laid out as a table
  with linear probing that has them.
* `DateKept` — what the date cache has of the last date.
* **`texts_transparent_iff`** — the condition under which a node is shown as it is with empty
  caches, after any sequence of nodes.
-/

namespace Aura

open Lib Lib.Probing

/-! ## The tables of names -/

section Names

variable {name : UInt32 → Option (List UInt8)} {cache : IdCache} {id : UInt32} {ids : List UInt32}

/-- The first slot of an id. -/
def idHome (id : UInt32) : ℕ := id.toNat % 128

theorem idHome_lt (id : UInt32) : idHome id < 128 := Nat.mod_lt _ (by decide)

/-- The slot of probe `j`. -/
theorem probe_eq (id : UInt32) {j : ℕ} (hj : j < 128) :
    ((id &&& (UInt32.ofNat ID_CACHE_SIZE - 1)) + UInt32.ofNat j &&&
      (UInt32.ofNat ID_CACHE_SIZE - 1)).toNat = cell 128 (idHome id) j := by
  have hmask : ∀ x : UInt32, (x &&& (UInt32.ofNat ID_CACHE_SIZE - 1)).toNat = x.toNat % 128 := by
    intro x
    rw [UInt32.toNat_and]
    exact Nat.and_two_pow_sub_one_eq_mod x.toNat 7
  have hsum : ((id &&& (UInt32.ofNat ID_CACHE_SIZE - 1)) + UInt32.ofNat j).toNat =
      idHome id + j := by
    have hlt := idHome_lt id
    rw [UInt32.toNat_add, hmask, UInt32.toNat_ofNat_of_lt' (by change j < 2 ^ 32; omega)]
    exact Nat.mod_eq_of_lt (by change idHome id + j < 2 ^ 32; omega)
  rw [hmask, hsum]
  rfl

/-- One probe. -/
theorem idCacheLoop_succ (left : ℕ) {j : ℕ} (hj : j < 128) :
    idCacheLoop name cache id (left + 1) (UInt32.ofNat j) =
      match cache (cell 128 (idHome id) j) with
      | none => (idName name id,
          Function.update cache (cell 128 (idHome id) j) (some (id, idName name id)))
      | some (id', text) =>
        if id' = id then (text, cache)
        else idCacheLoop name cache id left (UInt32.ofNat (j + 1)) := by
  have hnext : UInt32.ofNat j + 1 = UInt32.ofNat (j + 1) := (UInt32.ofNat_add j 1).symm
  rw [← hnext, ← probe_eq id hj]
  rfl

/-- Slots that belong to other ids are passed. -/
theorem idCacheLookup_skip {d : ℕ} (hd : d ≤ 128)
    (hother : ∀ j, j < d → ∃ k v, cache (cell 128 (idHome id) j) = some (k, v) ∧ k ≠ id) :
    idCacheLookup name cache id = idCacheLoop name cache id (128 - d) (UInt32.ofNat d) := by
  induction d with
  | zero => rfl
  | succ d ih =>
      obtain ⟨k, v, hcache, hne⟩ := hother d (Nat.lt_succ_self d)
      rw [ih (by omega) fun j hj => hother j (Nat.lt_succ_of_lt hj),
        show 128 - d = 128 - (d + 1) + 1 by omega, idCacheLoop_succ _ (by omega), hcache]
      exact if_neg hne

/-- The table has the names of `ids`, each id where linear probing finds it. -/
structure Remembers (name : UInt32 → Option (List UInt8)) (cache : IdCache) (ids : List UInt32) :
    Prop where
  laid : ∃ b, Laid 128 idHome cache b
  distinct : Distinct 128 cache
  holds : ∀ k v, Holds 128 cache k v ↔ k ∈ ids ∧ v = idName name k
  nodup : ids.Nodup
  length_le : ids.length ≤ 128

/-- An empty table. -/
theorem Remembers.empty : Remembers name (fun _ => none) [] where
  laid := ⟨0, fun _ _ _ _ h => by cases h⟩
  distinct := fun _ _ _ _ _ _ _ h _ => by cases h
  holds := fun k v => by
    constructor
    · rintro ⟨p, -, h⟩
      cases h
    · rintro ⟨h, -⟩
      exact absurd h List.not_mem_nil
  nodup := List.nodup_nil
  length_le := Nat.zero_le 128

/-- The ids a table has after a lookup. -/
def remember (ids : List UInt32) (id : UInt32) : List UInt32 :=
  if id ∈ ids then ids else if ids.length < 128 then ids ++ [id] else ids

namespace Remembers

/-- An id that is there is found. -/
theorem lookup_mem (h : Remembers name cache ids) (hid : id ∈ ids) :
    idCacheLookup name cache id = (idName name id, cache) := by
  obtain ⟨b, hlaid⟩ := h.laid
  obtain ⟨p, hp, hcache⟩ := (h.holds id _).2 ⟨hid, rfl⟩
  obtain ⟨d, hd, hcell, htaken⟩ := hlaid.path hp hcache
  rw [← hcell] at hcache
  rw [idCacheLookup_skip hd.le fun j hj => ?_, show 128 - d = 128 - (d + 1) + 1 by omega,
    idCacheLoop_succ _ hd, hcache]
  · exact if_pos rfl
  · obtain ⟨⟨k, v⟩, hkv⟩ := Option.isSome_iff_exists.1 (htaken j hj)
    refine ⟨k, v, hkv, ?_⟩
    rintro rfl
    -- Two slots on one path are different.
    have hsame :=
      h.distinct _ _ (cell_lt (by decide) _ _) (cell_lt (by decide) _ _) _ _ _ hkv hcache
    exact absurd (cell_inj (hj.trans hd) hd hsame) (Nat.ne_of_lt hj)

/-- An id that is not there passes all slots that are taken. -/
theorem other_of_notMem (h : Remembers name cache ids) (hid : id ∉ ids) {p : ℕ} (hp : p < 128)
    (htaken : (cache p).isSome) : ∃ k v, cache p = some (k, v) ∧ k ≠ id := by
  obtain ⟨⟨k, v⟩, hkv⟩ := Option.isSome_iff_exists.1 htaken
  refine ⟨k, v, hkv, ?_⟩
  rintro rfl
  exact hid ((h.holds k v).1 ⟨p, hp, hkv⟩).1

/-- There is an empty slot as long as there are fewer ids. -/
theorem exists_empty (h : Remembers name cache ids) (hlt : ids.length < 128) :
    ∃ p, p < 128 ∧ cache p = none := by
  have hks : ∀ k v, Holds 128 cache k v → k ∈ ids.toFinset := fun k v hkv =>
    List.mem_toFinset.2 ((h.holds k v).1 hkv).1
  refine h.distinct.exists_empty hks ?_
  exact lt_of_le_of_lt (List.toFinset_card_le ids) hlt

/-- There is none when there are as many ids. -/
theorem taken_of_full (h : Remembers name cache ids) (hfull : ids.length = 128) {p : ℕ}
    (hp : p < 128) : (cache p).isSome := by
  rw [Option.isSome_iff_ne_none]
  intro hnone
  have hslot : ∀ k ∈ ids, ∃ q, (q < 128 ∧ q ≠ p) ∧ cache q = some (k, idName name k) := by
    intro k hk
    obtain ⟨q, hq, hcache⟩ := (h.holds k _).2 ⟨hk, rfl⟩
    refine ⟨q, ⟨hq, ?_⟩, hcache⟩
    rintro rfl
    rw [hnone] at hcache
    cases hcache
  choose! slot hslot using hslot
  have hcard : ids.toFinset.card ≤ ((Finset.range 128).erase p).card := by
    refine Finset.card_le_card_of_injOn slot (fun k hk => ?_) fun k hk k' hk' heq => ?_
    · obtain ⟨⟨hlt, hne⟩, -⟩ := hslot k (List.mem_toFinset.1 hk)
      exact Finset.mem_erase.2 ⟨hne, Finset.mem_range.2 hlt⟩
    · have h₁ := (hslot k (List.mem_toFinset.1 hk)).2
      rw [heq, (hslot k' (List.mem_toFinset.1 hk')).2] at h₁
      exact (Prod.mk.inj (Option.some.inj h₁)).1.symm
  rw [List.toFinset_card_of_nodup h.nodup, hfull,
    Finset.card_erase_of_mem (Finset.mem_range.2 hp), Finset.card_range] at hcard
  omega

/-- An id that is not there is put into the table, if there is room. -/
theorem lookup_new (h : Remembers name cache ids) (hid : id ∉ ids) (hlt : ids.length < 128) :
    (idCacheLookup name cache id).1 = idName name id ∧
      Remembers name (idCacheLookup name cache id).2 (ids ++ [id]) := by
  obtain ⟨b, hlaid⟩ := h.laid
  obtain ⟨p, hp, hnone⟩ := h.exists_empty hlt
  obtain ⟨y, hy, rfl⟩ := exists_cell (idHome id) hp
  -- The first empty slot on the path.
  have hex : ∃ d, d < 128 ∧ cache (cell 128 (idHome id) d) = none := ⟨y, hy, hnone⟩
  classical
  obtain ⟨hd, hempty⟩ := Nat.find_spec hex
  have htaken : ∀ j, j < Nat.find hex → (cache (cell 128 (idHome id) j)).isSome := by
    intro j hj
    rw [Option.isSome_iff_ne_none]
    exact fun hnone => Nat.find_min hex hj ⟨hj.trans hd, hnone⟩
  generalize Nat.find hex = d at hd hempty htaken
  have hlookup : idCacheLookup name cache id = (idName name id,
      Function.update cache (cell 128 (idHome id) d) (some (id, idName name id))) := by
    rw [idCacheLookup_skip hd.le fun j hj => ?_, show 128 - d = 128 - (d + 1) + 1 by omega,
      idCacheLoop_succ _ hd, hempty]
    exact h.other_of_notMem hid (cell_lt (by decide) _ _) (htaken j hj)
  rw [hlookup]
  refine ⟨rfl, ⟨_, hlaid.place idHome_lt _ hd hempty htaken⟩, ?_, fun k v => ?_, ?_, ?_⟩
  · exact h.distinct.place _ fun w hw => hid ((h.holds id w).1 hw).1
  · rw [holds_place (cell_lt (by decide) _ _) hempty, h.holds, List.mem_append, List.mem_singleton]
    constructor
    · rintro (⟨rfl, rfl⟩ | ⟨hk, rfl⟩)
      · exact ⟨.inr rfl, rfl⟩
      · exact ⟨.inl hk, rfl⟩
    · rintro ⟨hk | rfl, rfl⟩
      · exact .inr ⟨hk, rfl⟩
      · exact .inl ⟨rfl, rfl⟩
  · rw [List.nodup_append]
    refine ⟨h.nodup, List.nodup_singleton id, fun a ha b hb => ?_⟩
    rw [List.mem_singleton] at hb
    rintro rfl
    exact hid (hb ▸ ha)
  · rw [List.length_append, List.length_singleton]
    exact hlt

/-- A full table shows the number of an id that is not there. -/
theorem lookup_full (h : Remembers name cache ids) (hid : id ∉ ids) (hfull : ids.length = 128) :
    idCacheLookup name cache id = (idFallback id, cache) := by
  rw [idCacheLookup_skip (le_refl 128) fun j hj => ?_]
  · rfl
  · have hp := cell_lt (n := 128) (by decide) (idHome id) j
    exact h.other_of_notMem hid hp (h.taken_of_full hfull hp)

/-- **What a lookup does**: the name, unless the table is full of others. -/
theorem lookup (h : Remembers name cache ids) (id : UInt32) :
    (idCacheLookup name cache id).1 =
        (if id ∈ ids ∨ ids.length < 128 then idName name id else idFallback id) ∧
      Remembers name (idCacheLookup name cache id).2 (remember ids id) := by
  unfold remember
  by_cases hid : id ∈ ids
  · rw [h.lookup_mem hid, if_pos hid, if_pos (.inl hid)]
    exact ⟨rfl, h⟩
  · by_cases hlt : ids.length < 128
    · rw [if_neg hid, if_pos hlt, if_pos (.inr hlt)]
      exact h.lookup_new hid hlt
    · have hfull : ids.length = 128 := Nat.le_antisymm h.length_le (Nat.le_of_not_lt hlt)
      rw [h.lookup_full hid hfull, if_neg hid, if_neg hlt, if_neg (by tauto)]
      exact ⟨rfl, h⟩

end Remembers

/-- The first ids of a sequence, as many as a table takes. -/
def firstIds (ids : List UInt32) : List UInt32 := ids.eraseDups.take 128

theorem mem_eraseDups {ids : List UInt32} {id : UInt32} : id ∈ ids.eraseDups ↔ id ∈ ids := by
  simp

theorem firstIds_snoc (ids : List UInt32) (id : UInt32) :
    firstIds (ids ++ [id]) = remember (firstIds ids) id := by
  have happend : (ids ++ [id]).eraseDups = ids.eraseDups ++ if id ∈ ids then [] else [id] := by
    rw [List.eraseDups_append]
    by_cases hid : id ∈ ids
    · simp [List.removeAll, hid]
    · simp [List.removeAll, hid, List.eraseDups_cons]
  unfold firstIds remember
  rw [happend]
  by_cases hid : id ∈ ids
  · rw [if_pos hid, List.append_nil]
    split_ifs with hmem hlt
    · rfl
    · -- An id that came too late for a full table.
      rw [List.length_take] at hlt
      rw [List.take_of_length_le (by omega), mem_eraseDups] at hmem
      exact absurd hid hmem
    · rfl
  · have hnot : id ∉ ids.eraseDups.take 128 := by
      intro h
      exact hid (mem_eraseDups.1 (List.mem_of_mem_take h))
    rw [if_neg hid, if_neg hnot, List.length_take, List.take_append]
    by_cases hlt : ids.eraseDups.length < 128
    · have hroom : [id].length ≤ 128 - ids.eraseDups.length := by
        rw [List.length_singleton]
        omega
      rw [if_pos (by omega), List.take_of_length_le hlt.le, List.take_of_length_le hroom]
    · rw [if_neg (by omega), Nat.sub_eq_zero_of_le (Nat.le_of_not_lt hlt), List.take_zero,
        List.append_nil]

end Names

/-! ## The date -/

section Dates

/-- An offset in a row of lengths lies below the end of its part. -/
theorem sum_take_add_lt {l : List ℕ} {m d : ℕ} (hd : d < l.getD m 0) :
    (l.take m).sum + d < (l.take (m + 1)).sum := by
  have hm : m < l.length := by
    by_contra hle
    rw [List.getD_eq_default _ _ (Nat.le_of_not_lt hle)] at hd
    exact absurd hd (Nat.not_lt_zero d)
  rw [List.getD_eq_getElem _ _ hm] at hd
  rw [List.sum_take_succ l m hm]
  exact Nat.add_lt_add_left hd _

theorem sum_take_le (l : List ℕ) {m n : ℕ} (h : m ≤ n) : (l.take m).sum ≤ (l.take n).sum := by
  obtain ⟨k, rfl⟩ := Nat.exists_eq_add_of_le h
  rw [List.take_add, List.sum_append]
  exact Nat.le_add_right _ _

/-- An offset lies in one part of a row only. -/
theorem part_unique {l : List ℕ} {m n d e : ℕ} (hd : d < l.getD m 0) (he : e < l.getD n 0)
    (heq : (l.take m).sum + d = (l.take n).sum + e) : m = n ∧ d = e := by
  have hm := sum_take_add_lt hd
  have hn := sum_take_add_lt he
  rcases Nat.lt_trichotomy m n with hlt | rfl | hlt
  · have : (l.take (m + 1)).sum ≤ (l.take n).sum := sum_take_le l hlt
    omega
  · exact ⟨rfl, Nat.add_left_cancel heq⟩
  · have : (l.take (n + 1)).sum ≤ (l.take m).sum := sum_take_le l hlt
    omega

/-- The characters of a negative number. -/
theorem toList_negSucc (n : ℕ) :
    (toString (Int.negSucc n)).toList = '-' :: Nat.toDigits 10 (n + 1) := by
  change ("-" ++ Nat.repr (n + 1)).toList = _
  rw [String.toList_append, Nat.toList_repr]
  rfl

namespace Tm

variable {tm tm' : Tm}

theorem mday_lt (tm : Tm) :
    tm.tmMday - 1 < (monthDays (isLeap (1900 + tm.tmYear))).getD tm.tmMon 0 := by
  have := tm.mday_pos
  have := tm.mday_le
  omega

theorem mon_lt (tm : Tm) : tm.tmMon < 12 := by
  by_contra hle
  have hlt := tm.mday_lt
  rw [List.getD_eq_default _ _ (Nat.le_of_not_lt hle)] at hlt
  exact absurd hlt (Nat.not_lt_zero _)

theorem yday_lt (tm : Tm) : tm.tmYday < 366 := by
  have hlt := sum_take_add_lt tm.mday_lt
  have hle := sum_take_le (monthDays (isLeap (1900 + tm.tmYear))) (Nat.succ_le_of_lt tm.mon_lt)
  have hall : ∀ leap, ((monthDays leap).take 12).sum ≤ 366 := by decide
  rw [tm.yday_eq]
  exact (hlt.trans_le hle).trans_le (hall _)

/-- **The key of the cache tells dates apart.** -/
theorem isoDate_eq_of_localDay (h : tm.localDay = tm'.localDay) : tm.isoDate = tm'.isoDate := by
  unfold localDay at h
  have hlt := tm.yday_lt
  have hlt' := tm'.yday_lt
  have hyear : tm.tmYear = tm'.tmYear := by omega
  have hyday : tm.tmYday = tm'.tmYday := by omega
  have heq := tm.yday_eq.symm.trans (hyday.trans tm'.yday_eq)
  have hmday := tm.mday_lt
  rw [hyear] at heq hmday
  obtain ⟨hmon, hday⟩ := part_unique hmday tm'.mday_lt heq
  have hmdays : tm.tmMday = tm'.tmMday := by
    have := tm.mday_pos
    have := tm'.mday_pos
    omega
  rw [isoDate, isoDate, hyear, hmon, hmdays]

/-- **How long a date is**: ten characters for the years from -999 to 9999, and 15 for those from
-99999999 to 999999999. -/
theorem length_isoDate_le_iff (tm : Tm) {k : ℕ} (hk : 0 < k) : tm.isoDate.length ≤ k + 7 ↔
    -(10 ^ k : ℕ) < 1900 + tm.tmYear ∧ 1900 + tm.tmYear < (10 ^ (k + 1) : ℕ) := by
  have hlen : tm.isoDate.length = (decimalText (1900 + tm.tmYear)).length + 6 := by
    simp [isoDate, twoDigits, bytes]
  rw [hlen, decimalText, bytes, List.length_map]
  have hpow := Nat.pow_pos (n := k) (show 0 < 10 by decide)
  generalize 1900 + tm.tmYear = year
  cases year with
  | ofNat n =>
      have hdigits : (toString (Int.ofNat n)).toList.length ≤ k + 1 ↔ n < 10 ^ (k + 1) := by
        rw [← Nat.length_toDigits_le_iff (by decide) k.succ_pos, ← Nat.toList_repr]
        rfl
      rw [Int.ofNat_eq_natCast] at hdigits ⊢
      omega
  | negSucc n =>
      have hdigits : (Nat.toDigits 10 (n + 1)).length ≤ k ↔ n + 1 < 10 ^ k :=
        Nat.length_toDigits_le_iff (by decide) hk
      rw [toList_negSucc, List.length_cons]
      omega

end Tm

/-- Bytes of a literal without the terminator in it. -/
theorem ne_zero_of_mem_bytes {s : String} (hs : ∀ c ∈ s.toList, c.toNat.toUInt8 ≠ 0) {b : UInt8}
    (hb : b ∈ bytes s) : b ≠ 0 := by
  obtain ⟨c, hc, rfl⟩ := List.mem_map.1 hb
  exact hs c hc

theorem ne_zero_of_mem_decimalText {n : ℤ} {b : UInt8} (hb : b ∈ decimalText n) : b ≠ 0 := by
  have hdigit : ∀ c : Char, c.isDigit = true → c.toNat.toUInt8 ≠ 0 := by
    intro c hc h
    have hc' : 48 ≤ c.toNat ∧ c.toNat ≤ 57 := by
      rw [Char.isDigit, Bool.and_eq_true_iff, decide_eq_true_iff, decide_eq_true_iff] at hc
      exact hc
    have hval : c.toNat.toUInt8.toNat = 0 := by rw [h]; rfl
    rw [Nat.toUInt8_eq, UInt8.toNat_ofNat'] at hval
    omega
  refine ne_zero_of_mem_bytes (fun c hc => ?_) hb
  cases n with
  | ofNat n =>
      have hc' : c ∈ Nat.toDigits 10 n := Nat.toList_repr ▸ hc
      exact hdigit c (Nat.isDigit_of_mem_toDigits (by decide) (by decide) hc')
  | negSucc n =>
      rw [toList_negSucc, List.mem_cons] at hc
      rcases hc with rfl | hc
      · decide
      · exact hdigit c (Nat.isDigit_of_mem_toDigits (by decide) (by decide) hc)

theorem ne_zero_of_mem_twoDigits {n : ℕ} (hn : n < 100) {b : UInt8} (hb : b ∈ twoDigits n) :
    b ≠ 0 := by
  have hall : ∀ n < 100, ∀ b ∈ twoDigits n, b ≠ 0 := by decide +kernel
  exact hall n hn b hb

/-- A date has no terminator in it. -/
theorem Tm.ne_zero_of_mem_isoDate (tm : Tm) {b : UInt8} (hb : b ∈ tm.isoDate) : b ≠ 0 := by
  have hmon := tm.mon_lt
  have hmday : tm.tmMday ≤ 31 := by
    have hall : ∀ leap, ∀ m < 12, (monthDays leap).getD m 0 ≤ 31 := by decide
    exact tm.mday_le.trans (hall _ _ hmon)
  have hdash : b ∈ bytes "-" → b ≠ 0 := by
    intro (hb : b ∈ [45])
    rw [List.mem_singleton.1 hb]
    decide
  rw [isoDate, List.mem_append, List.mem_append, List.mem_append, List.mem_append] at hb
  rcases hb with (((hb | hb) | hb) | hb) | hb
  · exact ne_zero_of_mem_decimalText hb
  · exact hdash hb
  · exact ne_zero_of_mem_twoDigits (by omega) hb
  · exact hdash hb
  · exact ne_zero_of_mem_twoDigits (by omega) hb

/-! ### Buffers -/

variable {text : List UInt8} {rest : List (Option UInt8)}

/-- A text with its terminator is read back. -/
theorem textOf_terminated (h : ∀ b ∈ text, b ≠ 0) : textOf (text.map some ++ some 0 :: rest) =
    some text := by
  induction text with
  | nil => rfl
  | cons b text ih =>
      rw [List.forall_mem_cons] at h
      rw [List.map_cons, List.cons_append, textOf, if_neg h.1, ih h.2, Option.map_some]

/-- Without a terminator there is no text. -/
theorem textOf_indeterminate (h : ∀ b ∈ text, b ≠ 0) : textOf (text.map some ++ none :: rest) =
    none := by
  induction text with
  | nil => rfl
  | cons b text ih =>
      rw [List.forall_mem_cons] at h
      rw [List.map_cons, List.cons_append, textOf, if_neg h.1, ih h.2, Option.map_none]

variable {tm : Tm}

/-- What `strftime` leaves: the date, if it has at most 15 characters. -/
theorem textOf_strftime (tm : Tm) :
    textOf (strftime 16 tm) = if tm.isoDate.length ≤ 15 then some tm.isoDate else none := by
  unfold strftime
  by_cases hlen : tm.isoDate.length ≤ 15
  · rw [if_pos (by omega), if_pos hlen]
    exact textOf_terminated fun b hb => tm.ne_zero_of_mem_isoDate hb
  · rw [if_neg (by omega), if_neg hlen]
    rfl

/-- The first 11 bytes of what `strftime` leaves, in a fresh buffer: the date, if it has at most ten
characters. -/
theorem textOf_take_strftime (tm : Tm) :
    textOf ((strftime 16 tm).take 11 ++ List.replicate 5 none) =
      if tm.isoDate.length ≤ 10 then some tm.isoDate else none := by
  have hne : ∀ b ∈ tm.isoDate, b ≠ 0 := fun b hb => tm.ne_zero_of_mem_isoDate hb
  unfold strftime
  by_cases hfits : tm.isoDate.length + 1 ≤ 16
  · rw [if_pos hfits, writeText, List.take_append, List.length_map, List.append_assoc]
    by_cases hlen : tm.isoDate.length ≤ 10
    · have hpos : 11 - tm.isoDate.length = 11 - (tm.isoDate.length + 1) + 1 := by omega
      rw [if_pos hlen, List.take_of_length_le (by rw [List.length_map]; omega), hpos,
        List.take_succ_cons]
      exact textOf_terminated hne
    · rw [if_neg hlen, Nat.sub_eq_zero_of_le (by omega), ← List.map_take]
      exact textOf_indeterminate fun b hb => hne b (List.mem_of_mem_take hb)
  · rw [if_neg hfits, if_neg (by omega)]
    rfl

theorem length_strftime (tm : Tm) : (strftime 16 tm).length = 16 := by
  unfold strftime writeText
  split_ifs with hfits
  · simp
    omega
  · rw [List.length_replicate]

/-! ### The cache -/

/-- What the date cache has of the last date that was shown. -/
def DateKept (dc : DateCache) : Option Tm → Prop
  | none => dc.valid = false
  | some tm => dc.valid = true ∧ dc.cachedDay = tm.localDay ∧
      dc.cachedStr.take 11 = (strftime 16 tm).take 11

variable {env : DisplayEnv} {dc : DateCache} {last : Option Tm} {tvSec : Int64}

/-- The date is another one than the last that was shown. -/
def NewDay (last : Option Tm) (tm : Tm) : Prop := ∀ tm' ∈ last, tm'.localDay ≠ tm.localDay

/-- A time that cannot be converted. -/
theorem formatDate_none (h : env.localtime tvSec = none) :
    formatDate env 16 tvSec dc = (writeText 16 (bytes "----/--/--"), dc) := by
  rw [formatDate, h]

/-- A date that is new is formatted and kept. -/
theorem DateKept.formatDate_new (h : DateKept dc last) (htm : env.localtime tvSec = some tm)
    (hnew : NewDay last tm) : (formatDate env 16 tvSec dc).1 = strftime 16 tm ∧
      DateKept (formatDate env 16 tvSec dc).2 (some tm) := by
  have hmiss : (dc.valid && decide (dc.cachedDay = tm.localDay)) = false := by
    cases last with
    | none => rw [show dc.valid = false from h, Bool.false_and]
    | some tm' =>
        obtain ⟨-, hday, -⟩ := h
        rw [hday, decide_eq_false (hnew tm' rfl), Bool.and_false]
  have hlen : ((strftime 16 tm).take 11).length = 11 := by
    rw [List.length_take, length_strftime]
    rfl
  rw [formatDate, htm]
  dsimp only
  rw [hmiss, if_neg Bool.false_ne_true]
  exact ⟨rfl, rfl, rfl, List.take_left' hlen⟩

/-- A date that is the last one comes from the cache. -/
theorem DateKept.formatDate_same {tm' : Tm} (h : DateKept dc (some tm'))
    (htm : env.localtime tvSec = some tm) (hsame : tm'.localDay = tm.localDay) :
    (formatDate env 16 tvSec dc).1 = (strftime 16 tm).take 11 ++ List.replicate 5 none ∧
      DateKept (formatDate env 16 tvSec dc).2 (some tm) := by
  obtain ⟨hvalid, hday, hstr⟩ := h
  have hdate : strftime 16 tm' = strftime 16 tm := by
    rw [strftime, strftime, Tm.isoDate_eq_of_localDay hsame]
  have hhit : (dc.valid && decide (dc.cachedDay = tm.localDay)) = true := by
    rw [hvalid, decide_eq_true (hday.trans hsame), Bool.and_self]
  rw [hdate] at hstr
  rw [formatDate, htm]
  dsimp only
  rw [hhit, if_pos rfl, hstr]
  exact ⟨rfl, hvalid, hday.trans hsame, hstr⟩

/-- The last date after another time. -/
theorem DateKept.next (h : DateKept dc last) (tvSec : Int64) :
    DateKept (formatDate env 16 tvSec dc).2 ((env.localtime tvSec).or last) := by
  cases htm : env.localtime tvSec with
  | none =>
      rw [formatDate_none htm]
      exact h
  | some tm =>
      by_cases hnew : NewDay last tm
      · exact (h.formatDate_new htm hnew).2
      · unfold NewDay at hnew
        push Not at hnew
        obtain ⟨tm', rfl, hsame⟩ := hnew
        exact (h.formatDate_same htm hsame).2

end Dates

/-! ## Sequences of nodes -/

section Runs

variable (env : DisplayEnv) (config : DisplayConfig)

/-- The caches after some nodes. -/
def cachesAfter (earlier : List ListedNode) : DisplayCaches :=
  earlier.foldl (fun c node => (readCaches env config node c).2) {}

/-- The texts for a node after some others. -/
def textsAfter (earlier : List ListedNode) (node : ListedNode) : CachedTexts :=
  (readCaches env config node (cachesAfter env config earlier)).1

/-- The ids that were looked up: in the long format, those of the nodes that could be looked at. -/
def lookedUp (idOf : ListedNode → UInt32) (earlier : List ListedNode) : List UInt32 :=
  if config.longFormat then (earlier.filter fun node => decide (node.statErr = 0)).map idOf else []

/-- The last date that was shown. -/
def lastDate (earlier : List ListedNode) : Option Tm :=
  ((earlier.filter fun node => decide (node.statErr = 0) && !node.isDir).filterMap fun node =>
    env.localtime node.tvSec).getLast?

/-- The caches have what there is to have after some nodes. -/
structure CachesKnow (earlier : List ListedNode) (c : DisplayCaches) : Prop where
  uid : Remembers env.getpwuid c.uid (firstIds (lookedUp config ListedNode.stxUid earlier))
  gid : Remembers env.getgrgid c.gid (firstIds (lookedUp config ListedNode.stxGid earlier))
  date : DateKept c.date (lastDate env earlier)

variable {env config} {node : ListedNode} {earlier : List ListedNode} {c : DisplayCaches}

theorem readCaches_of_err (h : node.statErr ≠ 0) :
    readCaches env config node c = (⟨none, none⟩, c) := by
  rw [readCaches, if_pos h]

/-- The lookups for a node that could be looked at. -/
theorem readCaches_of_ok (h : node.statErr = 0) :
    readCaches env config node c =
      (⟨if config.longFormat then some ((idCacheLookup env.getpwuid c.uid node.stxUid).1,
            (idCacheLookup env.getgrgid c.gid node.stxGid).1) else none,
        if node.isDir then none else some (formatDate env 16 node.tvSec c.date).1⟩,
      ⟨if config.longFormat then (idCacheLookup env.getpwuid c.uid node.stxUid).2 else c.uid,
        if config.longFormat then (idCacheLookup env.getgrgid c.gid node.stxGid).2 else c.gid,
        if node.isDir then c.date else (formatDate env 16 node.tvSec c.date).2⟩) := by
  rw [readCaches, if_neg (not_not_intro h)]
  cases config.longFormat <;> cases node.isDir <;> rfl

theorem lookedUp_snoc (idOf : ListedNode → UInt32) :
    lookedUp config idOf (earlier ++ [node]) = lookedUp config idOf earlier ++
      if config.longFormat = true ∧ node.statErr = 0 then [idOf node] else [] := by
  unfold lookedUp
  cases config.longFormat with
  | false => simp
  | true =>
      rw [if_pos rfl, if_pos rfl, List.filter_append, List.map_append]
      by_cases h : node.statErr = 0 <;> simp [h]

theorem lastDate_snoc : lastDate env (earlier ++ [node]) =
    if node.statErr = 0 ∧ node.isDir = false then
      (env.localtime node.tvSec).or (lastDate env earlier)
    else lastDate env earlier := by
  unfold lastDate
  rw [List.filter_append, List.filterMap_append, List.getLast?_append]
  by_cases h : node.statErr = 0 ∧ node.isDir = false
  · cases htm : env.localtime node.tvSec <;> simp [h, htm]
  · rw [if_neg h, List.filter_cons_of_neg (by simpa using h)]
    rfl

/-- The table after the lookup of one more node, or after none. -/
theorem Remembers.snoc {name : UInt32 → Option (List UInt8)} {cache : IdCache}
    {idOf : ListedNode → UInt32}
    (h : Remembers name cache (firstIds (lookedUp config idOf earlier))) (hok : node.statErr = 0) :
    Remembers name (if config.longFormat then (idCacheLookup name cache (idOf node)).2 else cache)
      (firstIds (lookedUp config idOf (earlier ++ [node]))) := by
  rw [lookedUp_snoc]
  by_cases hlong : config.longFormat = true
  · rw [if_pos hlong, if_pos ⟨hlong, hok⟩, firstIds_snoc]
    exact (h.lookup (idOf node)).2
  · rw [if_neg hlong, if_neg fun h => hlong h.1, List.append_nil]
    exact h

/-- One more node. -/
theorem CachesKnow.snoc (h : CachesKnow env config earlier c) :
    CachesKnow env config (earlier ++ [node]) (readCaches env config node c).2 := by
  by_cases hok : node.statErr = 0
  · rw [readCaches_of_ok hok]
    refine ⟨h.uid.snoc hok, h.gid.snoc hok, ?_⟩
    change DateKept (if node.isDir = true then c.date else
      (formatDate env 16 node.tvSec c.date).2) _
    rw [lastDate_snoc]
    by_cases hdir : node.isDir = true
    · rw [if_pos hdir, if_neg fun h => Bool.false_ne_true (h.2.symm.trans hdir)]
      exact h.date
    · rw [if_neg hdir, if_pos ⟨hok, Bool.eq_false_of_not_eq_true hdir⟩]
      exact h.date.next node.tvSec
  · have hnone : ∀ idOf,
        lookedUp config idOf (earlier ++ [node]) = lookedUp config idOf earlier := by
      intro idOf
      rw [lookedUp_snoc, if_neg (fun h => hok h.2), List.append_nil]
    rw [readCaches_of_err hok]
    refine ⟨?_, ?_, ?_⟩
    · rw [hnone]
      exact h.uid
    · rw [hnone]
      exact h.gid
    · rw [lastDate_snoc, if_neg fun h => hok h.1]
      exact h.date

variable (env config) in
/-- **After any sequence of nodes** the caches have what there is to have. -/
theorem cachesKnow_cachesAfter (earlier : List ListedNode) :
    CachesKnow env config earlier (cachesAfter env config earlier) := by
  induction earlier using List.reverseRecOn with
  | nil =>
      have hnil : ∀ idOf, firstIds (lookedUp config idOf []) = [] := by
        intro idOf
        unfold lookedUp
        cases config.longFormat <;> rfl
      refine ⟨?_, ?_, rfl⟩
      · rw [hnil]
        exact Remembers.empty
      · rw [hnil]
        exact Remembers.empty
  | append_singleton earlier node ih =>
      rw [cachesAfter, List.foldl_append]
      exact ih.snoc

end Runs

/-! ## The sequences of `print_node` -/

section Printed

variable {env : DisplayEnv} {config : DisplayConfig} {cs : ColorScheme} {nodes : ℕ → ListedNode}

variable (cs) in
/-- The caches see the nodes in the order in which their lines are printed. -/
theorem caches_foldl_emitPlace (halloc : ∀ n, env.alloc n = true) (ps : List (RoseTree.Place ℕ))
    (hps : ∀ p ∈ ps, config.visible (nodes p.label) = true) :
    (ps.foldl (emitPlace env config cs nodes) {}).caches =
      cachesAfter env config (ps.map fun p => nodes p.label) := by
  induction ps using List.reverseRecOn with
  | nil => rfl
  | append_singleton ps p ih =>
      have hvisible := hps p (List.mem_append_right _ (List.mem_singleton_self p))
      rw [List.foldl_append, List.foldl_cons, List.foldl_nil, emitPlace,
        (emitNode_spec halloc (hidden_eq_false hvisible)).2.1,
        ih fun q hq => hps q (List.mem_append_left _ hq), List.map_append, cachesAfter, cachesAfter,
        List.foldl_append]
      rfl

/-- **A line of `print_node`** has the texts that come out of the caches after the nodes whose lines
are before it. -/
theorem printNode_line (halloc : ∀ n, env.alloc n = true) {t : RoseTree ℕ}
    (ht : t.Follows (entries nodes)) {last : Bool} {ps qs : List (RoseTree.Place ℕ)}
    {p : RoseTree.Place ℕ} (hps : printPlaces config nodes last t = ps ++ p :: qs) :
    ∃ e', PrintReturns env config cs nodes t.label last 0 {} e' ∧
      e'.out[ps.length]? = some (nodeLine env config cs (nodes p.label) (linePrefix p) p.isLast
        p.depth (textsAfter env config (ps.map fun q => nodes q.label) (nodes p.label))) := by
  have hvisible : ∀ q ∈ ps ++ p :: qs, config.visible (nodes q.label) = true := fun q hq =>
    visible_of_mem_printPlaces (hps ▸ hq)
  have hbefore : ∀ q ∈ ps, config.visible (nodes q.label) = true := fun q hq =>
    hvisible q (List.mem_append_left _ hq)
  have hp := hvisible p (List.mem_append_right _ List.mem_cons_self)
  have hcaches := caches_foldl_emitPlace cs halloc ps hbefore
  obtain ⟨lines, hout, hlines⟩ := out_foldl_emitPlace halloc ps hbefore {}
  obtain ⟨more, hmore, -⟩ := out_foldl_emitPlace halloc qs
    (fun q hq => hvisible q (List.mem_append_right _ (List.mem_cons_of_mem _ hq)))
    (emitPlace env config cs nodes (ps.foldl (emitPlace env config cs nodes) {}) p)
  refine ⟨_, printNode_emits halloc ht last {}, ?_⟩
  rw [hps, List.foldl_append, List.foldl_cons, hmore, emitPlace,
    (emitNode_spec halloc (hidden_eq_false hp)).1, hcaches, hout, hlines.length_eq,
    List.append_assoc]
  exact List.getElem?_append_right (le_refl _) |>.trans (by rw [Nat.sub_self]; rfl)

end Printed

/-! ## Transparency -/

/-- The same names, and the same date, which can be read. -/
structure SameTexts (a b : CachedTexts) : Prop where
  names : a.names = b.names
  date : a.date.map textOf = b.date.map textOf
  readable : ∀ d ∈ a.date, textOf d ≠ none

/-- The name of an id is shown: it is among the first ids that were looked up, or there is room for
it, or its name is its number. -/
def IdServed (name : UInt32 → Option (List UInt8)) (ids : List UInt32) (id : UInt32) : Prop :=
  (id ∈ firstIds ids ∨ (firstIds ids).length < 128) ∨ idName name id = idFallback id

/-- The date can be read: it has at most ten characters, or at most 15 and another day was shown
last. -/
def DateServed (env : DisplayEnv) (last : Option Tm) (tvSec : Int64) : Prop :=
  ∀ tm, env.localtime tvSec = some tm →
    tm.isoDate.length ≤ 10 ∨ tm.isoDate.length ≤ 15 ∧ NewDay last tm

/-- All that a node shows is served, after some other nodes. -/
def CachesServe (env : DisplayEnv) (config : DisplayConfig) (earlier : List ListedNode)
    (node : ListedNode) : Prop :=
  node.statErr = 0 →
    (config.longFormat = true →
      IdServed env.getpwuid (lookedUp config ListedNode.stxUid earlier) node.stxUid ∧
      IdServed env.getgrgid (lookedUp config ListedNode.stxGid earlier) node.stxGid) ∧
    (node.isDir = false → DateServed env (lastDate env earlier) node.tvSec)

section

variable {env : DisplayEnv} {config : DisplayConfig} {node : ListedNode}
variable {earlier : List ListedNode} {dc : DateCache} {last : Option Tm} {tvSec : Int64}

/-- The name that comes from a table is that from an empty one. -/
theorem Remembers.lookup_eq_iff {name : UInt32 → Option (List UInt8)} {cache : IdCache}
    {ids : List UInt32} (h : Remembers name cache (firstIds ids)) (id : UInt32) :
    (idCacheLookup name cache id).1 = (idCacheLookup name (fun _ => none) id).1 ↔
      IdServed name ids id := by
  have hempty : (idCacheLookup name (fun _ => none) id).1 = idName name id := by
    rw [(Remembers.empty.lookup id).1]
    exact if_pos (.inr (by decide))
  rw [(h.lookup id).1, hempty, IdServed]
  split_ifs with hserved
  · exact iff_of_true rfl (.inl hserved)
  · rw [or_iff_right hserved]
    exact eq_comm

/-- The date that comes from the cache is that from an empty one, and can be read. -/
theorem DateKept.date_eq_iff (h : DateKept dc last) :
    (textOf (formatDate env 16 tvSec dc).1 = textOf (formatDate env 16 tvSec {}).1 ∧
      textOf (formatDate env 16 tvSec dc).1 ≠ none) ↔ DateServed env last tvSec := by
  have hempty : DateKept {} none := rfl
  cases htm : env.localtime tvSec with
  | none =>
      rw [formatDate_none htm, formatDate_none htm]
      have hdashes : textOf (writeText 16 (bytes "----/--/--")) ≠ none := by decide
      refine iff_of_true ⟨rfl, hdashes⟩ fun tm h => ?_
      rw [htm] at h
      cases h
  | some tm =>
      have hserved : DateServed env last tvSec ↔
          tm.isoDate.length ≤ 10 ∨ tm.isoDate.length ≤ 15 ∧ NewDay last tm := by
        unfold DateServed
        rw [htm]
        exact ⟨fun hall => hall tm rfl, fun h tm' htm' => Option.some.inj htm' ▸ h⟩
      have hnone : NewDay none tm := fun tm' h => by cases h
      rw [hserved, (hempty.formatDate_new htm hnone).1, textOf_strftime]
      by_cases hnew : NewDay last tm
      · rw [(h.formatDate_new htm hnew).1, textOf_strftime]
        split_ifs with hlen
        · simp [hlen, hnew]
        · simp [hlen]
          omega
      · have hlast : ∃ tm', last = some tm' ∧ tm'.localDay = tm.localDay := by
          unfold NewDay at hnew
          push Not at hnew
          exact hnew
        obtain ⟨tm', rfl, hsame⟩ := hlast
        rw [(h.formatDate_same htm hsame).1, textOf_take_strftime]
        by_cases hlen : tm.isoDate.length ≤ 10
        · rw [if_pos hlen, if_pos (hlen.trans (by decide))]
          simp [hlen]
        · rw [if_neg hlen]
          simp [hlen, hnew]

/-- The texts are the same where all is served. -/
theorem sameTexts_iff : SameTexts (textsAfter env config earlier node)
    (textsAfter env config [] node) ↔ CachesServe env config earlier node := by
  have hknow := cachesKnow_cachesAfter env config earlier
  unfold textsAfter
  rw [show cachesAfter env config [] = {} from rfl]
  by_cases hok : node.statErr = 0
  · have hiff : CachesServe env config earlier node ↔ _ := forall_prop_of_true hok
    rw [hiff, readCaches_of_ok hok, readCaches_of_ok hok, ← hknow.uid.lookup_eq_iff,
      ← hknow.gid.lookup_eq_iff, ← hknow.date.date_eq_iff]
    constructor
    · rintro ⟨hnames, hdate, hreadable⟩
      refine ⟨fun hlong => ?_, fun hfile => ?_⟩
      · simp only [hlong, if_true, Option.some.injEq, Prod.mk.injEq] at hnames
        exact hnames
      · simp only [hfile, Bool.false_eq_true, if_false, Option.map_some, Option.some.injEq]
          at hdate hreadable
        exact ⟨hdate, hreadable _ rfl⟩
    · rintro ⟨hnames, hdate⟩
      refine ⟨?_, ?_, ?_⟩
      · by_cases hlong : config.longFormat = true
        · obtain ⟨huid, hgid⟩ := hnames hlong
          simp only [hlong, if_true, huid, hgid]
        · simp only [hlong, Bool.false_eq_true, if_false]
      · cases hdir : node.isDir with
        | true => simp
        | false => simp [(hdate hdir).1]
      · cases hdir : node.isDir with
        | true => simp
        | false => simpa using (hdate hdir).2
  · rw [readCaches_of_err hok, readCaches_of_err hok]
    exact iff_of_true ⟨rfl, rfl, fun d h => by cases h⟩ fun h => absurd h hok

/-- Texts that are the same make the same line. -/
theorem nodeLine_congr {a b : CachedTexts} (h : SameTexts a b) (cs : ColorScheme)
    (pre : List UInt8) (isLast : Bool) (depth : ℕ) :
    nodeLine env config cs node pre isLast depth a =
      nodeLine env config cs node pre isLast depth b := by
  have hstats : statsText env config node a = statsText env config node b := by
    obtain ⟨names, date⟩ := a
    obtain ⟨names', date'⟩ := b
    obtain ⟨rfl, hdate, hreadable⟩ := h
    cases date with
    | none =>
        have hnone : date' = none := by
          cases date' with
          | none => rfl
          | some d' => cases hdate
        rw [hnone]
    | some d =>
        cases date' with
        | none => cases hdate
        | some d' =>
            have htext : textOf d = textOf d' := Option.some.inj hdate
            obtain ⟨t, ht⟩ := Option.ne_none_iff_exists'.1 (hreadable d rfl)
            unfold statsText
            simp only [← htext, ht, Option.getD_some]
  rw [nodeLine, nodeLine, nodeText, nodeText, hstats]

variable (env config) in
/-- **The caches, seen from outside.** After any sequence of nodes, a node is shown with the owner,
the group and the date that it is shown with when the caches are empty if and only if its owner and
its group are among the first 128 that were looked up, or fewer were, or they are shown by number
anyway; and its date has at most ten characters, or at most 15 and another day was shown last. Its
line then does not depend on what was shown before. -/
theorem texts_transparent_iff (earlier : List ListedNode) (node : ListedNode) :
    (SameTexts (textsAfter env config earlier node) (textsAfter env config [] node) ↔
      CachesServe env config earlier node) ∧
    (CachesServe env config earlier node → ∀ cs pre isLast depth,
      nodeLine env config cs node pre isLast depth (textsAfter env config earlier node) =
        nodeLine env config cs node pre isLast depth (textsAfter env config [] node)) := by
  refine ⟨sameTexts_iff, fun hserve cs pre isLast depth => ?_⟩
  exact nodeLine_congr (sameTexts_iff.2 hserve) cs pre isLast depth

end

/-- A file of an owner. -/
def ownedFile (uid : UInt32) : ListedNode := { plainNode false [] "f" with stxUid := uid }

/-- A system in which one owner has a name. -/
def namedEnv : DisplayEnv :=
  { plainEnv with getpwuid := fun uid => if uid = 128 then some (bytes "carol") else none }

/-- After 128 other owners an owner is shown by number, whose name is shown first. -/
theorem late_owner_shown_by_number :
    ¬ ∀ earlier, SameTexts (textsAfter namedEnv { longFormat := true } earlier (ownedFile 128))
      (textsAfter namedEnv { longFormat := true } [] (ownedFile 128)) := by
  intro h
  have hserve := sameTexts_iff.1 (h ((List.range 128).map fun i => ownedFile (UInt32.ofNat i)))
  have hids : firstIds (lookedUp { longFormat := true } ListedNode.stxUid
      ((List.range 128).map fun i => ownedFile (UInt32.ofNat i))) =
      (List.range 128).map UInt32.ofNat := by decide +kernel
  obtain ⟨(hmem | hroom) | hname, -⟩ := (hserve rfl).1 rfl
  · rw [hids] at hmem
    exact absurd hmem (by decide +kernel)
  · rw [hids, List.length_map, List.length_range] at hroom
    exact absurd hroom (lt_irrefl 128)
  · exact absurd hname (by decide)

end Aura
