import Mathlib.Data.List.TakeWhile
import Mathlib.Data.UInt
import Mathlib.Algebra.Order.Ring.Nat

/-!
# Size texts

`parse_size` of `job_parser.c` leaves the number to `strtoull` and looks at the next character only.
A text is a C string without its terminator, one character for each byte.

* `SizeText` — the grammar: digits, and at most one unit letter.
* `parseSize_correct_iff` — `parse_size` follows the grammar except on the texts that it misreads.
-/

namespace Aura

/-- A C string. -/
abbrev Text := List Char

/-! ## Integers of the C library -/

/-- `isspace`. -/
def isspace (c : Char) : Bool := [' ', '\t', '\n', '\x0b', '\x0c', '\r'].contains c

/-- The number that some digits denote. -/
def decimal (digits : Text) : ℕ := digits.foldl (fun n c => 10 * n + (c.toNat - 48)) 0

/-- What `strtol` and `strtoull` tell apart: white space, a sign, digits, and the rest. -/
structure IntegerParts where
  space : Text
  sign : Text
  digits : Text
  rest : Text
deriving DecidableEq

namespace IntegerParts

/-- A sign at the head of a text, and what follows it. -/
def splitSign : Text → Text × Text
  | '-' :: t => (['-'], t)
  | '+' :: t => (['+'], t)
  | t => ([], t)

def ofText (s : Text) : IntegerParts :=
  let afterSpace := s.dropWhile isspace
  let afterSign := (splitSign afterSpace).2
  { space := s.takeWhile isspace
    sign := (splitSign afterSpace).1
    digits := afterSign.takeWhile Char.isDigit
    rest := afterSign.dropWhile Char.isDigit }

end IntegerParts

/-- What `strtoull` comes back with; `ERANGE` is the value of `errno`. -/
inductive StrtoullResult
  | noDigits
  | ERANGE
  | value (val : UInt64) (endp : Text)
deriving DecidableEq

/-- `strtoull(str, &endp, 10)`: a minus sign negates the value as an unsigned one. -/
def strtoull (str : Text) : StrtoullResult :=
  let p := IntegerParts.ofText str
  if p.digits = [] then .noDigits
  else if 2 ^ 64 ≤ decimal p.digits then .ERANGE
  else if p.sign = ['-'] then .value (-UInt64.ofNat (decimal p.digits)) p.rest
  else .value (UInt64.ofNat (decimal p.digits)) p.rest

/-! ## Sizes -/

/-- What the `switch` multiplies by. -/
def sizeUnit (c : Char) : Option ℕ :=
  match c.toLower with
  | 'k' => some 1024
  | 'm' => some 1048576
  | 'g' => some 1073741824
  | _ => none

/-- `parse_size`. -/
def parseSize (str : Text) : UInt64 :=
  if str = [] then 0
  else
    match strtoull str with
    | .noDigits => 0
    | .ERANGE => 0
    | .value val [] => val
    | .value val (c :: _) =>
        match sizeUnit c with
        | some unit => val * UInt64.ofNat unit
        | none => 0

/-- **The grammar of sizes**: digits, and at most one unit letter. -/
inductive SizeText : Text → ℕ → Prop
  | bytes (digits : Text) (hne : digits ≠ []) (hdigits : ∀ c ∈ digits, c.isDigit) :
      SizeText digits (decimal digits)
  | units (digits : Text) (c : Char) (unit : ℕ) (hne : digits ≠ [])
      (hdigits : ∀ c ∈ digits, c.isDigit) (hunit : sizeUnit c = some unit) :
      SizeText (digits ++ [c]) (decimal digits * unit)

/-- A size text is read as its number if that is a 64-bit one, and all else is refused. -/
def ReadsSize (parse : Text → UInt64) (s : Text) : Prop :=
  (∀ n, SizeText s n → n < 2 ^ 64 → parse s = UInt64.ofNat n) ∧
    ((∀ n, SizeText s n → 2 ^ 64 ≤ n) → parse s = 0)

/-- The unit at the head of what follows the digits. -/
def unitAt : Text → Option ℕ
  | [] => some 1
  | c :: _ => sizeUnit c

/-- **The texts that are misread**: a number below `2^64` and a unit are found whose product is not
a multiple of `2^64`, but there is white space or a sign before the number, something behind the
unit letter, or the product is `2^64` or more. -/
def Misread (s : Text) : Prop :=
  let p := IntegerParts.ofText s
  p.digits ≠ [] ∧ decimal p.digits < 2 ^ 64 ∧ ∃ unit ∈ unitAt p.rest,
    ¬ 2 ^ 64 ∣ decimal p.digits * unit ∧
    (p.space ≠ [] ∨ p.sign ≠ [] ∨ 1 < p.rest.length ∨ 2 ^ 64 ≤ decimal p.digits * unit)

/-! ## The parts of a text -/

theorem not_isspace_of_isDigit {c : Char} (hc : c.isDigit) : isspace c = false := by
  refine Bool.eq_false_iff.mpr fun hspace => ?_
  have hmem := List.contains_iff_mem.mp hspace
  simp only [List.mem_cons, List.not_mem_nil, or_false] at hmem
  rcases hmem with rfl | rfl | rfl | rfl | rfl | rfl <;> cases hc

theorem toLower_of_isDigit {c : Char} (hc : c.isDigit) : c.toLower = c := by
  refine dif_neg fun hupper => ?_
  have hle : c.val ≤ 57 := of_decide_eq_true (Bool.and_eq_true_iff.mp hc).2
  exact absurd (UInt32.le_trans hupper.1 hle) (by decide)

/-- The unit letters are not digits. -/
theorem not_isDigit_of_sizeUnit {c : Char} {unit : ℕ} (h : sizeUnit c = some unit) :
    c.isDigit = false := by
  refine Bool.eq_false_iff.mpr fun hdigit => ?_
  unfold sizeUnit at h
  rw [toLower_of_isDigit hdigit] at h
  split at h
  · cases hdigit
  · cases hdigit
  · cases hdigit
  · cases h

theorem sizeUnit_pos {c : Char} {unit : ℕ} (h : sizeUnit c = some unit) : 0 < unit := by
  unfold sizeUnit at h
  split at h
  all_goals
    cases h
    try decide

namespace IntegerParts

variable {s digits rest : Text}

theorem splitSign_append (t : Text) : (splitSign t).1 ++ (splitSign t).2 = t := by
  unfold splitSign
  split <;> rfl

/-- The parts make up the text. -/
theorem ofText_append (s : Text) :
    (ofText s).space ++ ((ofText s).sign ++ ((ofText s).digits ++ (ofText s).rest)) = s := by
  unfold ofText
  dsimp only
  rw [List.takeWhile_append_dropWhile, splitSign_append, List.takeWhile_append_dropWhile]

theorem ofText_digits_isDigit (s : Text) : ∀ c ∈ (ofText s).digits, c.isDigit :=
  fun _ hc => List.mem_takeWhile_imp hc

/-- A text that begins with digits. -/
theorem ofText_of_digits (hne : digits ≠ []) (hdigits : ∀ c ∈ digits, c.isDigit)
    (hrest : ∀ c ∈ rest.head?, c.isDigit = false) :
    ofText (digits ++ rest) = ⟨[], [], digits, rest⟩ := by
  obtain ⟨d, ds, rfl⟩ := List.exists_cons_of_ne_nil hne
  have hd := hdigits d List.mem_cons_self
  have hspace := not_isspace_of_isDigit hd
  have hsign : splitSign (d :: ds ++ rest) = ([], d :: ds ++ rest) := by
    unfold splitSign
    split
    · rename_i heq
      obtain rfl := (List.cons.inj heq).1
      cases hd
    · rename_i heq
      obtain rfl := (List.cons.inj heq).1
      cases hd
    · rfl
  have hstop : rest.takeWhile Char.isDigit = [] ∧ rest.dropWhile Char.isDigit = rest := by
    cases rest with
    | nil => exact ⟨rfl, rfl⟩
    | cons c cs =>
        have hc : ¬ c.isDigit := Bool.eq_false_iff.mp (hrest c rfl)
        exact ⟨List.takeWhile_cons_of_neg hc, List.dropWhile_cons_of_neg hc⟩
  have htake : (d :: ds ++ rest).takeWhile Char.isDigit = d :: ds := by
    rw [List.takeWhile_append_of_pos hdigits, hstop.1, List.append_nil]
  have hdrop : (d :: ds ++ rest).dropWhile Char.isDigit = rest := by
    rw [List.dropWhile_append_of_pos hdigits, hstop.2]
  have htakeSpace : (d :: ds ++ rest).takeWhile isspace = [] := by
    rw [List.cons_append, List.takeWhile_cons_of_neg (by rw [hspace]; exact Bool.false_ne_true)]
  have hdropSpace : (d :: ds ++ rest).dropWhile isspace = d :: ds ++ rest := by
    rw [List.cons_append, List.dropWhile_cons_of_neg (by rw [hspace]; exact Bool.false_ne_true)]
  unfold ofText
  dsimp only
  rw [htakeSpace, hdropSpace, hsign, htake, hdrop]

end IntegerParts

/-! ## The grammar -/

/-- The number and the unit that `parse_size` finds, if it finds both. -/
def sizeFactors (s : Text) : Option (ℕ × ℕ) :=
  let p := IntegerParts.ofText s
  if p.digits ≠ [] ∧ decimal p.digits < 2 ^ 64 then
    (unitAt p.rest).map fun unit => (decimal p.digits, unit)
  else none

/-- Nothing is skipped: no white space or sign at the start, and nothing behind the unit letter. -/
def Clean (s : Text) : Prop :=
  let p := IntegerParts.ofText s
  p.space = [] ∧ p.sign = [] ∧ p.rest.length ≤ 1

variable {s : Text} {n unit m : ℕ}

theorem sizeFactors_eq : sizeFactors s = some (n, unit) ↔
    (IntegerParts.ofText s).digits ≠ [] ∧ n < 2 ^ 64 ∧ n = decimal (IntegerParts.ofText s).digits ∧
      unitAt (IntegerParts.ofText s).rest = some unit := by
  unfold sizeFactors
  dsimp only
  split_ifs with hdigits
  · rw [Option.map_eq_some_iff]
    refine ⟨?_, fun ⟨hne, hlt, hn, hunit⟩ => ⟨unit, hunit, by rw [hn]⟩⟩
    rintro ⟨u, hu, heq⟩
    obtain ⟨rfl, rfl⟩ := Prod.mk.inj heq
    exact ⟨hdigits.1, hdigits.2, rfl, hu⟩
  · refine ⟨nofun, fun ⟨hne, hlt, hn, _⟩ => absurd ⟨hne, hn ▸ hlt⟩ hdigits⟩

/-- **The value of `parse_size`**: the product of the two, negated after a minus sign. -/
theorem parseSize_eq (s : Text) : parseSize s = match sizeFactors s with
    | some (n, unit) =>
        (if (IntegerParts.ofText s).sign = ['-'] then -UInt64.ofNat n else UInt64.ofNat n) *
          UInt64.ofNat unit
    | none => 0 := by
  unfold parseSize strtoull
  dsimp only
  by_cases hs : s = []
  · rw [if_pos hs, hs]
    rfl
  · rw [if_neg hs]
    by_cases hdigits : (IntegerParts.ofText s).digits = []
    · have hfactors : sizeFactors s = none := if_neg fun h => h.1 hdigits
      rw [if_pos hdigits, hfactors]
    · rw [if_neg hdigits]
      by_cases hrange : 2 ^ 64 ≤ decimal (IntegerParts.ofText s).digits
      · have hfactors : sizeFactors s = none := if_neg fun h => absurd h.2 (not_lt.mpr hrange)
        rw [if_pos hrange, hfactors]
      · have hfactors : sizeFactors s = (unitAt (IntegerParts.ofText s).rest).map fun unit =>
            (decimal (IntegerParts.ofText s).digits, unit) := if_pos ⟨hdigits, not_le.mp hrange⟩
        rw [if_neg hrange, hfactors]
        by_cases hsign : (IntegerParts.ofText s).sign = ['-']
        all_goals
          simp only [hsign, if_true, if_false]
          cases (IntegerParts.ofText s).rest with
          | nil => exact (UInt64.mul_one _).symm
          | cons c cs =>
              dsimp only [unitAt]
              cases sizeUnit c <;> rfl

theorem unitAt_pos {rest : Text} (h : unitAt rest = some unit) : 0 < unit := by
  cases rest with
  | nil =>
      obtain rfl := Option.some.inj h
      exact Nat.one_pos
  | cons c cs => exact sizeUnit_pos h

/-- A product vanishes when it is a multiple of `2^64`, whatever the sign. -/
theorem parseSize_eq_zero_iff (hf : sizeFactors s = some (n, unit)) :
    parseSize s = 0 ↔ 2 ^ 64 ∣ n * unit := by
  have hprod : UInt64.ofNat n * UInt64.ofNat unit = 0 ↔ 2 ^ 64 ∣ n * unit := by
    rw [← UInt64.ofNat_mul, ← UInt64.toNat_inj, UInt64.toNat_ofNat', UInt64.toNat_zero]
    exact Nat.dvd_iff_mod_eq_zero.symm
  rw [parseSize_eq, hf]
  dsimp only
  split_ifs
  · rw [← hprod, UInt64.neg_mul]
    exact ⟨fun h => UInt64.neg_inj.mp (h.trans rfl), fun h => by rw [h]; rfl⟩
  · exact hprod

/-- A size text is one that is clean, with a number and a unit. -/
theorem sizeText_iff : SizeText s m ↔
    Clean s ∧ (IntegerParts.ofText s).digits ≠ [] ∧
      ∃ unit, unitAt (IntegerParts.ofText s).rest = some unit ∧
        m = decimal (IntegerParts.ofText s).digits * unit := by
  refine ⟨fun h => ?_, ?_⟩
  · cases h with
    | bytes _ hne hdigits =>
        have hparts : IntegerParts.ofText (_ ++ []) = _ :=
          IntegerParts.ofText_of_digits hne hdigits nofun
        rw [List.append_nil] at hparts
        unfold Clean
        rw [hparts]
        exact ⟨⟨rfl, rfl, Nat.zero_le 1⟩, hne, 1, rfl, (Nat.mul_one _).symm⟩
    | units digits c unit hne hdigits hunit =>
        have hparts : IntegerParts.ofText (digits ++ [c]) = _ :=
          IntegerParts.ofText_of_digits hne hdigits fun d hd => by
            obtain rfl := Option.some.inj hd
            exact not_isDigit_of_sizeUnit hunit
        unfold Clean
        rw [hparts]
        exact ⟨⟨rfl, rfl, le_rfl⟩, hne, unit, hunit, rfl⟩
  · rintro ⟨⟨hspace, hsign, hlength⟩, hne, unit, hunit, rfl⟩
    have htext := IntegerParts.ofText_append s
    have hdigits := IntegerParts.ofText_digits_isDigit s
    rw [hspace, hsign, List.nil_append, List.nil_append] at htext
    cases hrest : (IntegerParts.ofText s).rest with
    | nil =>
        rw [hrest] at htext hunit
        obtain rfl := Option.some.inj hunit
        have h := SizeText.bytes _ hne hdigits
        rw [List.append_nil] at htext
        rw [Nat.mul_one]
        generalize (IntegerParts.ofText s).digits = digits at htext h
        rwa [htext] at h ⊢
    | cons c cs =>
        rw [hrest] at htext hunit hlength
        obtain rfl : cs = [] := List.length_eq_zero_iff.mp (by
          rw [List.length_cons] at hlength
          omega)
        have h := SizeText.units _ c unit hne hdigits hunit
        rwa [htext] at h

/-- **`parse_size` follows the grammar of sizes exactly on the texts that it does not misread.** -/
theorem parseSize_correct_iff (s : Text) : ReadsSize parseSize s ↔ ¬ Misread s := by
  refine ⟨fun ⟨hsize, hrefuse⟩ hmis => ?_, fun hmis => ⟨fun m hm hlt => ?_, fun hbig => ?_⟩⟩
  · obtain ⟨hne, hlt, unit, hunit, hdvd, hwhy⟩ := hmis
    have hf := sizeFactors_eq.mpr ⟨hne, hlt, rfl, hunit⟩
    refine hdvd ((parseSize_eq_zero_iff hf).mp (hrefuse fun m hm => ?_))
    obtain ⟨⟨hspace, hsign, hlength⟩, -, unit', hunit', rfl⟩ := sizeText_iff.mp hm
    obtain rfl := Option.some.inj (hunit.symm.trans hunit')
    rcases hwhy with h | h | h | h
    · exact absurd hspace h
    · exact absurd hsign h
    · exact absurd hlength (not_le.mpr h)
    · exact h
  · obtain ⟨⟨-, hsign, -⟩, hne, unit, hunit, rfl⟩ := sizeText_iff.mp hm
    have hn := (Nat.le_mul_of_pos_right _ (unitAt_pos hunit)).trans_lt hlt
    have hf := sizeFactors_eq.mpr ⟨hne, hn, rfl, hunit⟩
    rw [parseSize_eq, hf, hsign]
    exact (UInt64.ofNat_mul _ _).symm
  · by_contra hzero
    cases hf : sizeFactors s with
    | none =>
        rw [parseSize_eq, hf] at hzero
        exact hzero rfl
    | some p =>
        obtain ⟨n, unit⟩ := p
        obtain ⟨hne, hlt, rfl, hunit⟩ := sizeFactors_eq.mp hf
        have hdvd := mt (parseSize_eq_zero_iff hf).mpr hzero
        have hclean : Clean s ∧ decimal (IntegerParts.ofText s).digits * unit < 2 ^ 64 := by
          by_contra hno
          refine hmis ⟨hne, hlt, unit, hunit, hdvd, ?_⟩
          unfold Clean at hno
          dsimp only at hno
          by_contra hwhy
          simp only [ne_eq, not_or, not_not, not_lt, not_le] at hwhy
          exact hno ⟨⟨hwhy.1, hwhy.2.1, hwhy.2.2.1⟩, hwhy.2.2.2⟩
        have hle := hbig _ (sizeText_iff.mpr ⟨hclean.1, hne, unit, hunit, rfl⟩)
        exact absurd hclean.2 (not_lt.mpr hle)

/-- A size with trailing text is read as if it were not there. -/
theorem parseSize_trailing : ¬ ReadsSize parseSize "4kB".toList := by
  intro h
  have hnone : ∀ n, SizeText "4kB".toList n → 2 ^ 64 ≤ n := fun n hn =>
    absurd (sizeText_iff.mp hn).1.2.2 (by decide)
  exact absurd (h.2 hnone) (by decide)

end Aura
