import Mathlib.Data.List.TakeWhile
import Mathlib.Algebra.BigOperators.Group.List.Basic

/-!
# Reading lines through a buffer

A reader with a buffer of fixed size takes what comes up to a separator, or what fits. A line that
does not fit is read in pieces, and each piece looks like a line of its own.

* `reads` — the successive contents of the buffer.
* `flatMap_reads` — they are the pieces of the lines.
* `flatMap_reads_eq_iff` — reading finds the texts of the lines exactly when no line has a text too
  many in its pieces.

What is looked for in a buffer is a parameter: the list `keep` of the texts that it holds.
-/

namespace Aura.Lib

variable {α β : Type*} [DecidableEq α] (sep : α) (n : ℕ)

/-- What is read: up to `n` elements, and none behind a separator; and what remains. -/
def takeLine : ℕ → List α → List α × List α
  | 0, file => ([], file)
  | _ + 1, [] => ([], [])
  | n + 1, x :: file =>
      if x = sep then ([x], file) else (x :: (takeLine n file).1, (takeLine n file).2)

theorem takeLine_append (n : ℕ) (file : List α) :
    (takeLine sep n file).1 ++ (takeLine sep n file).2 = file := by
  induction file generalizing n with
  | nil => cases n <;> rfl
  | cons x file ih =>
      cases n with
      | zero => rfl
      | succ n =>
          unfold takeLine
          split_ifs
          · rfl
          · rw [List.cons_append, ih]

theorem length_takeLine_lt {n : ℕ} (hn : 0 < n) {file : List α} (hfile : file ≠ []) :
    (takeLine sep n file).2.length < file.length := by
  have happend := congrArg List.length (takeLine_append sep n file)
  rw [List.length_append] at happend
  have hpos : 0 < (takeLine sep n file).1.length := by
    obtain ⟨m, rfl⟩ := Nat.exists_eq_succ_of_ne_zero hn.ne'
    obtain ⟨x, file, rfl⟩ := List.exists_cons_of_ne_nil hfile
    unfold takeLine
    split_ifs
    · exact Nat.one_pos
    · exact Nat.succ_pos _
  omega

/-- The successive contents of a buffer for `n + 1` elements. -/
def reads (file : List α) : List (List α) :=
  if h : file = [] then []
  else (takeLine sep (n + 1) file).1 :: reads (takeLine sep (n + 1) file).2
termination_by file.length
decreasing_by exact length_takeLine_lt sep (Nat.succ_pos n) h

/-- The pieces of a line, of `n + 1` elements each but for the last one. -/
def pieces (line : List α) : List (List α) :=
  if h : line = [] then [] else line.take (n + 1) :: pieces (line.drop (n + 1))
termination_by line.length
decreasing_by
  have hpos := List.length_pos_iff.mpr h
  rw [List.length_drop]
  omega

variable {sep n} {line rest : List α} {keep : List α → List β}

theorem reads_nil : reads sep n [] = [] := by
  rw [reads, dif_pos rfl]

omit [DecidableEq α] in
theorem pieces_nil : pieces n ([] : List α) = [] := by
  rw [pieces, dif_pos rfl]

omit [DecidableEq α] in
theorem pieces_of_le (hne : line ≠ []) (hle : line.length ≤ n + 1) : pieces n line = [line] := by
  rw [pieces, dif_neg hne, List.take_of_length_le hle, List.drop_of_length_le hle, pieces_nil]

omit [DecidableEq α] in
theorem pieces_of_lt (hlt : n + 1 ≤ line.length) :
    pieces n line = line.take (n + 1) :: pieces n (line.drop (n + 1)) := by
  have hne : line ≠ [] := List.ne_nil_of_length_pos (by omega)
  rw [pieces, dif_neg hne]

/-- A line that ends with a separator: all of it is read, or what fits. -/
theorem takeLine_line (hsep : sep ∉ line) (m : ℕ) : takeLine sep m (line ++ sep :: rest) =
    if line.length < m then (line ++ [sep], rest)
    else (line.take m, line.drop m ++ sep :: rest) := by
  induction line generalizing m with
  | nil =>
      cases m with
      | zero => rfl
      | succ m => exact if_pos rfl
  | cons x line ih =>
      cases m with
      | zero => rfl
      | succ m =>
          have hx : x ≠ sep := fun h => hsep (h ▸ List.mem_cons_self)
          rw [List.cons_append, takeLine, if_neg hx, ih fun h => hsep (List.mem_cons_of_mem x h),
            List.length_cons, List.take_succ_cons, List.drop_succ_cons]
          by_cases hlt : line.length < m
          · rw [if_pos hlt, if_pos (Nat.succ_lt_succ hlt), List.cons_append]
          · rw [if_neg hlt, if_neg fun h => hlt (Nat.lt_of_succ_lt_succ h)]

/-- The last line, without a separator. -/
theorem takeLine_last (hsep : sep ∉ line) (m : ℕ) :
    takeLine sep m line = (line.take m, line.drop m) := by
  induction line generalizing m with
  | nil => cases m <;> rfl
  | cons x line ih =>
      cases m with
      | zero => rfl
      | succ m =>
          have hx : x ≠ sep := fun h => hsep (h ▸ List.mem_cons_self)
          rw [takeLine, if_neg hx, ih fun h => hsep (List.mem_cons_of_mem x h), List.take_succ_cons,
            List.drop_succ_cons]

theorem reads_last (hsep : sep ∉ line) : reads sep n line = pieces n line := by
  induction hlen : line.length using Nat.strong_induction_on generalizing line with
  | _ m ih =>
      by_cases hne : line = []
      · rw [hne, reads_nil, pieces_nil]
      · have hpos := List.length_pos_iff.mpr hne
        rw [reads, dif_neg hne, pieces, dif_neg hne, takeLine_last hsep]
        have hlt : (line.drop (n + 1)).length < m := by
          rw [List.length_drop]
          omega
        exact congrArg _ (ih _ hlt (fun h => hsep (List.mem_of_mem_drop h)) rfl)

section Keep

variable (hnil : keep [] = []) (hkeep : ∀ line, sep ∉ line → keep (line ++ [sep]) = keep line)

include hnil hkeep

/-- A line that ends with a separator is read in its pieces. -/
theorem flatMap_reads_line (hsep : sep ∉ line) :
    (reads sep n (line ++ sep :: rest)).flatMap keep =
      (pieces n line).flatMap keep ++ (reads sep n rest).flatMap keep := by
  induction hlen : line.length using Nat.strong_induction_on generalizing line with
  | _ m ih =>
      have hne : line ++ sep :: rest ≠ [] := List.append_ne_nil_of_right_ne_nil line nofun
      rw [reads, dif_neg hne, takeLine_line hsep, List.flatMap_cons]
      by_cases hlt : line.length < n + 1
      · rw [if_pos hlt, hkeep line hsep]
        by_cases hline : line = []
        · rw [hline, hnil, pieces_nil]
          rfl
        · rw [pieces_of_le hline hlt.le, List.flatMap_singleton]
      · rw [if_neg hlt, pieces_of_lt (not_lt.mp hlt), List.flatMap_cons, List.append_assoc]
        have hdrop : (line.drop (n + 1)).length < m := by
          rw [List.length_drop]
          omega
        exact congrArg _ (ih _ hdrop (fun h => hsep (List.mem_of_mem_drop h)) rfl)

/-- **Reading a file** is reading the pieces of its lines. -/
theorem flatMap_reads (file : List α) : (reads sep n file).flatMap keep =
    (file.splitOn sep).flatMap fun line => (pieces n line).flatMap keep := by
  induction hlen : file.length using Nat.strong_induction_on generalizing file with
  | _ m ih =>
      by_cases hmem : sep ∈ file
      · obtain ⟨line, rest, rfl, hsep⟩ := List.eq_append_cons_of_mem hmem
        have hrest : rest.length < m := by
          rw [List.length_append, List.length_cons] at hlen
          omega
        rw [flatMap_reads_line hnil hkeep hsep, ih _ hrest rest rfl, List.splitOn_append_cons_self,
          List.flatMap_append, List.splitOn_eq_singleton hsep, List.flatMap_singleton]
      · rw [reads_last hmem, List.splitOn_eq_singleton hmem, List.flatMap_singleton]

end Keep

/-! ## Counting the texts -/

section Counting

variable {γ : Type*} {xs : List γ} {f g : γ → List β}

omit [DecidableEq α] in
theorem length_flatMap_le (hle : ∀ x ∈ xs, (g x).length ≤ (f x).length) :
    (xs.flatMap g).length ≤ (xs.flatMap f).length := by
  induction xs with
  | nil => exact le_rfl
  | cons x xs ih =>
      have hx := hle x List.mem_cons_self
      have hrest := ih fun y hy => hle y (List.mem_cons_of_mem x hy)
      rw [List.flatMap_cons, List.flatMap_cons, List.length_append, List.length_append]
      exact Nat.add_le_add hx hrest

/-- If none of some lists is shorter than its counterpart, they are no longer altogether only if
none of them is longer. -/
theorem length_eq_of_flatMap_le (hle : ∀ x ∈ xs, (g x).length ≤ (f x).length)
    (htotal : (xs.flatMap f).length ≤ (xs.flatMap g).length) :
    ∀ x ∈ xs, (f x).length ≤ (g x).length := by
  induction xs with
  | nil => exact nofun
  | cons x xs ih =>
      have hx := hle x List.mem_cons_self
      have hle' : ∀ y ∈ xs, (g y).length ≤ (f y).length := fun y hy =>
        hle y (List.mem_cons_of_mem x hy)
      have hrest := length_flatMap_le hle'
      rw [List.flatMap_cons, List.flatMap_cons, List.length_append, List.length_append] at htotal
      intro y hy
      rcases List.mem_cons.mp hy with rfl | hy
      · omega
      · exact ih hle' (by omega) y hy

end Counting

/-- **Reading finds the texts of the lines** exactly when the pieces of each line hold no more texts
than the line. -/
theorem flatMap_reads_eq_iff (hnil : keep [] = [])
    (hkeep : ∀ line, sep ∉ line → keep (line ++ [sep]) = keep line)
    (hle : ∀ line, (keep line).length ≤ ((pieces n line).flatMap keep).length)
    (heq : ∀ line, ((pieces n line).flatMap keep).length ≤ (keep line).length →
      (pieces n line).flatMap keep = keep line) (file : List α) :
    (reads sep n file).flatMap keep = (file.splitOn sep).flatMap keep ↔
      ∀ line ∈ file.splitOn sep, ((pieces n line).flatMap keep).length ≤ (keep line).length := by
  rw [flatMap_reads hnil hkeep]
  refine ⟨fun h => ?_, fun h => ?_⟩
  · exact length_eq_of_flatMap_le (fun line _ => hle line) (Nat.le_of_eq (congrArg List.length h))
  · exact List.flatMap_congr fun line hline => heq line (h line hline)

end Aura.Lib
