import Aura.Bffio.JobConfig
import Aura.Lib.LineReader
import Mathlib.Data.List.DropRight

/-!
# Job files

`job_parse_file` reads a job file through a buffer of 1024 bytes and keeps two configurations at
hand: the global one, and that of the section it is in.

* `jobParseFile` — the loop over the contents of the buffer.
* `sectionJobs` — what a job file means: each job starts from the global settings at its header, and
  gets the directives of its section.
* `parseTexts_eq` — the loop computes this from the texts that it sees.
* `lineByLine_iff` — these are the lines of the file unless one of them fills the buffer and goes
  on with a text of its own.
-/

namespace Aura

open Lib

/-- `LINE_MAX_LEN`. -/
abbrev LINE_MAX_LEN : ℕ := 1024

/-! ## The loop -/

/-- The string in a buffer, up to the terminator. -/
def cstr (buf : Text) : Text := buf.takeWhile (· ≠ '\x00')

/-- `strip`. -/
def strip (s : Text) : Text := (s.dropWhile isspace).rdropWhile isspace

/-- The local variables of `job_parse_file` and the jobs of the configuration. `current` is the
index of the job that parameters go to. -/
structure JobFileState where
  global : JobConfig := jobConfigDefaults
  current : Option ℕ := none
  inGlobal : Bool := false
  lineNum : ℕ := 0
  jobs : List JobConfig

namespace JobFileState

variable (strtod : Text → Option (ℚ × Text)) (path : String) (s : JobFileState)

/-- A key and a value, or a bare flag. -/
def splitParam (line : Text) : Text × Text :=
  if '=' ∈ line then
    (strip (line.takeWhile (· ≠ '=')), strip (line.dropWhile (· ≠ '=')).tail)
  else (strip line, [])

/-- The header of a section. -/
def header (sectionName : Text) : JobFileState :=
  if strcasecmpEq sectionName "global" then { s with inGlobal := true, current := none }
  else
    { s with
      inGlobal := false
      current := some s.jobs.length
      jobs := s.jobs ++ [{ s.global with name := snprintf 128 sectionName }] }

/-- A parameter goes to the current job, or to the global settings. -/
def param (key value : Text) : Except String JobFileState :=
  match s.inGlobal, s.current with
  | false, some i =>
      match s.jobs[i]? with
      | some job => do return { s with jobs := s.jobs.set i (← applyParam strtod job key value) }
      | none => .ok s
  | _, _ => do return { s with global := ← applyParam strtod s.global key value }

/-- What the loop does with a stripped line. -/
def applyText (line : Text) : Except String JobFileState :=
  match line with
  | [] => .ok s
  | '#' :: _ => .ok s
  | ';' :: _ => .ok s
  | '[' :: rest =>
      if ']' ∈ rest then .ok (s.header (strip (rest.takeWhile (· ≠ ']'))))
      else .error ("BFFIO: " ++ path ++ ":" ++ toString s.lineNum ++ ": malformed section header")
  | line => s.param strtod (splitParam line).1 (splitParam line).2

/-- One turn of the loop, with the contents of the buffer. -/
def applyLine (buf : Text) : Except String JobFileState :=
  { s with lineNum := s.lineNum + 1 }.applyText strtod path (strip (cstr buf))

/-- The loop over what `fgets` reads. -/
def parseLines (file : Text) : Except String JobFileState :=
  (reads '\n' (LINE_MAX_LEN - 2) file).foldlM (applyLine strtod path) s

end JobFileState

/-- `job_parse_file`, for the contents of the file, after some jobs are there. -/
def jobParseFile (strtod : Text → Option (ℚ × Text)) (path : String) (file : Text)
    (jobs : List JobConfig) : Except String (List JobConfig) := do
  return (← JobFileState.parseLines strtod path { jobs } file).jobs

/-! ## What a job file means -/

/-- What a line is, once it is stripped. -/
inductive TextKind
  | skipped
  | malformed
  | header (sectionName : Text)
  | directive (key value : Text)

/-- The kind of a stripped line, by its first character. -/
def textKind : Text → TextKind
  | [] => .skipped
  | '#' :: _ => .skipped
  | ';' :: _ => .skipped
  | '[' :: rest =>
      if ']' ∈ rest then .header (strip (rest.takeWhile (· ≠ ']'))) else .malformed
  | line => .directive (JobFileState.splitParam line).1 (JobFileState.splitParam line).2

/-- Keys and values, in order. -/
abbrev Directives := List (Text × Text)

/-- **The sections of a file**: the directives before the first header, and for each header the
directives up to the next one. There are none if a header is malformed. -/
def sections : List Text → Option (Directives × List (Text × Directives))
  | [] => some ([], [])
  | line :: lines =>
      match textKind line with
      | .skipped => sections lines
      | .malformed => none
      | .header name => (sections lines).map fun (ds, secs) => ([], (name, ds) :: secs)
      | .directive key value =>
          (sections lines).map fun (ds, secs) => ((key, value) :: ds, secs)

section Meaning

variable (strtod : Text → Option (ℚ × Text))

/-- All directives of a section, in order. -/
def applyAll (job : JobConfig) (ds : Directives) : Option JobConfig :=
  ds.foldlM (fun job d => (applyParam strtod job d.1 d.2).toOption) job

/-- **The jobs of the sections**, given the global settings that are in force. -/
def sectionJobs : JobConfig → List (Text × Directives) → Option (List JobConfig)
  | _, [] => some []
  | global, (name, ds) :: secs =>
      if strcasecmpEq name "global" then do sectionJobs (← applyAll strtod global ds) secs
      else do
        let job ← applyAll strtod { global with name := snprintf 128 name } ds
        return job :: (← sectionJobs global secs)

/-- What comes after some texts: the directives go to the configuration at hand, and then come the
sections. -/
def fileJobs (lines : List Text) : Option (List JobConfig) := do
  let (ds, secs) ← sections lines
  sectionJobs strtod (← applyAll strtod jobConfigDefaults ds) secs

end Meaning

/-- The text in a buffer, if there is one. -/
def textIn (buf : Text) : List Text := if strip (cstr buf) = [] then [] else [strip (cstr buf)]

/-- **What reading a file line by line means**: the texts that the loop sees are those of the
lines, and the jobs are those that they describe. -/
def LineByLine (file : Text) : Prop :=
  (reads '\n' (LINE_MAX_LEN - 2) file).flatMap textIn = (file.splitOn '\n').flatMap textIn ∧
    ∀ strtod path jobs, (jobParseFile strtod path file jobs).toOption =
      (fileJobs strtod ((file.splitOn '\n').flatMap textIn)).map (jobs ++ ·)

/-- The text of a line is in one of the pieces that fit in the buffer, and no other piece has one.
-/
def OneText (line : Text) : Prop :=
  ((pieces (LINE_MAX_LEN - 2) line).flatMap textIn).length ≤ (textIn line).length

/-! ## The loop computes the meaning -/

namespace JobFileState

variable {strtod : Text → Option (ℚ × Text)} {path : String} {s : JobFileState}

theorem applyText_eq (s : JobFileState) (line : Text) : applyText strtod path s line =
    match textKind line with
    | .skipped => .ok s
    | .malformed =>
        .error ("BFFIO: " ++ path ++ ":" ++ toString s.lineNum ++ ": malformed section header")
    | .header name => .ok (s.header name)
    | .directive key value => s.param strtod key value := by
  unfold applyText textKind
  split
  · rfl
  · rfl
  · rfl
  · split_ifs <;> rfl
  · rfl

/-- The jobs of a state, once some buffers are done with. -/
def jobsAfter (strtod : Text → Option (ℚ × Text)) (path : String) (s : JobFileState)
    (bufs : List Text) : Option (List JobConfig) :=
  (bufs.foldlM (applyLine strtod path) s).toOption.map jobs

theorem jobsAfter_cons (s : JobFileState) (buf : Text) (bufs : List Text) :
    jobsAfter strtod path s (buf :: bufs) =
      ({ s with lineNum := s.lineNum + 1 }.applyText strtod path (strip (cstr buf))).toOption.bind
        fun s => jobsAfter strtod path s bufs := by
  unfold jobsAfter
  rw [List.foldlM_cons]
  unfold applyLine
  cases { s with lineNum := s.lineNum + 1 }.applyText strtod path (strip (cstr buf)) <;> rfl

/-- The first buffer decides what its text does to the sections. -/
theorem sections_cons (buf : Text) (bufs : List Text) :
    sections ((buf :: bufs).flatMap textIn) =
      match textKind (strip (cstr buf)) with
      | .skipped => sections (bufs.flatMap textIn)
      | .malformed => none
      | .header name =>
          (sections (bufs.flatMap textIn)).map fun p => ([], (name, p.1) :: p.2)
      | .directive key value =>
          (sections (bufs.flatMap textIn)).map fun p => ((key, value) :: p.1, p.2) := by
  rw [List.flatMap_cons, textIn]
  by_cases hempty : strip (cstr buf) = []
  · rw [if_pos hempty, hempty]
    rfl
  · rw [if_neg hempty]
    rfl

/-- A directive is applied before those that follow it. -/
theorem bind_directive {γ : Type} (x : Option (Directives × List (Text × Directives)))
    (job : JobConfig) (key value : Text)
    (k : JobConfig → List (Text × Directives) → Option γ) :
    (x.map fun p => ((key, value) :: p.1, p.2)).bind (fun p =>
        (applyAll strtod job p.1).bind fun job => k job p.2) =
      (applyParam strtod job key value).toOption.bind fun job =>
        x.bind fun p => (applyAll strtod job p.1).bind fun job => k job p.2 := by
  cases x with
  | none => cases (applyParam strtod job key value).toOption <;> rfl
  | some p =>
      change ((applyParam strtod job key value).toOption.bind fun job =>
        applyAll strtod job p.1).bind _ = _
      cases (applyParam strtod job key value).toOption <;> rfl

/-- **The loop computes the jobs of the sections**, from a state whose parameters go to the global
settings, or to the last job. -/
theorem jobsAfter_eq (bufs : List Text) :
    (∀ s : JobFileState, s.current = none → jobsAfter strtod path s bufs =
      (sections (bufs.flatMap textIn)).bind fun p =>
        (applyAll strtod s.global p.1).bind fun global =>
          (sectionJobs strtod global p.2).map (s.jobs ++ ·)) ∧
    ∀ (s : JobFileState) (js : List JobConfig) (job : JobConfig), s.jobs = js ++ [job] →
      s.current = some js.length → s.inGlobal = false → jobsAfter strtod path s bufs =
        (sections (bufs.flatMap textIn)).bind fun p =>
          (applyAll strtod job p.1).bind fun job =>
            (sectionJobs strtod s.global p.2).map (js ++ job :: ·) := by
  induction bufs with
  | nil =>
      refine ⟨fun s hcur => ?_, fun s js job hjobs hcur hin => ?_⟩
      · exact congrArg some (List.append_nil s.jobs).symm
      · exact congrArg some hjobs
  | cons buf bufs ih =>
      have hheader (s : JobFileState) (name : Text) : jobsAfter strtod path (s.header name) bufs =
          (sections (bufs.flatMap textIn)).bind fun p =>
            (sectionJobs strtod s.global ((name, p.1) :: p.2)).map (s.jobs ++ ·) := by
        unfold header sectionJobs
        split_ifs with hglobal
        · rw [ih.1 _ rfl]
          refine Option.bind_congr fun p _ => ?_
          cases applyAll strtod s.global p.1 <;> rfl
        · rw [ih.2 _ s.jobs _ rfl rfl rfl]
          refine Option.bind_congr fun p _ => ?_
          cases applyAll strtod { s.global with name := snprintf 128 name } p.1 with
          | none => rfl
          | some job => cases sectionJobs strtod s.global p.2 <;> simp
      refine ⟨fun s hcur => ?_, fun s js job hjobs hcur hin => ?_⟩
      · rw [jobsAfter_cons, sections_cons, applyText_eq]
        cases textKind (strip (cstr buf)) with
        | skipped => exact ih.1 _ hcur
        | malformed => rfl
        | header name =>
            refine (hheader _ name).trans ?_
            rw [Option.bind_map]
            rfl
        | directive key value =>
            have hparam : param strtod { s with lineNum := s.lineNum + 1 } key value = do
                return { s with
                  lineNum := s.lineNum + 1, global := ← applyParam strtod s.global key value } := by
              unfold param
              rw [hcur]
              split
              · rename_i heq
                cases heq
              · rfl
            dsimp only
            rw [hparam]
            refine Eq.trans ?_ (bind_directive _ _ _ _ fun global secs =>
              (sectionJobs strtod global secs).map (s.jobs ++ ·)).symm
            cases applyParam strtod s.global key value with
            | error e => rfl
            | ok global => exact ih.1 _ hcur
      · have hsame : (js ++ job :: ·) = (s.jobs ++ ·) := by
          funext rest
          rw [hjobs, List.append_assoc, List.singleton_append]
        rw [jobsAfter_cons, sections_cons, applyText_eq]
        cases textKind (strip (cstr buf)) with
        | skipped => exact ih.2 _ js job hjobs hcur hin
        | malformed => rfl
        | header name =>
            refine (hheader _ name).trans ?_
            rw [Option.bind_map]
            refine Option.bind_congr fun p _ => ?_
            change _ = (sectionJobs strtod s.global ((name, p.1) :: p.2)).map (js ++ job :: ·)
            rw [hsame]
        | directive key value =>
            have hget : s.jobs[js.length]? = some job := by
              rw [hjobs, List.getElem?_concat_length]
            have hparam : param strtod { s with lineNum := s.lineNum + 1 } key value = do
                return { s with
                  lineNum := s.lineNum + 1
                  jobs := s.jobs.set js.length (← applyParam strtod job key value) } := by
              unfold param
              dsimp only
              rw [hcur, hin]
              dsimp only
              rw [hget]
            dsimp only
            rw [hparam]
            refine Eq.trans ?_ (bind_directive _ _ _ _ fun job secs =>
              (sectionJobs strtod s.global secs).map (js ++ job :: ·)).symm
            cases applyParam strtod job key value with
            | error e => rfl
            | ok job' =>
                refine ih.2 _ js job' ?_ hcur hin
                dsimp only
                rw [hjobs, List.set_append_right _ _ le_rfl, Nat.sub_self]
                rfl

end JobFileState

/-! ## Texts in buffers -/

variable {s t : Text}

theorem strip_eq_nil : strip s = [] ↔ ∀ c ∈ s, isspace c := by
  unfold strip
  rw [List.rdropWhile_eq_nil_iff]
  refine ⟨fun h => ?_, fun h c hc => h c (List.dropWhile_sublist _ |>.mem hc)⟩
  by_contra hno
  have hne : s.dropWhile isspace ≠ [] := mt List.dropWhile_eq_nil_iff.mp hno
  have hhead := List.head_dropWhile_not isspace hne
  exact absurd (h _ (List.head_mem hne)) (Bool.eq_false_iff.mp hhead)

/-- White space in front does not matter. -/
theorem strip_append_left (hs : ∀ c ∈ s, isspace c) : strip (s ++ t) = strip t := by
  unfold strip
  rw [List.dropWhile_append_of_pos hs]

/-- White space behind does not matter. -/
theorem strip_append_right (ht : ∀ c ∈ t, isspace c) : strip (s ++ t) = strip s := by
  by_cases hs : ∀ c ∈ s, isspace c
  · rw [strip_append_left hs, strip_eq_nil.mpr ht, strip_eq_nil.mpr hs]
  · have hne : s.dropWhile isspace ≠ [] := mt List.dropWhile_eq_nil_iff.mp hs
    have hdrop : (s ++ t).dropWhile isspace = s.dropWhile isspace ++ t := by
      rw [List.dropWhile_append, if_neg]
      rwa [List.isEmpty_iff]
    have ht' : ∀ c ∈ t.reverse, isspace c := fun c hc => ht c (List.mem_reverse.mp hc)
    unfold strip List.rdropWhile
    rw [hdrop, List.reverse_append, List.dropWhile_append_of_pos ht']

theorem cstr_append_of_mem (h : '\x00' ∈ s) : cstr (s ++ t) = cstr s := by
  unfold cstr
  rw [List.takeWhile_append, if_neg]
  intro hlen
  have hall := List.takeWhile_eq_self_iff.mp ((List.takeWhile_prefix _).eq_of_length hlen) _ h
  exact absurd rfl (of_decide_eq_true hall)

theorem cstr_append_of_notMem (h : '\x00' ∉ s) : cstr (s ++ t) = s ++ cstr t := by
  unfold cstr
  refine List.takeWhile_append_of_pos fun c hc => decide_eq_true ?_
  rintro rfl
  exact h hc

theorem cstr_of_notMem (h : '\x00' ∉ s) : cstr s = s := by
  have happend := cstr_append_of_notMem (t := []) h
  rwa [List.append_nil, show cstr [] = [] from rfl, List.append_nil] at happend

theorem textIn_nil : textIn [] = [] := rfl

/-- The newline at the end of a buffer does not matter. -/
theorem textIn_newline (line : Text) : textIn (line ++ ['\n']) = textIn line := by
  unfold textIn
  by_cases h : '\x00' ∈ line
  · rw [cstr_append_of_mem h]
  · have hspace : ∀ c ∈ ['\n'], isspace c := fun c hc => by
      rw [List.mem_singleton.mp hc]
      rfl
    rw [cstr_append_of_notMem h, show cstr ['\n'] = ['\n'] from rfl, strip_append_right hspace,
      cstr_of_notMem h]

theorem length_textIn_le (line : Text) : (textIn line).length ≤ 1 := by
  unfold textIn
  split_ifs
  · exact Nat.zero_le 1
  · exact le_rfl

/-- No text in a buffer without a terminator: there is only white space. -/
theorem textIn_eq_nil (h : '\x00' ∉ s) : textIn s = [] ↔ ∀ c ∈ s, isspace c := by
  unfold textIn
  rw [cstr_of_notMem h, ← strip_eq_nil]
  split_ifs with hs
  · exact ⟨fun _ => hs, fun _ => rfl⟩
  · exact ⟨nofun, fun hs' => absurd hs' hs⟩

/-- **What is behind a piece**: its text does not matter if a terminator comes before it; otherwise
it is the text if there is none in front, and if there is none in it, the one in front is. -/
theorem textIn_append (p q : Text) :
    (textIn (p ++ q)).length ≤ (textIn p).length + (textIn q).length ∧
      (textIn p = [] → textIn (p ++ q) = [] ∨ textIn (p ++ q) = textIn q) ∧
      (textIn q = [] → textIn (p ++ q) = textIn p) := by
  by_cases h : '\x00' ∈ p
  · have hsame : textIn (p ++ q) = textIn p := by
      unfold textIn
      rw [cstr_append_of_mem h]
    rw [hsame]
    exact ⟨Nat.le_add_right _ _, fun hp => .inl hp, fun _ => rfl⟩
  · have hwhole : textIn (p ++ q) =
        if strip (p ++ cstr q) = [] then [] else [strip (p ++ cstr q)] := by
      unfold textIn
      rw [cstr_append_of_notMem h]
    by_cases hp : ∀ c ∈ p, isspace c
    · have hsame : textIn (p ++ q) = textIn q := by
        rw [hwhole, strip_append_left hp]
        rfl
      rw [hsame, (textIn_eq_nil h).mpr hp]
      exact ⟨Nat.le_add_left _ _, fun _ => .inr rfl, id⟩
    · have hone : (textIn p).length = 1 := by
        have hpos := List.length_pos_iff.mpr (mt (textIn_eq_nil h).mp hp)
        have hle := length_textIn_le p
        omega
      have hle := length_textIn_le (p ++ q)
      refine ⟨by omega, fun hnil => absurd ((textIn_eq_nil h).mp hnil) hp, fun hq => ?_⟩
      have hspace : ∀ c ∈ cstr q, isspace c := by
        unfold textIn at hq
        split_ifs at hq with hstrip
        exact strip_eq_nil.mp hstrip
      rw [hwhole, strip_append_right hspace]
      unfold textIn
      rw [cstr_of_notMem h]

/-- The texts of the pieces of a line. -/
theorem textsOf_pieces (line : Text) :
    (textIn line).length ≤ ((pieces (LINE_MAX_LEN - 2) line).flatMap textIn).length ∧
      (OneText line → (pieces (LINE_MAX_LEN - 2) line).flatMap textIn = textIn line) := by
  unfold OneText
  induction hlen : line.length using Nat.strong_induction_on generalizing line with
  | _ m ih =>
      by_cases hshort : line.length ≤ LINE_MAX_LEN - 2 + 1
      · by_cases hline : line = []
        · rw [hline, pieces_nil]
          exact ⟨le_rfl, fun _ => rfl⟩
        · rw [pieces_of_le hline hshort, List.flatMap_singleton]
          exact ⟨le_rfl, fun _ => rfl⟩
      · have hlt : (line.drop (LINE_MAX_LEN - 2 + 1)).length < m := by
          rw [List.length_drop]
          omega
        obtain ⟨hle, heq⟩ := ih _ hlt _ rfl
        obtain ⟨happend, hfirst, hlast⟩ := textIn_append (line.take (LINE_MAX_LEN - 2 + 1))
          (line.drop (LINE_MAX_LEN - 2 + 1))
        rw [List.take_append_drop] at happend hfirst hlast
        rw [pieces_of_lt (not_le.mp hshort).le, List.flatMap_cons, List.length_append]
        refine ⟨by omega, fun hone => ?_⟩
        have htext := length_textIn_le line
        by_cases hp : textIn (line.take (LINE_MAX_LEN - 2 + 1)) = []
        · rw [hp, List.nil_append]
          rw [hp, List.length_nil, Nat.zero_add] at hone
          rcases hfirst hp with hnil | hsame
          · rw [hnil] at hone ⊢
            exact List.length_eq_zero_iff.mp (Nat.le_zero.mp hone)
          · rw [hsame] at hone ⊢
            exact heq hone
        · have hpos := List.length_pos_iff.mpr hp
          have hnil :
              (pieces (LINE_MAX_LEN - 2) (line.drop (LINE_MAX_LEN - 2 + 1))).flatMap textIn = [] :=
            List.length_eq_zero_iff.mp (by omega)
          rw [hnil, List.append_nil, hlast]
          rw [hnil] at hle
          exact List.length_eq_zero_iff.mp (Nat.le_zero.mp hle)

/-- A line that fits in the buffer is read as one. -/
theorem oneText_of_length {line : Text} (h : line.length ≤ 1023) : OneText line := by
  unfold OneText
  by_cases hline : line = []
  · rw [hline, pieces_nil]
    exact Nat.zero_le _
  · have hpieces : pieces (LINE_MAX_LEN - 2) line = [line] := pieces_of_le hline h
    rw [hpieces, List.flatMap_singleton]

/-- The texts that the loop sees are those of the lines if each line has its text in one piece. -/
theorem flatMap_textIn_iff (file : Text) :
    (reads '\n' (LINE_MAX_LEN - 2) file).flatMap textIn = (file.splitOn '\n').flatMap textIn ↔
      ∀ line ∈ file.splitOn '\n', OneText line :=
  flatMap_reads_eq_iff textIn_nil (fun line _ => textIn_newline line)
    (fun line => (textsOf_pieces line).1) (fun line => (textsOf_pieces line).2) file

/-- The jobs are those of the sections of the texts. -/
theorem jobParseFile_eq (strtod : Text → Option (ℚ × Text)) (path : String) (file : Text)
    (jobs : List JobConfig) : (jobParseFile strtod path file jobs).toOption =
      (fileJobs strtod ((reads '\n' (LINE_MAX_LEN - 2) file).flatMap textIn)).map (jobs ++ ·) := by
  have hjobs := (@JobFileState.jobsAfter_eq strtod path
    (reads '\n' (LINE_MAX_LEN - 2) file)).1 { jobs } rfl
  have hloop : (jobParseFile strtod path file jobs).toOption =
      JobFileState.jobsAfter strtod path { jobs } (reads '\n' (LINE_MAX_LEN - 2) file) := by
    unfold jobParseFile JobFileState.parseLines JobFileState.jobsAfter
    cases (reads '\n' (LINE_MAX_LEN - 2) file).foldlM (JobFileState.applyLine strtod path)
      { jobs } <;> rfl
  rw [hloop, hjobs]
  unfold fileJobs
  cases sections ((reads '\n' (LINE_MAX_LEN - 2) file).flatMap textIn) with
  | none => rfl
  | some p =>
      change ((applyAll strtod jobConfigDefaults p.1).bind fun global =>
          (sectionJobs strtod global p.2).map (jobs ++ ·)) =
        ((applyAll strtod jobConfigDefaults p.1).bind fun global =>
          sectionJobs strtod global p.2).map (jobs ++ ·)
      rw [Option.map_bind]
      rfl

/-- **A job file is read line by line** exactly when the text of every line is in one piece. -/
theorem lineByLine_iff (file : Text) :
    LineByLine file ↔ ∀ line ∈ file.splitOn '\n', OneText line := by
  refine ⟨fun h => (flatMap_textIn_iff file).mp h.1, fun h => ?_⟩
  have htexts := (flatMap_textIn_iff file).mpr h
  refine ⟨htexts, fun strtod path jobs => ?_⟩
  rw [jobParseFile_eq, htexts]

/-- The end of a long comment is read as a directive. -/
theorem lineByLine_comment :
    ¬ LineByLine ('#' :: List.replicate 1022 '-' ++ "bs=512".toList) := by
  intro h
  have hplain (c : Char) (n : ℕ) (h₁ : c ≠ '#') (h₂ : c ≠ '-') : c ∉ '#' :: List.replicate n '-' :=
    fun hc => (List.mem_cons.mp hc).elim h₁ fun hc => h₂ (List.eq_of_mem_replicate hc)
  have hterminator := hplain '\x00' 1022 (by decide) (by decide)
  have hnewline : '\n' ∉ '#' :: List.replicate 1022 '-' ++ "bs=512".toList := fun hc =>
    (List.mem_append.mp hc).elim (hplain '\n' 1022 (by decide) (by decide)) (by decide)
  have hone : OneText ('#' :: List.replicate 1022 '-' ++ "bs=512".toList) := by
    refine (flatMap_textIn_iff _).mp h.1 _ ?_
    rw [List.splitOn_eq_singleton hnewline]
    exact List.mem_singleton_self _
  have hcomment : textIn ('#' :: List.replicate 1022 '-') ≠ [] := fun hnil =>
    absurd ((textIn_eq_nil hterminator).mp hnil '#' List.mem_cons_self) (by decide)
  have hlen : ('#' :: List.replicate 1022 '-').length = LINE_MAX_LEN - 2 + 1 := by
    rw [List.length_cons, List.length_replicate]
    rfl
  have hpos := List.length_pos_iff.mpr hcomment
  have hle := length_textIn_le ('#' :: List.replicate 1022 '-' ++ "bs=512".toList)
  unfold OneText at hone
  rw [pieces_of_lt (by rw [List.length_append, hlen]; omega), List.take_left' hlen,
    List.drop_left' hlen, pieces_of_le (by decide) (by decide), List.flatMap_cons,
    List.flatMap_singleton, List.length_append] at hone
  have htail : (textIn "bs=512".toList).length = 1 := by decide
  omega

end Aura
