import Aura.Bffio.SizeText
import Mathlib.Algebra.Order.Ring.Rat

/-!
# Job configurations

`job_config_t` with its defaults, `apply_param`, which sets one parameter, and the two checks that
follow the parsing. An error is the text that goes to `stderr`.

* `applyParam` — one parameter; an unknown one is skipped with a warning.
* `jobConfigNormalize`, `jobConfigValidate` — sizes are completed, and a job is accepted or refused.

Latencies are rationals, and `strtod` is a parameter: the value it reads and what follows, or
nothing. -/

namespace Aura

/-! ## Patterns -/

/-- `rw_pattern_t`. -/
inductive RwPattern
  | RW_READ | RW_WRITE | RW_RANDREAD | RW_RANDWRITE | RW_READWRITE | RW_RANDRW
deriving DecidableEq

/-- `file_service_type_t`. -/
inductive FileServiceType
  | FST_ROUNDROBIN | FST_SEQUENTIAL | FST_RANDOM
deriving DecidableEq

/-- `strcasecmp`, and `strncasecmp` up to the terminator, as an equality. -/
def strcasecmpEq (s : Text) (name : String) : Bool := s.map Char.toLower = name.toList

/-- `rw_table`. -/
def rwTable : List (String × RwPattern) :=
  [("read", .RW_READ), ("write", .RW_WRITE), ("randread", .RW_RANDREAD),
    ("randwrite", .RW_RANDWRITE), ("readwrite", .RW_READWRITE), ("rw", .RW_READWRITE),
    ("randrw", .RW_RANDRW)]

/-- `parse_rw`. -/
def parseRw (str : Text) : Option RwPattern :=
  (rwTable.find? fun entry => strcasecmpEq str entry.1).map (·.2)

/-! ## Configurations -/

/-- `job_config_t`. -/
structure JobConfig where
  name : Text := "default".toList
  rw : RwPattern := .RW_READ
  rwSet : Bool := false
  bs : UInt64 := 4096
  size : UInt64 := 0
  filename : Text := []
  directory : Text := []
  direct : ℤ := 0
  runtimeSec : ℤ := 0
  timeBased : ℤ := 0
  rampTimeSec : ℤ := 0
  numjobs : ℤ := 1
  iodepth : ℤ := 256
  nrfiles : ℤ := 1
  filesize : UInt64 := 0
  fileServiceType : FileServiceType := .FST_ROUNDROBIN
  rwmixread : ℤ := 50
  groupReporting : ℤ := 0
  fsyncFreq : ℤ := 0
  targetP99Ms : ℚ := 0
  ringSelect : ℤ := 0
  sqpoll : ℤ := 0
deriving DecidableEq

/-- `job_config_defaults`. -/
def jobConfigDefaults : JobConfig := {}

/-- `snprintf` into a buffer of `n` bytes. -/
def snprintf (n : ℕ) (s : Text) : Text := s.take (n - 1)

/-- `PATH_MAX`. -/
abbrev PATH_MAX : ℕ := 4096

/-! ## Parameters -/

/-- `parse_int`. A value that is not a `long` is refused as `ERANGE`. -/
def parseInt (s : Text) : Option ℤ :=
  let p := IntegerParts.ofText s
  let val : ℤ := if p.sign = ['-'] then -(decimal p.digits) else decimal p.digits
  if s = [] then none
  else if ¬ (-2 ^ 63 ≤ val ∧ val < 2 ^ 63) ∨ p.digits = [] ∨ p.rest ≠ [] then none
  else if val < -2 ^ 31 ∨ 2 ^ 31 - 1 < val then none
  else some val

/-- `parse_latency`: milliseconds. -/
def parseLatency (strtod : Text → Option (ℚ × Text)) (str : Text) : Option ℚ :=
  if str = [] then none
  else
    match strtod str with
    | none => none
    | some (val, endp) =>
        if val < 0 then none
        else if endp = [] then some val
        else if strcasecmpEq (endp.take 2) "us" then some (val / 1000)
        else if strcasecmpEq (endp.take 2) "ms" then some val
        else if strcasecmpEq (endp.take 1) "s" then some (val * 1000)
        else none

/-- A parameter that is an `int`. -/
def intParam (ok : ℤ → Bool) (key value : Text) (note : String) : Except String ℤ :=
  match (parseInt value).filter ok with
  | some v => .ok v
  | none => .error ("BFFIO: invalid integer for '" ++ .ofList key ++ "': '" ++ .ofList value ++
      "'" ++ note)

/-- A flag, which may stand without a value. -/
def flagParam (key value : Text) : Except String ℤ :=
  if value = [] then .ok 1 else intParam (fun _ => true) key value ""

/-- A parameter that is a size. -/
def sizeParam (what : String) (value : Text) : Except String UInt64 :=
  if parseSize value = 0 then .error ("BFFIO: invalid " ++ what ++ " '" ++ .ofList value ++ "'")
  else .ok (parseSize value)

/-- `file_service_type`. -/
def fileServiceTypeParam (value : Text) : Except String FileServiceType :=
  if strcasecmpEq value "roundrobin" then .ok .FST_ROUNDROBIN
  else if strcasecmpEq value "sequential" then .ok .FST_SEQUENTIAL
  else if strcasecmpEq value "random" then .ok .FST_RANDOM
  else .error ("BFFIO: unknown file_service_type '" ++ .ofList value ++
    "' (use: roundrobin, sequential, random)")

/-- `ring_select`. -/
def ringSelectParam (value : Text) : Except String ℤ :=
  if strcasecmpEq value "adaptive" then .ok 0
  else if strcasecmpEq value "cpu_local" then .ok 1
  else if strcasecmpEq value "round_robin" then .ok 2
  else if strcasecmpEq value "thread_local" then .ok 3
  else .error ("BFFIO: unknown ring-select mode '" ++ .ofList value ++
    "' (use: adaptive, cpu_local, round_robin, thread_local)")

/-- `apply_param`. -/
def applyParam (strtod : Text → Option (ℚ × Text)) (job : JobConfig) (key value : Text) :
    Except String JobConfig :=
  if strcasecmpEq key "ioengine" then .ok job
  else
    match String.ofList key with
    | "rw" | "readwrite" =>
        match parseRw value with
        | some rw => .ok { job with rw, rwSet := true }
        | none => .error ("BFFIO: unknown rw pattern '" ++ .ofList value ++ "'")
    | "bs" | "blocksize" => do return { job with bs := ← sizeParam "block size" value }
    | "size" => do return { job with size := ← sizeParam "size" value }
    | "filename" => .ok { job with filename := snprintf PATH_MAX value }
    | "directory" => .ok { job with directory := snprintf PATH_MAX value }
    | "direct" => do return { job with direct := ← intParam (fun _ => true) key value "" }
    | "runtime" => do return { job with runtimeSec := ← intParam (0 ≤ ·) key value "" }
    | "time_based" => do return { job with timeBased := ← flagParam key value }
    | "ramp_time" => do return { job with rampTimeSec := ← intParam (0 ≤ ·) key value "" }
    | "numjobs" => do return { job with numjobs := ← intParam (1 ≤ ·) key value "" }
    | "iodepth" => do return { job with iodepth := ← intParam (1 ≤ ·) key value "" }
    | "rwmixread" => do
        return { job with
          rwmixread := ← intParam (fun v => 0 ≤ v && v ≤ 100) key value " (0-100)" }
    | "group_reporting" => do return { job with groupReporting := ← flagParam key value }
    | "fsync" => do return { job with fsyncFreq := ← intParam (0 ≤ ·) key value "" }
    | "name" => .ok { job with name := snprintf 128 value }
    | "target_p99" | "target-p99" =>
        match parseLatency strtod value with
        | some ms => .ok { job with targetP99Ms := ms }
        | none => .error ("BFFIO: invalid target-p99 latency '" ++ .ofList value ++ "'")
    | "nrfiles" => do return { job with nrfiles := ← intParam (1 ≤ ·) key value "" }
    | "filesize" => do return { job with filesize := ← sizeParam "filesize" value }
    | "file_service_type" => do
        return { job with fileServiceType := ← fileServiceTypeParam value }
    | "ring_select" | "ring-select" => do return { job with ringSelect := ← ringSelectParam value }
    | "sqpoll" => do return { job with sqpoll := ← intParam (fun _ => true) key value "" }
    | _ => .ok job

/-! ## Checks -/

/-- `job_config_normalize`. -/
def jobConfigNormalize (job : JobConfig) : JobConfig :=
  if job.nrfiles ≤ 1 then job
  else if job.filesize > 0 then
    if job.filesize > 18446744073709551615 / UInt64.ofInt job.nrfiles then
      { job with size := 18446744073709551615 }
    else { job with size := job.filesize * UInt64.ofInt job.nrfiles }
  else if job.size > 0 then { job with filesize := job.size / UInt64.ofInt job.nrfiles }
  else job

/-- `job_config_validate`: the error, if there is one. -/
def jobConfigValidate (job : JobConfig) : Option String :=
  let text (msg : String) := some ("BFFIO: job '" ++ String.ofList job.name ++ "': " ++ msg)
  if ¬ job.rwSet then text "'rw' parameter is required"
  else if job.size = 0 ∧ ¬ (job.runtimeSec > 0 ∧ job.timeBased ≠ 0) then
    text "must specify 'size' or 'runtime' with 'time_based'"
  else if job.filename = [] ∧ job.directory = [] then
    text "must specify 'filename' or 'directory'"
  else if job.numjobs < 1 then text "numjobs must be >= 1"
  else if job.iodepth < 1 then text "iodepth must be >= 1"
  else if job.rwmixread < 0 ∨ job.rwmixread > 100 then text "rwmixread must be 0-100"
  else if job.bs = 0 then text "block size must be > 0"
  else if job.nrfiles > 1 ∧ job.filename ≠ [] then
    text "nrfiles > 1 requires --directory (--filename uses a single explicit file)"
  else none

/-- What an accepted job satisfies. -/
theorem jobConfigValidate_accepts {job : JobConfig} (h : jobConfigValidate job = none) :
    1 ≤ job.numjobs ∧ 1 ≤ job.iodepth ∧ job.bs ≠ 0 := by
  unfold jobConfigValidate at h
  dsimp only at h
  split_ifs at h
  exact ⟨by omega, by omega, by assumption⟩

end Aura
