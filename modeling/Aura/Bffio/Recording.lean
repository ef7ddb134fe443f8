import Mathlib.Algebra.BigOperators.Group.Finset.Piecewise
import Mathlib.Data.UInt
import Aura.Bffio.Percentile

/-!
# Recording a latency

`stats_record_io` of `stats.c` and `stats_record_io_fast` of `stats.h` are two copies of one
function. Both narrow the quotient of the latency to an `int` before they compare it with the number
of buckets.

* `statsRecordIo_eq` — the two copies do the same to every statistics state.
* `RecordsWell` — one bucket of the array or the overflow is counted up, and from the maximum on it
  is the overflow.
* **`recording_iff`** — a latency is recorded well unless its quotient is past the last bucket and
  the narrowed one is not; runs of recordings without such latencies count every sample once.
-/

namespace Aura

/-! ## The copy in `stats.c` -/

namespace ThreadStats

/-- `atomic_fetch_add_explicit` on a counter. -/
def fetchAdd (s : ThreadStats) (k : StatsCounter) (n : UInt64) : ThreadStats :=
  Function.update s k (s k + n)

/-- The loop on `lat_min_ns`, with `cur` loaded and so many compare-and-swaps that fail spuriously.
A failure loads the counter again. -/
def lowerMinLoop (s : ThreadStats) (v : UInt64) : ℕ → UInt64 → ThreadStats
  | 0, cur => if v < cur then Function.update s .latMinNs v else s
  | n + 1, cur => if v < cur then s.lowerMinLoop v n (s .latMinNs) else s

/-- The loop on `lat_max_ns`. -/
def raiseMaxLoop (s : ThreadStats) (v : UInt64) : ℕ → UInt64 → ThreadStats
  | 0, cur => if cur < v then Function.update s .latMaxNs v else s
  | n + 1, cur => if cur < v then s.raiseMaxLoop v n (s .latMaxNs) else s

end ThreadStats

/-- `stats_record_io`, with the numbers of spurious failures of its two loops. -/
def statsRecordIo (failures : ℕ × ℕ) (s : ThreadStats) (latencyNs bytes : UInt64)
    (isWrite : Bool) : ThreadStats :=
  let s :=
    if isWrite then (s.fetchAdd .writeOps 1).fetchAdd .writeBytes bytes
    else (s.fetchAdd .readOps 1).fetchAdd .readBytes bytes
  let latencyUs := latencyNs / 1000
  let bucket := toInt32 (latencyUs / UInt64.ofNat LAT_HIST_BUCKET_US).toNat
  let s :=
    if bucket ≥ LAT_HIST_BUCKETS then s.fetchAdd .latOverflow 1
    else s.fetchAdd (.latHist bucket) 1
  let s := s.lowerMinLoop latencyNs failures.1 (s .latMinNs)
  let s := s.raiseMaxLoop latencyNs failures.2 (s .latMaxNs)
  (s.fetchAdd .latSumNs latencyNs).fetchAdd .latCount 1

/-! ## The two copies agree -/

section

variable (s : ThreadStats) (v : UInt64)

theorem StatsUpdate.run_add (k : StatsCounter) (n : UInt64) :
    StatsUpdate.run s (.add k n.toNat) = s.fetchAdd k n := by
  have hsum : UInt64.ofInt ((s k).toNat + n.toNat) = s k + n := by
    rw [UInt64.ofInt_add, UInt64.ofInt_toNat, UInt64.ofInt_toNat]
  exact congrArg (Function.update s k) hsum

theorem StatsUpdate.run_lowerMin (n : ℕ) :
    s.lowerMinLoop v n (s .latMinNs) = StatsUpdate.run s (.lowerMin v.toNat) := by
  have hstep : StatsUpdate.run s (.lowerMin v.toNat) =
      if v < s .latMinNs then Function.update s .latMinNs v else s := by
    unfold run store
    simp only [counter, Nat.cast_lt, ← UInt64.lt_iff_toNat_lt]
    split_ifs
    · exact congrArg (Function.update s _) (UInt64.ofInt_toNat v)
    · rfl
  rw [hstep]
  induction n with
  | zero => rfl
  | succ n ih =>
      rw [ThreadStats.lowerMinLoop, ih]
      split_ifs <;> rfl

theorem StatsUpdate.run_raiseMax (n : ℕ) :
    s.raiseMaxLoop v n (s .latMaxNs) = StatsUpdate.run s (.raiseMax v.toNat) := by
  have hstep : StatsUpdate.run s (.raiseMax v.toNat) =
      if s .latMaxNs < v then Function.update s .latMaxNs v else s := by
    unfold run store
    simp only [counter, Nat.cast_lt, ← UInt64.lt_iff_toNat_lt]
    split_ifs
    · exact congrArg (Function.update s _) (UInt64.ofInt_toNat v)
    · rfl
  rw [hstep]
  induction n with
  | zero => rfl
  | succ n ih =>
      rw [ThreadStats.raiseMaxLoop, ih]
      split_ifs <;> rfl

end

/-- **The two copies do the same**, whatever fails spuriously. -/
theorem statsRecordIo_eq (failures : ℕ × ℕ) (s : ThreadStats) (latencyNs bytes : UInt64)
    (isWrite : Bool) : statsRecordIo failures s latencyNs bytes isWrite =
      (statsRecordIoFast latencyNs.toNat bytes.toNat isWrite).foldl StatsUpdate.run s := by
  have hone : ∀ (s : ThreadStats) k, StatsUpdate.run s (.add k 1) = s.fetchAdd k 1 :=
    fun s k => StatsUpdate.run_add s k 1
  have hbucket : toInt32 (latencyNs / 1000 / UInt64.ofNat LAT_HIST_BUCKET_US).toNat =
      latencyBucket latencyNs.toNat := by
    rw [latencyBucket, UInt64.toNat_div, UInt64.toNat_div]
    rfl
  unfold statsRecordIo statsRecordIoFast statsRecordIoCountFast
  rw [List.foldl_append]
  simp only [hbucket, StatsUpdate.run_lowerMin, StatsUpdate.run_raiseMax, List.foldl_cons,
    List.foldl_nil, StatsUpdate.run_add, hone]
  cases isWrite with
  | true =>
      split_ifs <;> simp only [List.foldl_cons, List.foldl_nil, hone, StatsUpdate.run_add]
  | false =>
      split_ifs <;> simp only [List.foldl_cons, List.foldl_nil, hone, StatsUpdate.run_add]

/-! ## What a recording counts up -/

/-- The counter that a latency goes to. -/
def recordedAt (latencyNs : UInt64) : StatsCounter :=
  if latencyBucket latencyNs.toNat ≥ LAT_HIST_BUCKETS then .latOverflow
  else .latHist (latencyBucket latencyNs.toNat)

/-- The latency is not past the last bucket, or its narrowed quotient is. -/
def QuotientFits (latencyNs : UInt64) : Prop :=
  latencyNs.toNat / 50000 < 200 ∨ 200 ≤ toInt32 (latencyNs.toNat / 50000 : ℕ)

instance (latencyNs : UInt64) : Decidable (QuotientFits latencyNs) :=
  inferInstanceAs (Decidable (_ ∨ _))

section

variable {l : UInt64} {s : ThreadStats} {k : StatsCounter}

theorem latencyBucket_eq (l : UInt64) :
    latencyBucket l.toNat = toInt32 (l.toNat / 50000 : ℕ) := by
  rw [latencyBucket, Nat.div_div_eq_div_mul]
  rfl

/-- Updates of other counters leave a counter alone. -/
theorem foldl_run_of_ne {us : List StatsUpdate} (h : ∀ u ∈ us, u.counter ≠ k) (s : ThreadStats) :
    us.foldl StatsUpdate.run s k = s k := by
  induction us generalizing s with
  | nil => rfl
  | cons u us ih =>
      rw [List.foldl_cons, ih fun x hx => h x (List.mem_cons_of_mem u hx),
        StatsUpdate.run_of_ne (h u List.mem_cons_self)]

/-- The counts of operations and bytes are no part of the histogram. -/
theorem countFast_counter (bytes : ℕ) (isWrite : Bool) :
    ∀ u ∈ statsRecordIoCountFast bytes isWrite, ¬ IsClassCounter u.counter ∧
      u.counter ≠ .latCount := by
  unfold statsRecordIoCountFast
  cases isWrite <;> simp [StatsUpdate.counter, IsClassCounter]

/-- The update of the histogram is one of the counter that the latency goes to. -/
theorem histogram_update (l : UInt64) :
    (if latencyBucket l.toNat ≥ LAT_HIST_BUCKETS then StatsUpdate.add .latOverflow 1
      else .add (.latHist (latencyBucket l.toNat)) 1) = .add (recordedAt l) 1 := by
  unfold recordedAt
  split_ifs <;> rfl

/-- **A recording counts up one counter of the histogram**, the one that the latency goes to. -/
theorem foldl_fast_class (hk : IsClassCounter k) (s : ThreadStats) (l : UInt64) (bytes : ℕ)
    (isWrite : Bool) : (statsRecordIoFast l.toNat bytes isWrite).foldl StatsUpdate.run s k =
      s k + if recordedAt l = k then 1 else 0 := by
  have hrest : ∀ u ∈ [StatsUpdate.lowerMin l.toNat, .raiseMax l.toNat, .add .latSumNs l.toNat,
      .add .latCount 1], u.counter ≠ k := by
    rcases hk with ⟨b, rfl⟩ | rfl <;> simp [StatsUpdate.counter]
  unfold statsRecordIoFast
  dsimp only
  rw [List.foldl_append, List.foldl_cons, foldl_run_of_ne hrest, histogram_update]
  have hcounts := foldl_run_of_ne (k := k)
    (fun u hu heq => (countFast_counter bytes isWrite u hu).1 (heq ▸ hk)) s
  by_cases hl : recordedAt l = k
  · rw [if_pos hl, ← hl, show (1 : ℤ) = (1 : UInt64).toNat from rfl, StatsUpdate.run_add,
      ThreadStats.fetchAdd, Function.update_self, hl, hcounts]
  · rw [if_neg hl, StatsUpdate.run_of_ne (u := .add (recordedAt l) 1) hl, hcounts, UInt64.add_zero]

/-- Every recording is counted in `lat_count`. -/
theorem foldl_fast_latCount (s : ThreadStats) (l : UInt64) (bytes : ℕ) (isWrite : Bool) :
    (statsRecordIoFast l.toNat bytes isWrite).foldl StatsUpdate.run s .latCount =
      s .latCount + 1 := by
  have hfirst : ∀ u ∈ statsRecordIoCountFast bytes isWrite ++ [.add (recordedAt l) 1,
      .lowerMin l.toNat, .raiseMax l.toNat, .add .latSumNs l.toNat], u.counter ≠ .latCount := by
    intro u hu
    rcases List.mem_append.mp hu with hu | hu
    · exact (countFast_counter bytes isWrite u hu).2
    · have hl : recordedAt l ≠ .latCount := by
        unfold recordedAt
        split_ifs <;> nofun
      simp only [List.mem_cons, List.not_mem_nil, or_false] at hu
      rcases hu with rfl | rfl | rfl | rfl
      · exact hl
      · nofun
      · nofun
      · nofun
  have hlist : statsRecordIoFast l.toNat bytes isWrite = (statsRecordIoCountFast bytes isWrite ++
      [.add (recordedAt l) 1, .lowerMin l.toNat, .raiseMax l.toNat, .add .latSumNs l.toNat]) ++
        [.add .latCount ((1 : UInt64).toNat)] := by
    rw [List.append_assoc, ← histogram_update]
    rfl
  rw [hlist, List.foldl_append, List.foldl_cons, List.foldl_nil, StatsUpdate.run_add,
    ThreadStats.fetchAdd, Function.update_self, foldl_run_of_ne hfirst]

end

/-! ## Which latencies are recorded well -/

/-- A bucket of the array, or the overflow. -/
def InHistogram (k : StatsCounter) : Prop :=
  k = .latOverflow ∨ ∃ b : ℤ, 0 ≤ b ∧ b < LAT_HIST_BUCKETS ∧ k = .latHist b

/-- `LAT_HIST_MAX_US`. -/
abbrev LAT_HIST_MAX_US : ℕ := 200 * LAT_HIST_BUCKET_US

/-- What is said of the recording of a latency: whatever the state, both functions count up the same
one of the buckets and the overflow and no other place in or around the array, and from the maximum
on that is the overflow. -/
def RecordsWell (latencyNs : UInt64) : Prop :=
  ∃ k, InHistogram k ∧ (LAT_HIST_MAX_US ≤ latencyNs.toNat / 1000 → k = .latOverflow) ∧
    ∀ (failures : ℕ × ℕ) (s : ThreadStats) (bytes : UInt64) (isWrite : Bool) (c : StatsCounter),
      IsClassCounter c →
        statsRecordIo failures s latencyNs bytes isWrite c = s c + (if k = c then 1 else 0) ∧
        (statsRecordIoFast latencyNs.toNat bytes.toNat isWrite).foldl StatsUpdate.run s c =
          s c + if k = c then 1 else 0

/-- A call of one of the two functions. -/
structure Recording where
  fast : Bool
  failures : ℕ × ℕ := (0, 0)
  latencyNs : UInt64
  bytes : UInt64
  isWrite : Bool

/-- What the call does. -/
def Recording.run (s : ThreadStats) (r : Recording) : ThreadStats :=
  if r.fast then
    (statsRecordIoFast r.latencyNs.toNat r.bytes.toNat r.isWrite).foldl StatsUpdate.run s
  else statsRecordIo r.failures s r.latencyNs r.bytes r.isWrite

/-- The sum of all buckets and the overflow. -/
def ThreadStats.recorded (s : ThreadStats) : UInt64 :=
  ∑ i ∈ Finset.range 200, s (.latHist i) + s .latOverflow

variable {l : UInt64} {k : StatsCounter}

theorem recordedAt_class (l : UInt64) : IsClassCounter (recordedAt l) := by
  unfold recordedAt
  split_ifs
  · exact .inr rfl
  · exact .inl ⟨_, rfl⟩

theorem LAT_HIST_MAX_US_le_iff (l : UInt64) :
    LAT_HIST_MAX_US ≤ l.toNat / 1000 ↔ 200 ≤ l.toNat / 50000 := by
  change 10000 ≤ l.toNat / 1000 ↔ _
  omega

/-- A latency below the maximum goes to the bucket of its quotient. -/
theorem recordedAt_of_lt (h : l.toNat / 50000 < 200) :
    recordedAt l = .latHist (l.toNat / 50000 : ℕ) := by
  have hbucket : latencyBucket l.toNat = (l.toNat / 50000 : ℕ) := by
    rw [latencyBucket_eq]
    exact toInt32_of_lt (Int.natCast_nonneg _) (by omega)
  unfold recordedAt LAT_HIST_BUCKETS
  rw [hbucket, if_neg (by omega)]

/-- **A latency is recorded well exactly when its quotient fits.** -/
theorem recordsWell_iff (l : UInt64) : RecordsWell l ↔ QuotientFits l := by
  rw [QuotientFits, ← latencyBucket_eq]
  constructor
  · rintro ⟨k, hk, hmax, hrun⟩
    by_contra hnot
    obtain ⟨hlarge, hsmall⟩ := not_or.mp hnot
    have hover := hmax ((LAT_HIST_MAX_US_le_iff l).mpr (not_lt.mp hlarge))
    -- The counter that goes up is a bucket, not the overflow.
    have hcount := (hrun (0, 0) statsInit 0 false (recordedAt l) (recordedAt_class l)).2
    rw [foldl_fast_class (recordedAt_class l), if_pos rfl, hover] at hcount
    have hne : StatsCounter.latOverflow ≠ recordedAt l := by
      unfold recordedAt
      rw [if_neg hsmall]
      nofun
    rw [if_neg hne] at hcount
    exact absurd (add_left_cancel hcount) (by decide)
  · intro hfits
    refine ⟨recordedAt l, ?_, ?_, fun failures s bytes isWrite c hc => ?_⟩
    · rcases hfits with hsmall | hlarge
      · rw [recordedAt_of_lt hsmall]
        exact .inr ⟨_, Int.natCast_nonneg _, Int.ofNat_lt.mpr hsmall, rfl⟩
      · exact .inl (if_pos hlarge)
    · rw [LAT_HIST_MAX_US_le_iff]
      intro hmax
      exact if_pos (hfits.resolve_left (not_lt.mpr hmax))
    · rw [statsRecordIo_eq, foldl_fast_class hc]
      exact ⟨rfl, rfl⟩

/-! ## Runs of recordings -/

/-- **A recording that fits adds one to the histogram and to the count.** -/
theorem recorded_run (hfits : QuotientFits l) (r : Recording) (hr : r.latencyNs = l)
    (s : ThreadStats) : (r.run s).recorded = s.recorded + 1 ∧
      r.run s .latCount = s .latCount + 1 := by
  have hrun : r.run s =
      (statsRecordIoFast r.latencyNs.toNat r.bytes.toNat r.isWrite).foldl StatsUpdate.run s := by
    unfold Recording.run
    split_ifs
    · rfl
    · exact statsRecordIo_eq _ _ _ _ _
  subst hr
  refine ⟨?_, by rw [hrun, foldl_fast_latCount]⟩
  have hclass {k : StatsCounter} (hk : IsClassCounter k) : r.run s k =
      s k + if recordedAt r.latencyNs = k then 1 else 0 := by
    rw [hrun, foldl_fast_class hk]
  have hbuckets : ∀ i ∈ Finset.range 200, r.run s (.latHist (i : ℕ)) =
      s (.latHist (i : ℕ)) + if recordedAt r.latencyNs = .latHist (i : ℕ) then 1 else 0 :=
    fun i _ => hclass (.inl ⟨i, rfl⟩)
  unfold ThreadStats.recorded
  rw [hclass (.inr rfl), Finset.sum_congr rfl hbuckets, Finset.sum_add_distrib]
  rw [QuotientFits, ← latencyBucket_eq] at hfits
  by_cases hsmall : r.latencyNs.toNat / 50000 < 200
  · have hcell (i : ℕ) : recordedAt r.latencyNs = .latHist i ↔ i = r.latencyNs.toNat / 50000 := by
      rw [recordedAt_of_lt hsmall]
      exact ⟨fun h => (Int.ofNat.inj (StatsCounter.latHist.inj h)).symm, fun h => by rw [h]⟩
    simp only [hcell, Finset.sum_ite_eq', Finset.mem_range, hsmall, if_true]
    rw [if_neg (by rw [recordedAt_of_lt hsmall]; nofun), add_zero, add_right_comm]
  · have hcell : recordedAt r.latencyNs = .latOverflow := if_pos (hfits.resolve_left hsmall)
    rw [hcell, if_pos rfl, Finset.sum_eq_zero fun i _ => if_neg nofun, add_zero, add_assoc]

/-- **Recording is total and conserving for the latencies whose quotient fits**, and for no others:
such a latency counts up one bucket or the overflow, the same in both functions, and in every run of
recordings of such latencies the buckets and the overflow add up to `lat_count`. -/
theorem recording_iff (l : UInt64) (rs : List Recording) : (RecordsWell l ↔ QuotientFits l) ∧
    ((∀ r ∈ rs, QuotientFits r.latencyNs) →
      (rs.foldl Recording.run statsInit).recorded =
        rs.foldl Recording.run statsInit .latCount) := by
  refine ⟨recordsWell_iff l, fun hrs => ?_⟩
  have hkeep : ∀ s : ThreadStats, s.recorded = s .latCount →
      (rs.foldl Recording.run s).recorded = rs.foldl Recording.run s .latCount := by
    induction rs with
    | nil => exact fun s hs => hs
    | cons r rs ih =>
        intro s hs
        obtain ⟨hsum, hcount⟩ := recorded_run (hrs r List.mem_cons_self) r rfl s
        exact ih (fun x hx => hrs x (List.mem_cons_of_mem r hx)) _ (by rw [hsum, hcount, hs])
  refine hkeep statsInit ?_
  have hzero : ∑ i ∈ Finset.range 200, statsInit (.latHist (i : ℕ)) = 0 :=
    Finset.sum_eq_zero fun _ _ => rfl
  rw [ThreadStats.recorded, hzero]
  rfl

/-- Two recordings of a microsecond and one of an hour. -/
theorem recording_sample : RecordsWell 1000 ∧
    ([{ fast := true, latencyNs := 1000, bytes := 512, isWrite := false },
      { fast := false, latencyNs := 1000, bytes := 512, isWrite := true },
      { fast := false, latencyNs := 3600000000000, bytes := 0, isWrite := true }].foldl
        Recording.run statsInit).recorded = 3 := by
  refine ⟨(recording_iff 1000 []).1.mpr (by decide), ?_⟩
  rw [(recording_iff 1000 _).2 (by decide)]
  simp only [List.foldl_cons, List.foldl_nil, Recording.run, if_true, Bool.false_eq_true, if_false,
    statsRecordIo_eq, foldl_fast_latCount]
  rfl

/-- After thirty hours the quotient is negative, and the place counted up is before the array. -/
theorem recording_outside : ¬ RecordsWell 108000000000000 ∧
    recordedAt 108000000000000 = .latHist (-2134967296) := by
  refine ⟨fun h => ?_, by decide⟩
  exact absurd ((recordsWell_iff _).mp h) (by decide)

end Aura
