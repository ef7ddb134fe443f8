import Aura.Bffio.Stats
import Mathlib.Data.Multiset.Fold
import Mathlib.Data.Multiset.Bind

/-!
# Aggregated statistics

A counter of `thread_stats_t` is a sum, a minimum or a maximum, and `stats_aggregate` merges the
counters of the workers as `stats_record_io` merges in one operation more. All of it is a fold of
`StatsCounter.merge` over a multiset of operations, so it does not matter how these are split among
the workers, or in which order they come.

* `recordAll_eq`, `statsAggregate_eq` — the counters as folds.
* `aggregate_eq_recordAll` — aggregated statistics are those of all operations together.
-/

namespace Aura

/-! ## Recording and merging -/

/-- The counters of `thread_stats_t`, as 64-bit words. -/
abbrev ThreadStats := StatsCounter → UInt64

/-- `stats_init`. -/
def statsInit : ThreadStats := fun k => if k = .latMinNs then 18446744073709551615 else 0

/-- An update of a counter, with the load and the store next to each other. -/
def StatsUpdate.run (s : ThreadStats) (u : StatsUpdate) : ThreadStats :=
  match u.store (s u.counter).toNat with
  | some v => Function.update s u.counter (UInt64.ofInt v)
  | none => s

/-- A completed operation as it is recorded; its latency is not known if it was not sampled. -/
structure CompletedIo where
  latencyNs : Option UInt64
  bytes : UInt64
  isWrite : Bool

/-- The updates of `stats_record_io` and `stats_record_io_count`. -/
def CompletedIo.updates (io : CompletedIo) : List StatsUpdate :=
  match io.latencyNs with
  | some latency => statsRecordIoFast latency.toNat io.bytes.toNat io.isWrite
  | none => statsRecordIoCountFast io.bytes.toNat io.isWrite

/-- The statistics of a thread that has recorded some operations. -/
def recordAll (ios : List CompletedIo) : ThreadStats :=
  ios.foldl (fun s io => io.updates.foldl StatsUpdate.run s) statsInit

/-- What `stats_aggregate` does with one of the threads. -/
def aggregateUpdates (src : ThreadStats) : List StatsUpdate :=
  [.add .readOps (src .readOps).toNat, .add .writeOps (src .writeOps).toNat,
    .add .readBytes (src .readBytes).toNat, .add .writeBytes (src .writeBytes).toNat,
    .add .errors (src .errors).toNat] ++
  (List.range 200).map (fun i : ℕ => .add (.latHist i) (src (.latHist i)).toNat) ++
  [.add .latOverflow (src .latOverflow).toNat, .lowerMin (src .latMinNs).toNat,
    .raiseMax (src .latMaxNs).toNat, .add .latSumNs (src .latSumNs).toNat,
    .add .latCount (src .latCount).toNat]

/-- `stats_aggregate`. -/
def statsAggregate (perThread : List ThreadStats) : ThreadStats :=
  perThread.foldl (fun out src => (aggregateUpdates src).foldl StatsUpdate.run out) statsInit

/-! ## Percentiles -/

/-- The first bucket at which the count of the samples reaches the threshold. -/
def firstReaching (threshold : ℚ) : List UInt64 → UInt64 → Option ℕ
  | [], _ => none
  | count :: counts, cumulative =>
      if threshold ≤ ((cumulative + count).toNat : ℚ) then some 0
      else (firstReaching threshold counts (cumulative + count)).map (· + 1)

namespace ThreadStats

variable (s : ThreadStats)

/-- `lat_hist`. -/
def latHist : List UInt64 := (List.range 200).map fun i : ℕ => s (.latHist i)

/-- `stats_percentile`, with exact quotients for the doubles. -/
def statsPercentile (pct : ℚ) : UInt64 :=
  let grandTotal := s.latHist.foldl (· + ·) 0 + s .latOverflow
  if grandTotal = 0 then 0
  else
    match firstReaching (pct / 100 * grandTotal.toNat) s.latHist 0 with
    | some i => (UInt64.ofNat i + 1) * UInt64.ofNat LAT_HIST_BUCKET_US * 1000
    | none => 200 * UInt64.ofNat LAT_HIST_BUCKET_US * 1000

end ThreadStats

/-! ## Counters as folds -/

namespace StatsCounter

/-- How a counter takes in another value. -/
def merge (k : StatsCounter) (x y : UInt64) : UInt64 :=
  match k with
  | .latMinNs => if y < x then y else x
  | .latMaxNs => if x < y then y else x
  | _ => x + y

/-- The value that changes nothing. -/
def unit (k : StatsCounter) : UInt64 := if k = .latMinNs then 18446744073709551615 else 0

variable {k : StatsCounter}

instance : Std.Commutative k.merge where
  comm x y := by
    cases k with
    | latMinNs | latMaxNs =>
        simp only [merge, UInt64.lt_iff_toNat_lt]
        split_ifs <;> rw [← UInt64.toNat_inj] <;> omega
    | _ => exact UInt64.add_comm x y

instance : Std.Associative k.merge where
  assoc x y z := by
    cases k with
    | latMinNs | latMaxNs =>
        simp only [merge, UInt64.lt_iff_toNat_lt]
        split_ifs <;> first | rfl | rw [← UInt64.toNat_inj]; omega
    | _ => exact UInt64.add_assoc x y z

theorem merge_unit (x : UInt64) : k.merge x k.unit = x := by
  cases k with
  | latMinNs =>
      refine if_neg fun hlt => ?_
      have hmax := x.toNat_lt
      have hunit : (18446744073709551615 : UInt64).toNat = 18446744073709551615 := rfl
      rw [UInt64.lt_iff_toNat_lt] at hlt
      change (18446744073709551615 : UInt64).toNat < _ at hlt
      omega
  | latMaxNs =>
      change (if x < 0 then 0 else x) = x
      refine if_neg fun hlt => ?_
      rw [UInt64.lt_iff_toNat_lt] at hlt
      exact Nat.not_lt_zero _ hlt
  | _ => exact UInt64.add_zero x

/-- The counters that `stats_aggregate` merges. -/
def Aggregated : StatsCounter → Prop
  | .inflight => False
  | .latHist bucket => 0 ≤ bucket ∧ bucket < 200
  | _ => True

end StatsCounter

theorem UInt64.ofInt_toNat (x : UInt64) : UInt64.ofInt x.toNat = x := by
  have hmod : ((x.toNat : ℤ) % 2 ^ 64).toNat = x.toNat := by
    have hlt := x.toNat_lt
    omega
  unfold UInt64.ofInt
  rw [hmod, UInt64.ofNat_toNat]

namespace StatsUpdate

/-- What an update brings to its counter. -/
def value : StatsUpdate → UInt64
  | add _ n => UInt64.ofInt n
  | lowerMin v | raiseMax v => UInt64.ofInt v

/-- Sums are added to, and minima and maxima are 64-bit words. -/
def Proper : StatsUpdate → Prop
  | add k _ => k ≠ .latMinNs ∧ k ≠ .latMaxNs
  | lowerMin v | raiseMax v => ∃ x : UInt64, v = x.toNat

/-- What a list of updates brings to a counter. -/
def valuesAt (k : StatsCounter) (us : List StatsUpdate) : List UInt64 :=
  (us.filter (·.counter = k)).map value

variable {s : ThreadStats} {u : StatsUpdate} {us : List StatsUpdate} {k : StatsCounter}

theorem valuesAt_cons (u : StatsUpdate) (us : List StatsUpdate) :
    valuesAt k (u :: us) =
      if u.counter = k then value u :: valuesAt k us else valuesAt k us := by
  unfold valuesAt
  by_cases hk : u.counter = k
  · rw [List.filter_cons, if_pos (decide_eq_true hk), if_pos hk, List.map_cons]
  · rw [List.filter_cons, if_neg (mt of_decide_eq_true hk), if_neg hk]

theorem run_self (h : u.Proper) : run s u u.counter = u.counter.merge (s u.counter) u.value := by
  unfold run
  cases u with
  | add k n =>
      have hsum : UInt64.ofInt ((s k).toNat + n) = s k + UInt64.ofInt n := by
        rw [UInt64.ofInt_add, UInt64.ofInt_toNat]
      refine (Function.update_self _ _ _).trans (hsum.trans ?_)
      obtain ⟨hmin, hmax⟩ := h
      cases k with
      | latMinNs => exact absurd rfl hmin
      | latMaxNs => exact absurd rfl hmax
      | _ => rfl
  | lowerMin v =>
      obtain ⟨x, rfl⟩ := h
      change _ = if UInt64.ofInt x.toNat < s .latMinNs then UInt64.ofInt x.toNat else s .latMinNs
      dsimp only [store, counter]
      rw [UInt64.ofInt_toNat]
      by_cases hlt : x < s .latMinNs
      · rw [if_pos hlt, if_pos (Int.ofNat_lt.mpr (UInt64.lt_iff_toNat_lt.mp hlt))]
        exact (Function.update_self _ _ _).trans (UInt64.ofInt_toNat x)
      · have hcast (h : (_ : ℤ) < _) := hlt (UInt64.lt_iff_toNat_lt.mpr (Int.ofNat_lt.mp h))
        rw [if_neg hlt, if_neg hcast]
  | raiseMax v =>
      obtain ⟨x, rfl⟩ := h
      change _ = if s .latMaxNs < UInt64.ofInt x.toNat then UInt64.ofInt x.toNat else s .latMaxNs
      dsimp only [store, counter]
      rw [UInt64.ofInt_toNat]
      by_cases hlt : s .latMaxNs < x
      · rw [if_pos hlt, if_pos (Int.ofNat_lt.mpr (UInt64.lt_iff_toNat_lt.mp hlt))]
        exact (Function.update_self _ _ _).trans (UInt64.ofInt_toNat x)
      · have hcast (h : (_ : ℤ) < _) := hlt (UInt64.lt_iff_toNat_lt.mpr (Int.ofNat_lt.mp h))
        rw [if_neg hlt, if_neg hcast]

theorem run_of_ne (hk : u.counter ≠ k) : run s u k = s k := by
  unfold run
  cases u.store (s u.counter).toNat with
  | none => rfl
  | some v => exact Function.update_of_ne hk.symm _ _

/-- **A counter after a list of updates**: what they bring to it is merged. -/
theorem foldl_run (h : ∀ u ∈ us, u.Proper) (s : ThreadStats) :
    us.foldl run s k = (valuesAt k us).foldl k.merge (s k) := by
  induction us generalizing s with
  | nil => rfl
  | cons u us ih =>
      have hrest := ih (fun x hx => h x (List.mem_cons_of_mem u hx)) (run s u)
      rw [List.foldl_cons, hrest, valuesAt_cons]
      by_cases hk : u.counter = k
      · rw [if_pos hk, List.foldl_cons, ← hk, run_self (h u List.mem_cons_self)]
      · rw [if_neg hk, run_of_ne hk]

theorem valuesAt_flatMap {α : Type} (f : α → List StatsUpdate) (xs : List α) :
    valuesAt k (xs.flatMap f) = xs.flatMap fun x => valuesAt k (f x) := by
  unfold valuesAt
  rw [List.filter_flatMap, List.map_flatMap]

theorem valuesAt_append (us vs : List StatsUpdate) :
    valuesAt k (us ++ vs) = valuesAt k us ++ valuesAt k vs := by
  unfold valuesAt
  rw [List.filter_append, List.map_append]

/-- The one value of an update of a bucket. -/
theorem valuesAt_range {j n : ℕ} (f : ℕ → UInt64) (hj : j < n) :
    valuesAt (.latHist j) ((List.range n).map fun i : ℕ => .add (.latHist i) (f i).toNat) =
      [f j] := by
  have hfilter : (List.range n).filter (fun i => decide (i = j)) = [j] := by
    rw [List.filter_eq, List.count_eq_one_of_mem List.nodup_range (List.mem_range.mpr hj)]
    rfl
  have hsame : (fun i : ℕ => decide ((StatsUpdate.add (.latHist i) (f i).toNat).counter =
      .latHist j)) = fun i => decide (i = j) :=
    funext fun i => decide_eq_decide.mpr ⟨fun h => Int.ofNat.inj (StatsCounter.latHist.inj h),
      fun h => congrArg (fun i : ℕ => StatsCounter.latHist i) h⟩
  unfold valuesAt
  rw [List.filter_map]
  change List.map value (List.map _ ((List.range n).filter fun i : ℕ =>
    decide ((StatsUpdate.add (.latHist i) (f i).toNat).counter = .latHist j))) = _
  rw [hsame, hfilter]
  exact congrArg (fun x => [x]) (UInt64.ofInt_toNat _)

/-- No bucket is another counter. -/
theorem valuesAt_range_of_ne {n : ℕ} (f : ℕ → UInt64) (hk : ∀ b, k ≠ .latHist b) :
    valuesAt k ((List.range n).map fun i : ℕ => .add (.latHist i) (f i).toNat) = [] := by
  unfold valuesAt
  rw [List.filter_eq_nil_iff.mpr fun u hu => ?_, List.map_nil]
  obtain ⟨i, -, rfl⟩ := List.mem_map.mp hu
  exact fun h => hk i (of_decide_eq_true h).symm

end StatsUpdate

open StatsUpdate

/-! ## Recording -/

variable {k : StatsCounter} {ios : List CompletedIo} {ss : List ThreadStats}

theorem CompletedIo.updates_proper (io : CompletedIo) : ∀ u ∈ io.updates, u.Proper := by
  have hcount : ∀ u ∈ statsRecordIoCountFast io.bytes.toNat io.isWrite, u.Proper := by
    unfold statsRecordIoCountFast
    intro u hu
    split_ifs at hu
    all_goals
      rcases List.mem_pair.mp hu with rfl | rfl <;> exact ⟨nofun, nofun⟩
  unfold updates
  cases io.latencyNs with
  | none => exact hcount
  | some latency =>
      intro u hu
      rcases List.mem_append.mp hu with hu | hu
      · exact hcount u hu
      · simp only [List.mem_cons, List.not_mem_nil, or_false] at hu
        rcases hu with rfl | rfl | rfl | rfl | rfl
        · split_ifs <;> exact ⟨nofun, nofun⟩
        · exact ⟨latency, rfl⟩
        · exact ⟨latency, rfl⟩
        · exact ⟨nofun, nofun⟩
        · exact ⟨nofun, nofun⟩

/-- What some operations bring to a counter. -/
def valuesOf (k : StatsCounter) (ios : List CompletedIo) : Multiset UInt64 :=
  (ios : Multiset CompletedIo).bind fun io => valuesAt k io.updates

/-- **The counters of a thread are folds.** -/
theorem recordAll_eq : recordAll ios k = (valuesOf k ios).fold k.merge k.unit := by
  have hproper : ∀ u ∈ ios.flatMap CompletedIo.updates, u.Proper := by
    intro u hu
    obtain ⟨io, -, hio⟩ := List.mem_flatMap.mp hu
    exact io.updates_proper u hio
  have hflat : recordAll ios = (ios.flatMap CompletedIo.updates).foldl run statsInit :=
    List.foldl_flatMap.symm
  unfold valuesOf
  rw [hflat, foldl_run hproper, valuesAt_flatMap, Multiset.coe_bind, Multiset.coe_fold_l]
  rfl

/-! ## Merging -/

theorem aggregateUpdates_proper (src : ThreadStats) : ∀ u ∈ aggregateUpdates src, u.Proper := by
  intro u hu
  rcases List.mem_append.mp hu with hu | hu
  · rcases List.mem_append.mp hu with hu | hu
    · simp only [List.mem_cons, List.not_mem_nil, or_false] at hu
      rcases hu with rfl | rfl | rfl | rfl | rfl <;> exact ⟨nofun, nofun⟩
    · obtain ⟨i, -, rfl⟩ := List.mem_map.mp hu
      exact ⟨nofun, nofun⟩
  · simp only [List.mem_cons, List.not_mem_nil, or_false] at hu
    rcases hu with rfl | rfl | rfl | rfl | rfl
    · exact ⟨nofun, nofun⟩
    · exact ⟨src .latMinNs, rfl⟩
    · exact ⟨src .latMaxNs, rfl⟩
    · exact ⟨nofun, nofun⟩
    · exact ⟨nofun, nofun⟩

/-- A thread brings its own counters. -/
theorem valuesAt_aggregateUpdates (hk : k.Aggregated) (src : ThreadStats) :
    valuesAt k (aggregateUpdates src) = [src k] := by
  have hone : ∀ x : UInt64, [UInt64.ofInt x.toNat] = [x] := fun x =>
    congrArg (fun y => [y]) (UInt64.ofInt_toNat x)
  unfold aggregateUpdates
  rw [valuesAt_append, valuesAt_append]
  cases k with
  | inflight => exact hk.elim
  | latHist b =>
      obtain ⟨hnonneg, hlt⟩ := hk
      obtain ⟨i, rfl⟩ := Int.eq_ofNat_of_zero_le hnonneg
      exact congrArg (· ++ []) (valuesAt_range (fun i => src (.latHist i)) (Int.ofNat_lt.mp hlt))
  | _ =>
      rw [valuesAt_range_of_ne (fun i => src (.latHist i))
        fun b => by exact StatsCounter.noConfusion]
      exact hone _

/-- **The aggregated counters are folds.** -/
theorem statsAggregate_eq (hk : k.Aggregated) :
    statsAggregate ss k = ((ss : Multiset ThreadStats).map (· k)).fold k.merge k.unit := by
  have hproper : ∀ u ∈ ss.flatMap aggregateUpdates, u.Proper := by
    intro u hu
    obtain ⟨src, -, hsrc⟩ := List.mem_flatMap.mp hu
    exact aggregateUpdates_proper src u hsrc
  have hflat : statsAggregate ss = (ss.flatMap aggregateUpdates).foldl run statsInit :=
    List.foldl_flatMap.symm
  have hvalues : (ss.flatMap fun src => valuesAt k (aggregateUpdates src)) = ss.map (· k) := by
    rw [List.map_eq_flatMap]
    exact congrArg (ss.flatMap ·) (funext fun src => valuesAt_aggregateUpdates hk src)
  rw [hflat, foldl_run hproper, valuesAt_flatMap, hvalues, Multiset.map_coe, Multiset.coe_fold_l]
  rfl

/-- **Merging what the threads have recorded** is recording all of it. -/
theorem fold_recordAll (ls : List (List CompletedIo)) :
    (((ls.map recordAll : List ThreadStats) : Multiset ThreadStats).map (· k)).fold k.merge k.unit =
      (valuesOf k ls.flatten).fold k.merge k.unit := by
  induction ls with
  | nil => rfl
  | cons ios ls ih =>
      have hsplit : valuesOf k (ios :: ls).flatten = valuesOf k ios + valuesOf k ls.flatten := by
        unfold valuesOf
        rw [List.flatten_cons, ← Multiset.coe_add, Multiset.add_bind]
      rw [hsplit, List.map_cons, ← Multiset.cons_coe, Multiset.map_cons, Multiset.fold_cons_left,
        ih, recordAll_eq, ← Multiset.fold_add k.merge k.unit k.unit, StatsCounter.merge_unit]

/-- **Aggregation is a homomorphism.** However completed operations were split among the threads,
and in whatever order they came, the aggregated counters and percentiles are those of one thread
that recorded them all. -/
theorem aggregate_eq_recordAll (ls : List (List CompletedIo)) (ios : List CompletedIo)
    (h : ios.Perm ls.flatten) :
    (∀ k : StatsCounter, k.Aggregated → statsAggregate (ls.map recordAll) k = recordAll ios k) ∧
      ∀ pct : ℚ, (statsAggregate (ls.map recordAll)).statsPercentile pct =
        (recordAll ios).statsPercentile pct := by
  have hcounters : ∀ k : StatsCounter, k.Aggregated →
      statsAggregate (ls.map recordAll) k = recordAll ios k := by
    intro k hk
    have hsame : valuesOf k ios = valuesOf k ls.flatten := by
      unfold valuesOf
      rw [Multiset.coe_eq_coe.mpr h]
    rw [statsAggregate_eq hk, fold_recordAll, recordAll_eq, hsame]
  refine ⟨hcounters, fun pct => ?_⟩
  have hhist : (statsAggregate (ls.map recordAll)).latHist = (recordAll ios).latHist := by
    refine List.map_congr_left fun i hi => ?_
    exact hcounters _ ⟨Int.natCast_nonneg i, Int.ofNat_lt.mpr (List.mem_range.mp hi)⟩
  unfold ThreadStats.statsPercentile
  rw [hhist, hcounters .latOverflow trivial]

/-- Two threads, one of them idle, against the operations in the opposite order. -/
theorem aggregate_eq_recordAll_swap :
    let a : CompletedIo := ⟨some 7000000, 4096, true⟩
    let b : CompletedIo := ⟨some 99000000, 512, false⟩
    statsAggregate ([[a, b], []].map recordAll) .latMaxNs = recordAll [b, a] .latMaxNs :=
  (aggregate_eq_recordAll _ _ (by exact List.Perm.swap _ _ [])).1 .latMaxNs trivial

end Aura
