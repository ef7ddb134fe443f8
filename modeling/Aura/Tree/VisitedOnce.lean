import Aura.Tree.VisitedSlots

/-!
# Every pair is admitted once

For one pair, the calls with it are the candidates of a contest (`Aura.Lib.Contest`): the places are
the slots, in the order of the search for the pair. Under the condition `VisitedRun.Inserts` the
moves of `visited_insert` are moves of that contest.

* `VisitedRun.contest_step` — this refinement.
* `visited_once` — among the calls for a pair that have returned exactly one returned true.
-/

namespace Aura

open Lib

namespace VisitedRun

variable {n : ℕ} {key : ℕ → DevIno} {s s' : VisitedRun} {c c' : ℕ} {k : DevIno} {pc : ℕ → InsertPc}
  {vs vs' : VisitedSet} {x : InsertPc}

/-- What has become of a call in the contest for its pair. -/
def candidate (k : DevIno) : InsertPc → Candidate
  | .start | .probe _ _ | .claim _ _ => .out
  | .writeKey idx | .publish idx => .running (rank k idx) 0
  | .rescan idx j => .running (rank k idx) (rank k j)
  | .release idx => .leaving (rank k idx)
  | .inserted idx => .won (rank k idx)
  | .refused => .lost

/-- The contest for a pair, in which the calls for other pairs take no part. -/
def contest (key : ℕ → DevIno) (pc : ℕ → InsertPc) (k : DevIno) (c : ℕ) : Candidate :=
  if key c = k then candidate k (pc c) else .out

theorem candidate_place {y : InsertPc} {r : ℕ} (h : (candidate k y).place? = some r) :
    ∃ idx, y.slot? = some idx ∧ rank k idx = r := by
  cases y with
  | writeKey idx | publish idx | rescan idx j | release idx | inserted idx =>
      exact ⟨idx, rfl, Option.some.inj h⟩
  | _ => cases h

theorem place_of_slot {y : InsertPc} {idx : ℕ} (h : y.slot? = some idx) :
    (candidate k y).place? = some (rank k idx) := by
  cases y with
  | writeKey | publish | rescan | release | inserted =>
      obtain rfl := Option.some.inj h
      rfl
  | _ => cases h

theorem contest_place {r : ℕ} (h : (contest key pc k c).place? = some r) :
    key c = k ∧ ∃ idx, (pc c).slot? = some idx ∧ rank k idx = r := by
  unfold contest at h
  split_ifs at h with hk
  · exact ⟨hk, candidate_place h⟩
  · cases h

theorem contest_seen {r : ℕ} (h : (contest key pc k c).seen? = some r) :
    key c = k ∧ (r = 0 ∨ ∃ j, (pc c).checked? = some j ∧ rank k j = r) := by
  unfold contest at h
  split_ifs at h with hk
  · refine ⟨hk, ?_⟩
    generalize pc c = y at h
    cases y with
    | writeKey | publish => exact .inl (Option.some.inj h).symm
    | rescan idx j => exact .inr ⟨j, rfl, Option.some.inj h⟩
    | inserted idx => exact .inr ⟨idx, rfl, Option.some.inj h⟩
    | _ => cases h
  · cases h

/-- A step of a call moves it in the contest for its pair. -/
theorem contest_update : contest key (Function.update pc c x) (key c) =
    Function.update (contest key pc (key c)) c (candidate (key c) x) := by
  funext j
  by_cases hj : j = c
  · rw [hj, Function.update_self]
    unfold contest
    rw [if_pos rfl, Function.update_self]
  · rw [Function.update_of_ne hj]
    unfold contest
    rw [Function.update_of_ne hj]

/-- In the other contests it changes nothing. -/
theorem contest_update_of_ne (hk : key c ≠ k) :
    contest key (Function.update pc c x) k = contest key pc k := by
  funext j
  unfold contest
  by_cases hj : j = c
  · rw [hj, if_neg hk, if_neg hk]
  · rw [Function.update_of_ne hj]

/-- **The calls refine the contest**: under the condition a step is a move in the contest for its
pair, or changes nothing there. -/
theorem contest_step (hslots : Slots key s.set s.pc) (hwalks : Walks key s.set s.pc)
    (hfresh : ∀ c, n ≤ c → s.pc c = .start) (hload : s.set.full = false)
    (hok : Inserts n key s c) (hmoves : InsertMoves s.set (key c) (s.pc c) vs' x) :
    candidate (key c) x = candidate (key c) (s.pc c) ∨
      Contest.Move (contest key s.pc (key c)) (candidate (key c) (s.pc c))
        (candidate (key c) x) := by
  -- who holds a slot with the tag and the key takes part in the contest
  have hheld {idx : ℕ} (h : s.set.holds (key c) idx = true) :
      ∃ j, (contest key s.pc (key c) j).place? = some (rank (key c) idx) := by
    obtain ⟨j, hslot, hkey⟩ := hslots.of_holds h
    refine ⟨j, ?_⟩
    unfold contest
    rw [if_pos hkey]
    exact place_of_slot hslot
  have hlt {j : ℕ} (h : s.pc j ≠ .start) : j < n := not_le.mp fun hle => h (hfresh j hle)
  unfold Inserts at hok
  generalize hx : s.pc c = y at hmoves hok
  cases hmoves with
  | enter => exact .inl rfl
  | full hfull =>
      rw [hload] at hfull
      cases hfull
  | exhausted hi => exact absurd hok hi
  | empty => exact .inl rfl
  | pass hpc =>
      left
      rcases hpc with rfl | rfl <;> rfl
  | present hpc hholds =>
      right
      obtain ⟨j, hj⟩ := hheld hholds
      rcases hpc with rfl | rfl <;> exact .refuse ⟨j, _, hj⟩
  | @claim i idx hfree =>
      have hidx : idx < visitedInitCap := hwalks.probing c i idx (.inr hx)
      refine .inr (.stand (fun j hj => ?_) fun j r hj => ?_)
      · obtain ⟨-, idx', hslot, hrank⟩ := contest_place hj
        obtain rfl := rank_inj (hwalks.place j idx' hslot) hidx hrank
        exact hslots.bucket_ne hslot hfree
      · obtain ⟨hkey, rfl | ⟨j', hchecked, rfl⟩⟩ := contest_seen hj
        · exact Nat.zero_le _
        · refine hok hfree j (hlt fun hstart => ?_) hkey j' hchecked
          rw [hstart] at hchecked
          cases hchecked
  | write => exact .inl rfl
  | @publish idx =>
      left
      change Candidate.running (rank (key c) idx) (rank (key c) (s.set.home (key c))) = .running _ 0
      rw [home_eq hwalks.cap, rank_home]
  | @check idx j hne hholds =>
      obtain ⟨hrank, -, hnext⟩ := hwalks.next hx hne
      have hj : j < visitedInitCap := (hwalks.check c idx j hx).1
      right
      change Contest.Move _ (.running _ _) (.running _ (rank (key c) (s.set.next j)))
      rw [hnext]
      refine .look hrank fun c' hc' => ?_
      obtain ⟨hkey, idx', hslot, hrank'⟩ := contest_place hc'
      obtain rfl := rank_inj (hwalks.place c' idx' hslot) hj hrank'
      rcases pending_none_or hslot with hpending | hpending
      · have htrue := hslots.holds_of hslot hpending
        rw [hkey, hholds] at htrue
        cases htrue
      · refine hok hne c' (hlt fun hstart => ?_) hkey hpending
        rw [hstart] at hpending
        cases hpending
  | @duplicate idx j hne hholds => exact .inr (.give (hwalks.next hx hne).1 (hheld hholds))
  | insert => exact .inr .win
  | release => exact .inr .leave

/-! ## Runs -/

/-- The calls that returned true. -/
def admitted (n : ℕ) (pc : ℕ → InsertPc) : Finset ℕ :=
  (Finset.range n).filter fun c => (pc c).result = some true

theorem eq_inserted {y : InsertPc} (h : y.result = some true) : ∃ idx, y = .inserted idx := by
  cases y with
  | inserted idx => exact ⟨idx, rfl⟩
  | _ => cases h

/-- What holds along a run. -/
structure Good (n : ℕ) (key : ℕ → DevIno) (s : VisitedRun) : Prop where
  slots : Slots key s.set s.pc
  walks : Walks key s.set s.pc
  fresh : ∀ c, n ≤ c → s.pc c = .start
  count : s.set.count = (admitted n s.pc).card
  orderly : ∀ k, Contest.Orderly (contest key s.pc k)

/-- **At most one call for a pair returned true.** -/
theorem Good.admitted_unique (h : Good n key s) (hkey : key c = key c')
    (hc : (s.pc c).result = some true) (hc' : (s.pc c').result = some true) : c = c' := by
  obtain ⟨idx, hidx⟩ := eq_inserted hc
  obtain ⟨idx', hidx'⟩ := eq_inserted hc'
  have hwon : contest key s.pc (key c) c = .won (rank (key c) idx) := by
    unfold contest
    rw [if_pos rfl, hidx]
    rfl
  have hwon' : contest key s.pc (key c) c' = .won (rank (key c) idx') := by
    unfold contest
    rw [if_pos hkey.symm, hidx']
    rfl
  exact (h.orderly (key c)).won_unique hwon hwon'

/-- **The load check passes**, as the count is at most the number of pairs. -/
theorem Good.not_full (h : Good n key s)
    (hload : ((Finset.range n).image key).card * 100 / visitedInitCap < visitedLoadMax) :
    s.set.full = false := by
  have hcard : (admitted n s.pc).card ≤ ((Finset.range n).image key).card := by
    refine Finset.card_le_card_of_injOn key (fun c hc => ?_) fun c hc c' hc' hkey => ?_
    · exact Finset.mem_coe.mpr (Finset.mem_image_of_mem key (Finset.mem_filter.mp hc).1)
    · exact h.admitted_unique hkey (Finset.mem_filter.mp hc).2 (Finset.mem_filter.mp hc').2
  refine decide_eq_false (not_le.mpr (lt_of_le_of_lt ?_ hload))
  rw [h.count, h.walks.cap]
  exact Nat.div_le_div_right (Nat.mul_le_mul_right 100 hcard)

/-- A step counts the call if it returns true. -/
theorem count_step (hc : c < n) (hmoves : InsertMoves vs (key c) (pc c) vs' x) :
    vs'.count + (admitted n pc).card =
      vs.count + (admitted n (Function.update pc c x)).card := by
  have hother {c' : ℕ} (hne : c' ≠ c) : Function.update pc c x c' = pc c' :=
    Function.update_of_ne hne _ _
  have hself : Function.update pc c x c = x := Function.update_self _ _ _
  have hbefore : c ∉ admitted n pc := by
    intro hmem
    obtain ⟨idx, hidx⟩ := eq_inserted (Finset.mem_filter.mp hmem).2
    rw [hidx] at hmoves
    cases hmoves with
    | pass hpc => rcases hpc with hpc | hpc <;> cases hpc
    | present hpc => rcases hpc with hpc | hpc <;> cases hpc
  have hsame (hx : x.result ≠ some true) : admitted n (Function.update pc c x) = admitted n pc := by
    refine Finset.filter_congr fun c' hc' => ?_
    by_cases hne : c' = c
    · rw [hne, hself]
      refine iff_of_false hx fun htrue => hbefore ?_
      exact Finset.mem_filter.mpr ⟨Finset.mem_range.mpr hc, htrue⟩
    · rw [hother hne]
  have hinsert (hx : x.result = some true) :
      admitted n (Function.update pc c x) = insert c (admitted n pc) := by
    ext c'
    rw [Finset.mem_insert]
    unfold admitted
    rw [Finset.mem_filter, Finset.mem_filter]
    by_cases hne : c' = c
    · rw [hne, hself]
      exact iff_of_true ⟨Finset.mem_range.mpr hc, hx⟩ (.inl rfl)
    · rw [hother hne]
      exact ⟨.inr, fun h => h.resolve_left hne⟩
  generalize pc c = y at hmoves
  cases hmoves with
  | insert =>
      rw [hinsert rfl, Finset.card_insert_of_notMem hbefore]
      dsimp only
      omega
  | claim | publish | release =>
      rw [hsame fun heq => by cases heq]
      rfl
  | _ => rw [hsame fun heq => by cases heq]

theorem Good.start : Good n key {} := by
  refine ⟨⟨?_, ?_, ?_, ?_, ?_⟩, ⟨rfl, ?_, ?_, ?_⟩, fun _ _ => rfl, ?_, fun k => .start fun c => ?_⟩
  · exact fun c c' idx hc => (by cases hc)
  · exact fun c idx hc => (by cases hc)
  · exact fun c idx hc => (by cases hc)
  · exact fun c idx hc => (by cases hc)
  · exact fun idx hne => absurd rfl hne
  · rintro c i idx (hc | hc) <;> cases hc
  · exact fun c idx hc => (by cases hc)
  · exact fun c idx j hc => (by cases hc)
  · rw [admitted, Finset.filter_false_of_mem fun c _ hc => by cases hc]
    rfl
  · unfold contest
    split_ifs <;> rfl

/-- **Every step that meets the condition keeps the invariant.** -/
theorem Good.step (h : Good n key s)
    (hload : ((Finset.range n).image key).card * 100 / visitedInitCap < visitedLoadMax)
    (hok : Inserts n key s c) (hstep : step n key s c = some s') : Good n key s' := by
  unfold VisitedRun.step at hstep
  split_ifs at hstep with hc
  obtain ⟨⟨vs', x⟩, hinsert, rfl⟩ := Option.map_eq_some_iff.mp hstep
  have hmoves := insertStep_moves hinsert
  refine ⟨h.slots.step hmoves, h.walks.step hmoves, fun c' hc' => ?_, ?_, fun k => ?_⟩
  · dsimp only
    rw [Function.update_of_ne (by omega)]
    exact h.fresh c' hc'
  · have hcount := count_step hc hmoves
    have hold := h.count
    dsimp only
    omega
  · by_cases hk : key c = k
    · subst hk
      dsimp only
      rw [contest_update]
      have hself : contest key s.pc (key c) c = candidate (key c) (s.pc c) := if_pos rfl
      rcases contest_step h.slots h.walks h.fresh (h.not_full hload) hok hmoves with hsame | hmove
      · rw [hsame, ← hself, Function.update_eq_self]
        exact h.orderly (key c)
      · exact (h.orderly (key c)).step (hself ▸ hmove)
    · dsimp only
      rw [contest_update_of_ne hk]
      exact h.orderly k

end VisitedRun

/-- **Every pair is admitted once**, where every step meets the condition: in every run of any
number of calls for fewer pairs than the load limit, no two calls for one pair return true, and once
all calls for a pair have returned one of them has returned true. -/
theorem visited_once (n : ℕ) (key : ℕ → DevIno)
    (hload : ((Finset.range n).image key).card * 100 / visitedInitCap < visitedLoadMax)
    {s : VisitedRun}
    (hs : Reachable ((visitedSystem n key).restrict (VisitedRun.Inserts n key)) s) :
    (∀ c c', key c = key c' → (s.pc c).result = some true → (s.pc c').result = some true → c = c') ∧
    ∀ c < n, (∀ c' < n, key c' = key c → (s.pc c').result ≠ none) →
      ∃! c', c' < n ∧ key c' = key c ∧ (s.pc c').result = some true := by
  have hgood : VisitedRun.Good n key s := by
    refine Reachable.invariant ?_ ?_ hs
    · rintro s rfl
      exact .start
    · rintro s c s' hgood ⟨hok, hstep⟩
      exact hgood.step hload hok hstep
  refine ⟨fun c c' hkey hc hc' => hgood.admitted_unique hkey hc hc', fun c hc hover => ?_⟩
  have hcontest (c' : ℕ) (hkey : key c' = key c) :
      VisitedRun.contest key s.pc (key c) c' = VisitedRun.candidate (key c) (s.pc c') := if_pos hkey
  have hthrough (c' : ℕ) : VisitedRun.contest key s.pc (key c) c' = .out ∨
      (∃ p, VisitedRun.contest key s.pc (key c) c' = .won p) ∨
      VisitedRun.contest key s.pc (key c) c' = .lost := by
    by_cases hkey : key c' = key c
    · rw [hcontest c' hkey]
      rcases Nat.lt_or_ge c' n with hlt | hge
      · have hresult := hover c' hlt hkey
        generalize s.pc c' = y at hresult
        cases y with
        | inserted idx => exact .inr (.inl ⟨_, rfl⟩)
        | refused => exact .inr (.inr rfl)
        | _ => exact absurd rfl hresult
      · rw [hgood.fresh c' hge]
        exact .inl rfl
    · exact .inl (if_neg hkey)
  have hmoved : VisitedRun.contest key s.pc (key c) c ≠ .out := by
    rw [hcontest c rfl]
    have hresult := hover c hc rfl
    generalize s.pc c = y at hresult
    cases y with
    | inserted | refused => exact fun heq => by cases heq
    | _ => exact absurd rfl hresult
  obtain ⟨c', p, hwon⟩ := (hgood.orderly (key c)).exists_won hthrough hmoved
  have hkey : key c' = key c := by
    by_contra hno
    rw [show VisitedRun.contest key s.pc (key c) c' = .out from if_neg hno] at hwon
    cases hwon
  have hresult : (s.pc c').result = some true := by
    rw [hcontest c' hkey] at hwon
    generalize s.pc c' = y at hwon
    cases y with
    | inserted => rfl
    | _ => cases hwon
  have hlt : c' < n := by
    by_contra hge
    rw [hgood.fresh c' (not_lt.mp hge)] at hresult
    cases hresult
  exact ⟨c', ⟨hlt, hkey, hresult⟩, fun c'' hc'' =>
    hgood.admitted_unique (hc''.2.1.trans hkey.symm) hc''.2.2 hresult⟩

instance (n : ℕ) (key : ℕ → DevIno) (s : VisitedRun) (c : ℕ) :
    Decidable (VisitedRun.Inserts n key s c) := by
  unfold VisitedRun.Inserts
  split <;> infer_instance

/-- Two calls for one pair: the second loses the race for the first slot, takes the next one, and
gives it back once it sees the tag of the first. -/
theorem visited_once_two :
    ∃ s, Reachable ((visitedSystem 2 fun _ => ⟨1, 2⟩).restrict
        (VisitedRun.Inserts 2 fun _ => ⟨1, 2⟩)) s ∧
      ∃! c', c' < 2 ∧ (⟨1, 2⟩ : DevIno) = ⟨1, 2⟩ ∧ (s.pc c').result = some true := by
  have hrun : (execute (fun s l => if VisitedRun.Inserts 2 (fun _ => ⟨1, 2⟩) s l then
      VisitedRun.step 2 (fun _ => ⟨1, 2⟩) s l else none) {}
      [0, 1, 0, 1, 0, 1, 0, 1, 1, 0, 0, 1, 1, 1, 1]).isSome = true := by decide
  obtain ⟨s, hs⟩ := Option.isSome_iff_exists.mp hrun
  have hreach : Reachable ((visitedSystem 2 fun _ => ⟨1, 2⟩).restrict
      (VisitedRun.Inserts 2 fun _ => ⟨1, 2⟩)) s := Reachable.of_guarded rfl hs
  refine ⟨s, hreach, (visited_once 2 (fun _ => ⟨1, 2⟩) (by decide) hreach).2 0 (by decide) ?_⟩
  obtain rfl := Option.some.inj hs
  decide

end Aura
