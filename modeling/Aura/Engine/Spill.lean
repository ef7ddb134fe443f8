import Aura.Engine.Select

/-!
# Where adaptive selection spills to

The two candidates of a spill are derived from two random values by modular arithmetic that skips
the local ring, and for the second one the first.

* `adaptiveSpill_eq` — a spill takes the less loaded candidate for the values it draws.
* `spill_sound` — for all random values the candidates are other rings, and every other ring is one
  for some of them. -/

namespace Aura

open Lib

variable {rc localIdx : ℕ} {x y : UInt32}

/-- The less loaded one of two rings. -/
def lighter (load : ℕ → ℤ) (ab : ℕ × ℕ) : ℕ := if load ab.1 ≤ load ab.2 then ab.1 else ab.2

theorem lighter_spec (load : ℕ → ℤ) (ab : ℕ × ℕ) :
    (lighter load ab = ab.1 ∨ lighter load ab = ab.2) ∧
      load (lighter load ab) ≤ load ab.1 ∧ load (lighter load ab) ≤ load ab.2 := by
  unfold lighter
  split_ifs with h
  · exact ⟨.inl rfl, le_refl _, h⟩
  · exact ⟨.inr rfl, (not_le.mp h).le, le_refl _⟩

/-- A number drawn below `n - 1` that skips `k` is another number below `n`. -/
theorem skip_ne {k p n : ℕ} (hk : k < n) (hp : p < n - 1) :
    (if k ≤ p then p + 1 else p) < n ∧ (if k ≤ p then p + 1 else p) ≠ k := by
  split_ifs <;> omega

/-- Every other number is drawn. -/
theorem exists_skip {k i n : ℕ} (hk : k < n) (hi : i < n) (hne : i ≠ k) :
    ∃ p < n - 1, (if k ≤ p then p + 1 else p) = i := by
  rcases Nat.lt_or_gt_of_ne hne with hlt | hgt
  · exact ⟨i, by omega, by split_ifs <;> omega⟩
  · exact ⟨i - 1, by omega, by split_ifs <;> omega⟩

/-- A number drawn below `n - 2` that skips two others. -/
theorem skip_skip_ne {k l p n : ℕ} (hkl : k < l) (hl : l < n) (hp : p < n - 2) {q r : ℕ}
    (hq : q = if k ≤ p then p + 1 else p) (hr : r = if l ≤ q then q + 1 else q) :
    r < n ∧ r ≠ k ∧ r ≠ l := by
  split_ifs at hq hr <;> omega

theorem exists_skip_skip {k l i n : ℕ} (hkl : k < l) (hl : l < n) (hi : i < n) (hk : i ≠ k)
    (hil : i ≠ l) : ∃ p < n - 2, (if l ≤ (if k ≤ p then p + 1 else p) then
      (if k ≤ p then p + 1 else p) + 1 else if k ≤ p then p + 1 else p) = i := by
  -- skip the larger number first, then the smaller one
  obtain ⟨q, hq, rfl⟩ := exists_skip hl hi hil
  have hqk : q ≠ k := by
    rintro rfl
    exact hk (if_neg (not_le.mpr hkl))
  obtain ⟨p, hp, rfl⟩ := exists_skip (n := n - 1) (by omega) hq hqk
  exact ⟨p, by omega, rfl⟩

/-- The number that a value below the modulus stands for. -/
theorem toNat_ofNat_mod {p m : ℕ} (hp : p < m) (hm : m < 2 ^ 32) :
    (UInt32.ofNat p).toNat % m = p := by
  rw [UInt32.toNat_ofNat_of_lt' (show p < UInt32.size from hp.trans hm), Nat.mod_eq_of_lt hp]

/-- The first candidate. -/
theorem spillCandidates_fst (rc localIdx : ℕ) (x y : UInt32) :
    (spillCandidates rc localIdx x y).1 =
      if localIdx ≤ x.toNat % (rc - 1) then x.toNat % (rc - 1) + 1 else x.toNat % (rc - 1) := by
  unfold spillCandidates
  dsimp only
  split_ifs <;> rfl

/-- The second candidate, once the smaller and the larger one of the local ring and the first
candidate are known. -/
theorem spillCandidates_snd {a k l : ℕ} (hrc : 2 ≤ rc - 1)
    (ha : (spillCandidates rc localIdx x y).1 = a)
    (hk : k = if localIdx < a then localIdx else a)
    (hl : l = if localIdx < a then a else localIdx) :
    (spillCandidates rc localIdx x y).2 =
      if l ≤ (if k ≤ y.toNat % (rc - 2) then y.toNat % (rc - 2) + 1 else y.toNat % (rc - 2)) then
        (if k ≤ y.toNat % (rc - 2) then y.toNat % (rc - 2) + 1 else y.toNat % (rc - 2)) + 1
      else if k ≤ y.toNat % (rc - 2) then y.toNat % (rc - 2) + 1 else y.toNat % (rc - 2) := by
  rw [spillCandidates_fst] at ha
  unfold spillCandidates
  dsimp only
  rw [if_pos hrc, ha, hk, hl]

/-- With two rings there is one candidate. -/
theorem spillCandidates_two (hrc : ¬ 2 ≤ rc - 1) :
    (spillCandidates rc localIdx x y).2 = (spillCandidates rc localIdx x y).1 := by
  rw [spillCandidates_fst]
  unfold spillCandidates
  dsimp only
  rw [if_neg hrc]

/-- **The first candidate** is another ring, and can be any of them. -/
theorem first_candidate (hrc : 2 ≤ rc) (hmax : rc < 2 ^ 32) (hlocal : localIdx < rc)
    (x y : UInt32) :
    ((spillCandidates rc localIdx x y).1 < rc ∧ (spillCandidates rc localIdx x y).1 ≠ localIdx) ∧
      ∀ i < rc, i ≠ localIdx → ∃ x', (spillCandidates rc localIdx x' y).1 = i := by
  refine ⟨?_, fun i hi hne => ?_⟩
  · rw [spillCandidates_fst]
    exact skip_ne hlocal (Nat.mod_lt _ (by omega))
  · obtain ⟨p, hp, heq⟩ := exists_skip hlocal hi hne
    refine ⟨UInt32.ofNat p, ?_⟩
    rw [spillCandidates_fst, toNat_ofNat_mod hp (by omega)]
    exact heq

/-- **The second candidate** is another ring, different from the first one if there are three, and
can be any of them. -/
theorem second_candidate (hrc : 2 ≤ rc) (hmax : rc < 2 ^ 32) (hlocal : localIdx < rc)
    (x y : UInt32) :
    ((spillCandidates rc localIdx x y).2 < rc ∧ (spillCandidates rc localIdx x y).2 ≠ localIdx ∧
      (3 ≤ rc → (spillCandidates rc localIdx x y).2 ≠ (spillCandidates rc localIdx x y).1)) ∧
      ∀ i < rc, i ≠ localIdx → (3 ≤ rc → i ≠ (spillCandidates rc localIdx x y).1) →
        ∃ y', (spillCandidates rc localIdx x y').2 = i := by
  obtain ⟨⟨hlt, hne⟩, -⟩ := first_candidate hrc hmax hlocal x y
  by_cases hthree : 2 ≤ rc - 1
  · generalize ha : (spillCandidates rc localIdx x y).1 = a at hlt hne
    obtain ⟨k, hk⟩ : ∃ k, k = if localIdx < a then localIdx else a := ⟨_, rfl⟩
    obtain ⟨l, hl⟩ : ∃ l, l = if localIdx < a then a else localIdx := ⟨_, rfl⟩
    have hkl : k < l ∧ l < rc ∧ ∀ r, (r ≠ k ∧ r ≠ l) ↔ (r ≠ localIdx ∧ r ≠ a) := by
      refine ⟨?_, ?_, fun r => ?_⟩
      · split_ifs at hk hl <;> omega
      · split_ifs at hk hl <;> omega
      · split_ifs at hk hl <;> omega
    obtain ⟨hlt', hl', hiff⟩ := hkl
    refine ⟨?_, fun i hi hi' hia => ?_⟩
    · have hspec := skip_skip_ne hlt' hl' (Nat.mod_lt y.toNat (show 0 < rc - 2 by omega)) rfl
        (spillCandidates_snd (y := y) hthree ha hk hl)
      obtain ⟨hlocal', ha'⟩ := (hiff _).mp hspec.2
      exact ⟨hspec.1, hlocal', fun _ => ha'⟩
    · obtain ⟨hik, hil⟩ := (hiff i).mpr ⟨hi', hia (by omega)⟩
      obtain ⟨p, hp, heq⟩ := exists_skip_skip hlt' hl' hi hik hil
      refine ⟨UInt32.ofNat p, ?_⟩
      have ha' : (spillCandidates rc localIdx x (UInt32.ofNat p)).1 = a := by
        rw [spillCandidates_fst] at ha ⊢
        exact ha
      rw [spillCandidates_snd hthree ha' hk hl, toNat_ofNat_mod hp (by omega)]
      exact heq
  · rw [spillCandidates_two hthree]
    refine ⟨⟨hlt, hne, fun hge => absurd hge (by omega)⟩, fun i hi hi' _ => ⟨y, ?_⟩⟩
    rw [spillCandidates_two hthree]
    omega

/-- **A spill** takes the less loaded candidate for the values it draws. -/
theorem adaptiveSpill_eq (env : Env) (localIdx : ℕ) (w : World) :
    ∃ x y w', adaptiveSpill env localIdx w = .ret
      (lighter (fun i => (w.ring i).pendingCount)
        (spillCandidates w.engine.ringCount localIdx x y)) w' := by
  unfold adaptiveSpill
  by_cases hthree : 2 ≤ w.engine.ringCount - 1
  · refine ⟨xorshift (xorshiftSeed env w.tls.rngState),
      xorshift (xorshiftSeed env (xorshift (xorshiftSeed env w.tls.rngState))), ?_⟩
    simp only [onEngine, xorshiftTls, readRing, Prog.bind_apply, Prog.modify_apply,
      Prog.update_apply,
      Prog.read_apply, Outcome.bind_ret, if_pos hthree, Prog.pure_apply]
    exact ⟨_, rfl⟩
  · refine ⟨xorshift (xorshiftSeed env w.tls.rngState), 0, ?_⟩
    simp only [onEngine, xorshiftTls, readRing, Prog.bind_apply, Prog.modify_apply,
      Prog.update_apply,
      Prog.read_apply, Outcome.bind_ret, if_neg hthree, Prog.pure_apply]
    exact ⟨_, rfl⟩

/-- **Spilling is sound.** For every number of rings from 2, every local ring, all random values and
all loads: no remainder is by 0; both candidates are other rings, and different ones if there are
three; the ring taken is a candidate of least load; and every other ring is the first candidate for
some random value, and the second one for some random value whenever it is not the first. A spill
takes the ring so determined by two random values and the pending operations. -/
theorem spill_sound (hrc : 2 ≤ rc) (hmax : rc < 2 ^ 32) (hlocal : localIdx < rc) (x y : UInt32)
    (load : ℕ → ℤ) :
    (rc - 1 ≠ 0 ∧ (2 ≤ rc - 1 → rc - 2 ≠ 0)) ∧
    ((spillCandidates rc localIdx x y).1 < rc ∧ (spillCandidates rc localIdx x y).1 ≠ localIdx) ∧
    ((spillCandidates rc localIdx x y).2 < rc ∧ (spillCandidates rc localIdx x y).2 ≠ localIdx ∧
      (3 ≤ rc → (spillCandidates rc localIdx x y).2 ≠ (spillCandidates rc localIdx x y).1)) ∧
    ((lighter load (spillCandidates rc localIdx x y) = (spillCandidates rc localIdx x y).1 ∨
        lighter load (spillCandidates rc localIdx x y) = (spillCandidates rc localIdx x y).2) ∧
      load (lighter load (spillCandidates rc localIdx x y)) ≤
        load (spillCandidates rc localIdx x y).1 ∧
      load (lighter load (spillCandidates rc localIdx x y)) ≤
        load (spillCandidates rc localIdx x y).2) ∧
    (∀ i < rc, i ≠ localIdx → ∃ x', (spillCandidates rc localIdx x' y).1 = i) ∧
    (∀ i < rc, i ≠ localIdx → (3 ≤ rc → i ≠ (spillCandidates rc localIdx x y).1) →
      ∃ y', (spillCandidates rc localIdx x y').2 = i) ∧
    ∀ env w, w.engine.ringCount = rc → ∃ x' y' w', adaptiveSpill env localIdx w = .ret
      (lighter (fun i => (w.ring i).pendingCount) (spillCandidates rc localIdx x' y')) w' := by
  obtain ⟨hfirst, hfirst'⟩ := first_candidate hrc hmax hlocal x y
  obtain ⟨hsecond, hsecond'⟩ := second_candidate hrc hmax hlocal x y
  refine ⟨⟨by omega, fun h => by omega⟩, hfirst, hsecond, lighter_spec _ _, hfirst', hsecond', ?_⟩
  rintro env w rfl
  exact adaptiveSpill_eq env localIdx w

/-- Among three rings, for the local ring 1 and the random values 5 and 4. -/
theorem spill_sound_three : spillCandidates 3 1 5 4 = (2, 0) ∧
    lighter (fun i => if i = 0 then 7 else 3) (spillCandidates 3 1 5 4) ≠ 1 := by
  have h := spill_sound (show 2 ≤ 3 by decide) (by decide) (show 1 < 3 by decide) 5 4
    fun i => if i = 0 then 7 else 3
  refine ⟨by decide, ?_⟩
  rcases h.2.2.2.1.1 with heq | heq <;> rw [heq]
  · exact h.2.1.2
  · exact h.2.2.1.2.1

end Aura
