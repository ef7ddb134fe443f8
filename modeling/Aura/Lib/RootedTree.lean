import Mathlib.Algebra.BigOperators.Finprod
import Mathlib.Data.Set.Card
import Mathlib.Logic.Relation
import Mathlib.Order.CompletePartialOrder

/-!
# Finite rooted trees given by their edges

A relation `E` from parents to children is a finite tree below `r` when the nodes reachable from `r`
are finitely many, none of them has two parents, and `r` has none (`IsRootedTree`). Such a tree is
acyclic, every node of it is the root of a tree of its own, and there are two rules for it:

* `IsRootedTree.induction` — what holds of a node when it holds of its children holds of every node;
* `IsRootedTree.sum_below` — a sum over the proper descendants of the root is the sum, over its
  children, of the child and of the child's proper descendants.

Neither the statement of the second nor the sets it sums over say in which order the children come.
-/

namespace Aura.Lib

open Relation

variable {α : Type*} {E : α → α → Prop} {r : α}

/-- The proper descendants of `a`. -/
def below (E : α → α → Prop) (a : α) : Set α := {x | TransGen E a x}

/-- `a` and its descendants. -/
def region (E : α → α → Prop) (a : α) : Set α := {x | ReflTransGen E a x}

theorem mem_region_self (a : α) : a ∈ region E a := ReflTransGen.refl

/-- A child's region lies within its parent's. -/
theorem region_subset_of_edge {a c : α} (h : E a c) : region E c ⊆ region E a :=
  fun _ hx => ReflTransGen.head h hx

/-- The proper descendants of a node are the regions of its children. -/
theorem below_eq_biUnion (a : α) : below E a = ⋃ c ∈ {c | E a c}, region E c := by
  ext x
  simp only [below, region, Set.mem_iUnion, Set.mem_ofPred_eq, exists_prop]
  exact TransGen.head'_iff

/-- A region is its root with the root's proper descendants. -/
theorem region_eq_insert (a : α) : region E a = insert a (below E a) := by
  ext x
  rw [region, Set.mem_ofPred_eq, Set.mem_insert_iff, below, Set.mem_ofPred_eq,
    reflTransGen_iff_eq_or_transGen]

/-- Without edges there are no descendants. -/
theorem below_eq_empty {a : α} (h : ∀ c, ¬ E a c) : below E a = ∅ := by
  rw [below_eq_biUnion]
  simp [h]

/-- **A finite rooted tree**: finitely many nodes, each but the root with one parent. -/
structure IsRootedTree (E : α → α → Prop) (r : α) : Prop where
  /-- The tree has finitely many nodes. -/
  finite : (region E r).Finite
  /-- No node of it has two parents. -/
  parent_unique : ∀ a ∈ region E r, ∀ b ∈ region E r, ∀ c, E a c → E b c → a = b
  /-- The root has none. -/
  no_parent : ∀ a ∈ region E r, ¬ E a r

namespace IsRootedTree

/-- A finite rooted tree is acyclic. -/
theorem not_mem_below_self (h : IsRootedTree E r) {a : α} (ha : a ∈ region E r) :
    a ∉ below E a := by
  -- Along the path from the root: a cycle through a node comes in through its only parent.
  induction ha with
  | refl =>
      intro hcycle
      obtain ⟨x, hx, hedge⟩ := TransGen.tail'_iff.1 hcycle
      exact h.no_parent x hx hedge
  | @tail b c hb hbc ih =>
      intro hcycle
      obtain ⟨x, hx, hedge⟩ := TransGen.tail'_iff.1 hcycle
      have hxr : x ∈ region E r := (ReflTransGen.tail hb hbc).trans hx
      have hxb : x = b := h.parent_unique x hxr b hb c hedge hbc
      subst hxb
      exact ih (TransGen.head' hbc hx)

/-- Every node of the tree is the root of a tree. -/
theorem subtree (h : IsRootedTree E r) {a : α} (ha : a ∈ region E r) : IsRootedTree E a where
  finite := h.finite.subset fun _ hx => ReflTransGen.trans ha hx
  parent_unique := fun b hb c hc => h.parent_unique b (ha.trans hb) c (ha.trans hc)
  no_parent := fun _ hb hedge => h.not_mem_below_self ha (TransGen.tail' hb hedge)

/-- A child of the root does not have the root below it. -/
theorem root_notMem_region (h : IsRootedTree E r) {c : α} (hc : E r c) : r ∉ region E c :=
  fun hr => h.not_mem_below_self (mem_region_self r) (TransGen.head' hc hr)

/-- Different children of the root have no node in common. -/
theorem disjoint_region (h : IsRootedTree E r) {b c : α} (hb : E r b) (hc : E r c) (hne : b ≠ c) :
    Disjoint (region E b) (region E c) := by
  rw [Set.disjoint_left]
  intro x hxb
  -- Going up from a common node both ways takes the same edges, up to `b` or to `c`.
  induction hxb with
  | refl =>
      intro hcb
      rcases ReflTransGen.cases_tail hcb with heq | ⟨y, hcy, hyb⟩
      · exact hne heq
      · have hyr : y = r := h.parent_unique y (ReflTransGen.head hc hcy) r (mem_region_self r)
          b hyb hb
        subst hyr
        exact h.root_notMem_region hc hcy
  | @tail y x hby hyx ih =>
      intro hcx
      rcases ReflTransGen.cases_tail hcx with heq | ⟨z, hcz, hzx⟩
      · subst heq
        have hyr : y = r := h.parent_unique y (ReflTransGen.head hb hby) r (mem_region_self r)
          x hyx hc
        subst hyr
        exact h.root_notMem_region hb hby
      · have hzy : z = y := h.parent_unique z (ReflTransGen.head hc hcz) y
          (ReflTransGen.head hb hby) x hzx hyx
        subst hzy
        exact ih hcz

/-- **Induction from the leaves**: what a node has as soon as its children have it, all nodes of the
tree have. -/
theorem induction (h : IsRootedTree E r) {P : α → Prop}
    (hP : ∀ a ∈ region E r, (∀ c, E a c → P c) → P a) : ∀ a ∈ region E r, P a := by
  -- On the number of nodes below: a child has fewer.
  have hstep : ∀ n a, a ∈ region E r → (region E a).ncard = n → P a := by
    intro n
    induction n using Nat.strong_induction_on with
    | _ n ih =>
        intro a ha hn
        refine hP a ha fun c hc => ih _ ?_ c (ReflTransGen.tail ha hc) rfl
        rw [← hn]
        refine Set.ncard_lt_ncard ⟨region_subset_of_edge hc, fun hsub => ?_⟩ (h.subtree ha).finite
        exact (h.subtree ha).root_notMem_region hc (hsub (mem_region_self a))
  exact fun a ha => hstep _ a ha rfl

section Sum

variable {M : Type*} [AddCommMonoid M]

/-- A sum over a node's region is the node's share and that of its proper descendants. -/
theorem sum_region (h : IsRootedTree E r) (w : α → M) :
    ∑ᶠ x ∈ region E r, w x = w r + ∑ᶠ x ∈ below E r, w x := by
  rw [region_eq_insert, finsum_mem_insert w (h.not_mem_below_self (mem_region_self r))]
  exact h.finite.subset fun _ hx => TransGen.to_reflTransGen hx

/-- **The descendants, child by child**: when `cs` lists the children of the root without
repetition, a sum over its proper descendants is the sum of the children's regions. -/
theorem sum_below (h : IsRootedTree E r) (w : α → M) {cs : List α} (hnodup : cs.Nodup)
    (hcs : ∀ c, E r c ↔ c ∈ cs) :
    ∑ᶠ x ∈ below E r, w x = (cs.map fun c => w c + ∑ᶠ x ∈ below E c, w x).sum := by
  classical
  have hset : {c | E r c} = (cs.toFinset : Set α) := by
    ext c
    simp [hcs]
  rw [below_eq_biUnion, finsum_mem_biUnion, hset, finsum_mem_coe_finset,
    List.sum_toFinset _ hnodup]
  · refine congrArg List.sum (List.map_congr_left fun c hc => ?_)
    exact (h.subtree (ReflTransGen.single ((hcs c).2 hc))).sum_region w
  · exact fun b hb c hc hne => h.disjoint_region hb hc hne
  · rw [hset]
    exact cs.toFinset.finite_toSet
  · exact fun c hc => h.finite.subset (region_subset_of_edge hc)

end Sum

end IsRootedTree

end Aura.Lib
