import Aura.Lib.RootedTree

/-!
# Rose trees

A finite tree whose nodes have any number of children, in order.

* `RoseTree.labels` — the labels in pre-order.
* `RoseTree.keep` — the subtrees that hang from the root by labels with a property.
* `RoseTree.drawn` — the nodes in pre-order, each with its place in a drawing: its depth, whether it
  is the last child of its parent, and which of the nodes above it are.
* `RoseTree.Follows` — a function that gives a label its children gives this tree.
  `IsRootedTree.exists_follows`: every finite rooted tree given by its edges is such a tree.
-/

namespace Aura.Lib

/-- A node with the trees below it. -/
inductive RoseTree (α : Type*)
  | node (label : α) (children : List (RoseTree α))

namespace RoseTree

variable {α : Type*}

/-- Induction over the children of a node. -/
@[elab_as_elim, induction_eliminator]
theorem ind {motive : RoseTree α → Prop}
    (node : ∀ a cs, (∀ c ∈ cs, motive c) → motive (node a cs)) (t : RoseTree α) : motive t :=
  RoseTree.rec (motive_1 := motive) (motive_2 := fun cs => ∀ c ∈ cs, motive c) node
    (fun _ h => absurd h List.not_mem_nil)
    (fun _ _ hhead htail c h => (List.mem_cons.1 h).elim (fun heq => heq ▸ hhead) (htail c)) t

def label : RoseTree α → α
  | node a _ => a

@[simp] theorem label_node (a : α) (cs : List (RoseTree α)) : (node a cs).label = a := rfl

/-! ## Pre-order -/

mutual

/-- The labels in pre-order. -/
def labels : RoseTree α → List α
  | node a cs => a :: labelsAll cs

/-- The labels of several trees. -/
def labelsAll : List (RoseTree α) → List α
  | [] => []
  | c :: cs => c.labels ++ labelsAll cs

end

theorem labels_node (a : α) (cs : List (RoseTree α)) : (node a cs).labels = a :: labelsAll cs := rfl

theorem labelsAll_cons (c : RoseTree α) (cs : List (RoseTree α)) :
    labelsAll (c :: cs) = c.labels ++ labelsAll cs := rfl

theorem labelsAll_eq (cs : List (RoseTree α)) : labelsAll cs = cs.flatMap labels := by
  induction cs with
  | nil => rfl
  | cons c cs ih => rw [labelsAll_cons, ih, List.flatMap_cons]

/-- A sum over the labels of several trees, tree by tree. -/
theorem sum_map_labelsAll {M : Type*} [AddCommMonoid M] (w : α → M) (cs : List (RoseTree α)) :
    ((labelsAll cs).map w).sum = (cs.map fun c => (c.labels.map w).sum).sum := by
  induction cs with
  | nil => rfl
  | cons c cs ih => rw [labelsAll_cons, List.map_append, List.sum_append, ih, List.map_cons,
      List.sum_cons]

theorem label_mem_labels (t : RoseTree α) : t.label ∈ t.labels := by
  cases t with
  | node a cs => exact List.mem_cons_self

theorem labels_subset_labelsAll {c : RoseTree α} {cs : List (RoseTree α)} (hc : c ∈ cs) :
    c.labels ⊆ labelsAll cs := by
  rw [labelsAll_eq]
  exact fun a ha => List.mem_flatMap.2 ⟨c, hc, ha⟩

theorem labelsAll_append (cs ds : List (RoseTree α)) :
    labelsAll (cs ++ ds) = labelsAll cs ++ labelsAll ds := by
  rw [labelsAll_eq, labelsAll_eq, labelsAll_eq, List.flatMap_append]

theorem length_labels_pos (t : RoseTree α) : 0 < t.labels.length :=
  List.length_pos_of_mem t.label_mem_labels

mutual

/-- The depth of the deepest node. -/
def height : RoseTree α → ℕ
  | node _ cs => heightAll cs

/-- The height of a node with these trees below it. -/
def heightAll : List (RoseTree α) → ℕ
  | [] => 0
  | c :: cs => max (c.height + 1) (heightAll cs)

end

theorem height_node (a : α) (cs : List (RoseTree α)) : (node a cs).height = heightAll cs := rfl

theorem heightAll_le_iff {cs : List (RoseTree α)} {n : ℕ} :
    heightAll cs ≤ n ↔ ∀ c ∈ cs, c.height + 1 ≤ n := by
  induction cs with
  | nil => simp [heightAll]
  | cons c cs ih => rw [heightAll, Nat.max_le, ih, List.forall_mem_cons]

/-! ## Subtrees that are kept -/

mutual

/-- The tree without the subtrees whose root fails `p`. -/
def keep (p : α → Bool) : RoseTree α → RoseTree α
  | node a cs => node a (keepAll p cs)

/-- Those of several trees whose root has `p`. -/
def keepAll (p : α → Bool) : List (RoseTree α) → List (RoseTree α)
  | [] => []
  | c :: cs => if p c.label then c.keep p :: keepAll p cs else keepAll p cs

end

theorem keep_node (p : α → Bool) (a : α) (cs : List (RoseTree α)) :
    (node a cs).keep p = node a (keepAll p cs) := rfl

theorem keepAll_cons (p : α → Bool) (c : RoseTree α) (cs : List (RoseTree α)) :
    keepAll p (c :: cs) = if p c.label then c.keep p :: keepAll p cs else keepAll p cs := rfl

@[simp] theorem label_keep (p : α → Bool) (t : RoseTree α) : (t.keep p).label = t.label := by
  cases t with
  | node a cs => rfl

theorem keepAll_eq_nil_iff (p : α → Bool) (cs : List (RoseTree α)) :
    keepAll p cs = [] ↔ ∀ c ∈ cs, p c.label = false := by
  induction cs with
  | nil => simp [keepAll]
  | cons c cs ih =>
      rw [keepAll_cons]
      split_ifs with h
      · simp [h]
      · simp [ih, h]

theorem mem_labelsAll_keepAll {p : α → Bool} {cs : List (RoseTree α)} {a : α}
    (h : a ∈ labelsAll (keepAll p cs)) : ∃ c ∈ cs, p c.label = true ∧ a ∈ (c.keep p).labels := by
  induction cs with
  | nil => exact absurd h List.not_mem_nil
  | cons c cs ih =>
      have hrest : a ∈ labelsAll (keepAll p cs) →
          ∃ b ∈ c :: cs, p b.label = true ∧ a ∈ (b.keep p).labels := by
        intro h
        obtain ⟨b, hb, hp, ha⟩ := ih h
        exact ⟨b, List.mem_cons_of_mem _ hb, hp, ha⟩
      rw [keepAll_cons] at h
      split_ifs at h with hc
      · rcases List.mem_append.1 h with h | h
        · exact ⟨c, List.mem_cons_self, hc, h⟩
        · exact hrest h
      · exact hrest h

/-- The labels that are kept have `p`, but for that of the root. -/
theorem of_mem_labels_keep {p : α → Bool} {t : RoseTree α} {a : α} (h : a ∈ (t.keep p).labels) :
    a = t.label ∨ p a = true := by
  induction t with
  | node b cs ih =>
      rcases List.mem_cons.1 h with rfl | h
      · exact .inl rfl
      · obtain ⟨c, hc, hp, ha⟩ := mem_labelsAll_keepAll h
        rcases ih c hc ha with rfl | h
        · exact .inr hp
        · exact .inr h

/-- Keeping every label keeps the tree. -/
theorem keep_true (t : RoseTree α) : t.keep (fun _ => true) = t := by
  induction t with
  | node a cs ih =>
      rw [keep_node]
      refine congrArg (node a) ?_
      induction cs with
      | nil => rfl
      | cons c cs ih' =>
          rw [keepAll_cons, if_pos rfl, ih c List.mem_cons_self,
            ih' fun b hb => ih b (List.mem_cons_of_mem _ hb)]

/-! ## A drawing -/

/-- A node in a drawing of a tree, one node a line. -/
structure Place (α : Type*) where
  label : α
  /-- For each node above it at depth 1 or more, from the top: whether that node is the last child
  of its parent. -/
  above : List Bool
  /-- Whether it is the last child of its parent. -/
  isLast : Bool
  depth : ℕ

mutual

/-- The nodes in pre-order. -/
def drawn (above : List Bool) (isLast : Bool) (depth : ℕ) : RoseTree α → List (Place α)
  | node a cs =>
    ⟨a, above, isLast, depth⟩ ::
      drawnAll (if depth = 0 then above else above ++ [isLast]) (depth + 1) cs

/-- The nodes of the trees below one node, the last of which is the last child. -/
def drawnAll (above : List Bool) (depth : ℕ) : List (RoseTree α) → List (Place α)
  | [] => []
  | c :: cs => drawn above cs.isEmpty depth c ++ drawnAll above depth cs

end

section

variable (above : List Bool) (isLast : Bool) (depth : ℕ)

theorem drawn_node (a : α) (cs : List (RoseTree α)) :
    drawn above isLast depth (node a cs) = ⟨a, above, isLast, depth⟩ ::
      drawnAll (if depth = 0 then above else above ++ [isLast]) (depth + 1) cs := rfl

theorem drawnAll_cons (c : RoseTree α) (cs : List (RoseTree α)) :
    drawnAll above depth (c :: cs) =
      drawn above cs.isEmpty depth c ++ drawnAll above depth cs := rfl

/-- What holds of the nodes of each of the trees holds of those of all. -/
theorem mem_drawnAll {cs : List (RoseTree α)} {x : Place α} (h : x ∈ drawnAll above depth cs) :
    ∃ c ∈ cs, ∃ last, x ∈ drawn above last depth c := by
  induction cs with
  | nil => exact absurd h List.not_mem_nil
  | cons c cs ih =>
      rcases List.mem_append.1 h with h | h
      · exact ⟨c, List.mem_cons_self, _, h⟩
      · obtain ⟨b, hb, last, hx⟩ := ih h
        exact ⟨b, List.mem_cons_of_mem _ hb, last, hx⟩

/-- Everything in a drawing is at the depth of its root or below. -/
theorem depth_le_of_mem_drawn {t : RoseTree α} {x : Place α} (h : x ∈ drawn above isLast depth t) :
    depth ≤ x.depth := by
  induction t generalizing above isLast depth with
  | node a cs ih =>
      rcases List.mem_cons.1 h with rfl | h
      · exact le_refl _
      · obtain ⟨c, hc, last, hx⟩ := mem_drawnAll _ _ h
        exact (Nat.le_succ _).trans (ih c hc _ _ _ hx)

/-- What holds of each of the trees holds of all: their labels in pre-order. -/
theorem map_label_drawnAll_of {cs : List (RoseTree α)}
    (h : ∀ c ∈ cs, ∀ last, (drawn above last depth c).map Place.label = c.labels) :
    (drawnAll above depth cs).map Place.label = labelsAll cs := by
  induction cs with
  | nil => rfl
  | cons c cs ih =>
      rw [drawnAll_cons, labelsAll_cons, List.map_append, h c List.mem_cons_self,
        ih fun b hb => h b (List.mem_cons_of_mem _ hb)]

/-- A drawing shows the labels in pre-order. -/
theorem map_label_drawn (t : RoseTree α) :
    (drawn above isLast depth t).map Place.label = t.labels := by
  induction t generalizing above isLast depth with
  | node a cs ih =>
      rw [drawn_node, labels_node, List.map_cons]
      exact congrArg (a :: ·) (map_label_drawnAll_of _ _ fun c hc last => ih c hc _ last _)

theorem map_label_drawnAll (cs : List (RoseTree α)) :
    (drawnAll above depth cs).map Place.label = labelsAll cs :=
  map_label_drawnAll_of above depth fun c _ last => map_label_drawn above last depth c

end

/-! ## Trees in a store -/

/-- The children of each node are those that `next` gives for its label. -/
inductive Follows (next : α → List α) : RoseTree α → Prop
  | node {a : α} {cs : List (RoseTree α)} (hcs : cs.map label = next a)
      (h : ∀ c ∈ cs, Follows next c) : Follows next (node a cs)

namespace Follows

variable {next : α → List α} {a : α} {cs : List (RoseTree α)} {t : RoseTree α}

theorem children (h : Follows next (RoseTree.node a cs)) : cs.map label = next a := by
  cases h with
  | node hcs _ => exact hcs

theorem child (h : Follows next (RoseTree.node a cs)) {c : RoseTree α} (hc : c ∈ cs) :
    Follows next c := by
  cases h with
  | node _ h => exact h c hc

/-- Only the labels of the tree matter. -/
theorem congr {next' : α → List α} (h : Follows next t) (heq : ∀ a ∈ t.labels, next' a = next a) :
    Follows next' t := by
  induction t with
  | node a cs ih =>
      refine .node ?_ fun c hc => ih c hc (h.child hc) fun b hb => heq b ?_
      · rw [h.children, heq a List.mem_cons_self]
      · exact List.mem_cons_of_mem _ (labels_subset_labelsAll hc hb)

end Follows

end RoseTree

/-! ## Finite rooted trees as rose trees -/

namespace IsRootedTree

open RoseTree Relation

variable {α : Type*} {E : α → α → Prop} {r : α} {next : α → List α}

variable (next) in
/-- **A finite rooted tree is a rose tree**, when `next` lists the children of its nodes. -/
theorem exists_follows (h : IsRootedTree E r)
    (hnext : ∀ a ∈ region E r, ∀ b, E a b ↔ b ∈ next a) :
    ∃ t : RoseTree α, t.label = r ∧ t.Follows next := by
  refine h.induction (P := fun a => ∃ t : RoseTree α, t.label = a ∧ t.Follows next) ?_ r
    (mem_region_self r)
  intro a ha ih
  have hlist : ∀ bs : List α, (∀ b ∈ bs, E a b) →
      ∃ cs : List (RoseTree α), cs.map label = bs ∧ ∀ c ∈ cs, c.Follows next := by
    intro bs
    induction bs with
    | nil => exact fun _ => ⟨[], rfl, fun _ hc => absurd hc List.not_mem_nil⟩
    | cons b bs ih' =>
        intro hbs
        obtain ⟨c, hc, hfollows⟩ := ih b (hbs b List.mem_cons_self)
        obtain ⟨cs, hcs, hall⟩ := ih' fun x hx => hbs x (List.mem_cons_of_mem _ hx)
        refine ⟨c :: cs, by rw [List.map_cons, hc, hcs], fun x hx => ?_⟩
        rcases List.mem_cons.1 hx with rfl | hx
        · exact hfollows
        · exact hall x hx
  obtain ⟨cs, hcs, hall⟩ := hlist (next a) fun b hb => (hnext a ha b).2 hb
  exact ⟨.node a cs, rfl, .node hcs hall⟩

/-- The labels below a node are its proper descendants, when those of its children are theirs. -/
theorem mem_labelsAll_of {a x : α} {cs : List (RoseTree α)} (hedge : ∀ b, E a b ↔ b ∈ cs.map label)
    (hchild : ∀ c ∈ cs, (x ∈ c.labels ↔ x ∈ region E c.label)) :
    x ∈ labelsAll cs ↔ x ∈ below E a := by
  rw [labelsAll_eq, List.mem_flatMap, below_eq_biUnion]
  simp only [Set.mem_iUnion, Set.mem_ofPred_eq, exists_prop]
  constructor
  · rintro ⟨c, hc, hx⟩
    exact ⟨c.label, (hedge _).2 (List.mem_map_of_mem hc), (hchild c hc).1 hx⟩
  · rintro ⟨b, hb, hx⟩
    obtain ⟨c, hc, rfl⟩ := List.mem_map.1 ((hedge b).1 hb)
    exact ⟨c, hc, (hchild c hc).2 hx⟩

/-- The labels are the nodes of the rooted tree. -/
theorem mem_labels_iff {t : RoseTree α} (ht : t.Follows next)
    (hnext : ∀ a ∈ region E t.label, ∀ b, E a b ↔ b ∈ next a) {x : α} :
    x ∈ t.labels ↔ x ∈ region E t.label := by
  induction t with
  | node a cs ih =>
      have hedge : ∀ b, E a b ↔ b ∈ cs.map label := fun b => by
        rw [ht.children]
        exact hnext a (mem_region_self a) b
      rw [labels_node, List.mem_cons, label_node, region_eq_insert, Set.mem_insert_iff,
        mem_labelsAll_of hedge fun c hc => ih c hc (ht.child hc) fun b hb => ?_]
      exact hnext b (ReflTransGen.head ((hedge _).2 (List.mem_map_of_mem hc)) hb)

/-- The labels below the root are its proper descendants. -/
theorem mem_labelsAll_iff {a : α} {cs : List (RoseTree α)}
    (ht : (RoseTree.node a cs).Follows next)
    (hnext : ∀ b ∈ region E a, ∀ c, E b c ↔ c ∈ next b) {x : α} :
    x ∈ labelsAll cs ↔ x ∈ below E a := by
  have hedge : ∀ b, E a b ↔ b ∈ cs.map label := fun b => by
    rw [ht.children]
    exact hnext a (mem_region_self a) b
  refine mem_labelsAll_of hedge fun c hc => mem_labels_iff (ht.child hc) fun b hb => ?_
  exact hnext b (ReflTransGen.head ((hedge _).2 (List.mem_map_of_mem hc)) hb)

end IsRootedTree

end Aura.Lib
