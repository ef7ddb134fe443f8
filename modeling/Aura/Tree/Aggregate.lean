import Mathlib.Data.List.Nodup
import Aura.Lib.RootedTree

/-!
# The aggregation of atree

`aggregate` goes over the scanned tree with a stack of frames of its own, each a node and the index
of its next child. A file is added to its directory as it is passed, a directory to its parent as
its frame is popped. The nodes are a store under their addresses, and allocation is a parameter.

* `moves_children`, `moves_dir` — what the loop does between two states with the same stack: over
  the rest of a frame's children, and from a frame's push to its pop;
* `aggregate_counts` — the call returns, and what it leaves in a directory are the numbers and the
  size of what lies below it, in whatever order the children are stored.
-/

namespace Aura

open Lib Relation

/-! ## The code -/

/-- The fields of `tree_node_t` that the aggregation reads or writes. -/
structure TreeNode where
  isDir : Bool
  /-- `st.stx_size`. -/
  stxSize : UInt64
  /-- `children`, of which there are `num_children`. -/
  children : List ℕ
  totalSize : UInt64
  totalFiles : ℤ
  totalDirs : ℤ

/-- `agg_frame_t`. -/
structure AggFrame where
  node : ℕ
  /-- The next child to process; `-1` when the totals are not initialized yet. -/
  childIdx : ℤ

/-- The locals of `aggregate`, with the nodes. The top of the stack comes first. -/
structure AggState where
  nodes : ℕ → TreeNode
  stack : List AggFrame
  cap : ℕ

/-- `sizeof(agg_frame_t)`. -/
def aggFrameSize : ℕ := 16

namespace TreeNode

/-- A file's total is its own size. -/
def leafTotal (n : TreeNode) : TreeNode := { n with totalSize := n.stxSize }

/-- The totals start at zero. -/
def clear (n : TreeNode) : TreeNode := { n with totalSize := 0, totalFiles := 0, totalDirs := 0 }

/-- A file `c` is counted in its directory. -/
def addLeaf (c n : TreeNode) : TreeNode :=
  { n with totalFiles := n.totalFiles + 1, totalSize := n.totalSize + c.totalSize }

/-- A directory `n` that is done is counted in its parent. -/
def addDir (n parent : TreeNode) : TreeNode :=
  { parent with
    totalDirs := parent.totalDirs + (1 + n.totalDirs)
    totalFiles := parent.totalFiles + n.totalFiles
    totalSize := parent.totalSize + n.totalSize }

end TreeNode

/-- A write to one node. -/
def writeNode (nodes : ℕ → TreeNode) (n : ℕ) (f : TreeNode → TreeNode) : ℕ → TreeNode :=
  Function.update nodes n (f (nodes n))

/-- The push of a child's frame, which doubles a full stack first; without memory for that,
`aggregate` returns. -/
def pushFrame (alloc : ℕ → Bool) (s : AggState) (c : ℕ) : AggState :=
  if s.stack.length ≥ s.cap then
    if alloc (s.cap * 2 * aggFrameSize) then
      { s with stack := ⟨c, -1⟩ :: s.stack, cap := s.cap * 2 }
    else { s with stack := [] }
  else { s with stack := ⟨c, -1⟩ :: s.stack }

/-- What a popped directory `n` leaves to its parent, if any. -/
def settle (nodes : ℕ → TreeNode) (n : ℕ) : List AggFrame → ℕ → TreeNode
  | [] => nodes
  | parent :: _ => writeNode nodes parent.node ((nodes n).addDir)

/-- The part of the loop body for a directory whose totals are initialized: the next child, or the
end of its frame. -/
def aggChild (alloc : ℕ → Bool) (nodes : ℕ → TreeNode) (frame : AggFrame) (rest : List AggFrame)
    (cap : ℕ) : AggState :=
  match (nodes frame.node).children[frame.childIdx.toNat]? with
  | some c =>
    let frame' := { frame with childIdx := frame.childIdx + 1 }
    if !(nodes c).isDir then
      let nodes' := writeNode nodes c TreeNode.leafTotal
      { nodes := writeNode nodes' frame.node ((nodes' c).addLeaf), stack := frame' :: rest,
        cap := cap }
    else pushFrame alloc { nodes := nodes, stack := frame' :: rest, cap := cap } c
  | none => { nodes := settle nodes frame.node rest, stack := rest, cap := cap }

/-- The body of the loop of `aggregate`. -/
def aggStep (alloc : ℕ → Bool) (s : AggState) : AggState :=
  match s.stack with
  | [] => s
  | frame :: rest =>
    if !(s.nodes frame.node).isDir then
      { s with nodes := writeNode s.nodes frame.node TreeNode.leafTotal, stack := rest }
    else if frame.childIdx = -1 then
      aggChild alloc (writeNode s.nodes frame.node TreeNode.clear) { frame with childIdx := 0 } rest
        s.cap
    else aggChild alloc s.nodes frame rest s.cap

/-- The loop of `aggregate`. -/
def aggregateLoop (alloc : ℕ → Bool) : ℕ → AggState → Option (ℕ → TreeNode)
  | fuel, s =>
    match s.stack, fuel with
    | [], _ => some s.nodes
    | _ :: _, 0 => none
    | _ :: _, fuel + 1 => aggregateLoop alloc fuel (aggStep alloc s)

/-- `aggregate`: the nodes when it returns. `alloc` says whether so many bytes can be had. -/
def aggregate (alloc : ℕ → Bool) (fuel : ℕ) (nodes : ℕ → TreeNode) (root : ℕ) :
    Option (ℕ → TreeNode) :=
  if alloc (256 * aggFrameSize) then aggregateLoop alloc fuel ⟨nodes, [⟨root, -1⟩], 256⟩
  else some nodes

/-! ## The tree -/

/-- `b` is an entry of the directory `a`. Only directories have entries. -/
def ChildOf (nodes : ℕ → TreeNode) (a b : ℕ) : Prop :=
  (nodes a).isDir = true ∧ b ∈ (nodes a).children

/-- The nodes from `root` on are a finite tree, no directory of which lists an entry twice. -/
structure IsFileTree (nodes : ℕ → TreeNode) (root : ℕ) : Prop extends
    IsRootedTree (ChildOf nodes) root where
  nodup : ∀ d ∈ region (ChildOf nodes) root, (nodes d).isDir = true → (nodes d).children.Nodup

/-- What the aggregation does not write. -/
def TreeNode.shape (n : TreeNode) : Bool × UInt64 × List ℕ := (n.isDir, n.stxSize, n.children)

/-- The same nodes, but for the totals. -/
def SameShape (nodes nodes' : ℕ → TreeNode) : Prop := ∀ n, (nodes' n).shape = (nodes n).shape

/-- The same nodes, but for the totals and the order of the children. -/
def Reordered (nodes nodes' : ℕ → TreeNode) : Prop :=
  ∀ n, (nodes' n).isDir = (nodes n).isDir ∧ (nodes' n).stxSize = (nodes n).stxSize ∧
    ((nodes' n).children).Perm (nodes n).children

/-- A size, a number of files and a number of directories. -/
abbrev Tally : Type := ℕ × ℕ × ℕ

/-- What a node adds to the tally of a directory above it. -/
def share (nodes : ℕ → TreeNode) (n : ℕ) : Tally :=
  if (nodes n).isDir then (0, 0, 1) else ((nodes n).stxSize.toNat, 1, 0)

/-- The tally of everything below a node. -/
noncomputable def tally (nodes : ℕ → TreeNode) (n : ℕ) : Tally :=
  ∑ᶠ x ∈ below (ChildOf nodes) n, share nodes x

/-- The totals of a node stand for a tally. -/
def TreeNode.Totals (n : TreeNode) (t : Tally) : Prop :=
  n.totalSize = UInt64.ofNat t.1 ∧ n.totalFiles = t.2.1 ∧ n.totalDirs = t.2.2

namespace SameShape

variable {nodes g : ℕ → TreeNode} {n : ℕ}

theorem isDir (h : SameShape nodes g) : (g n).isDir = (nodes n).isDir := congrArg Prod.fst (h n)

theorem stxSize (h : SameShape nodes g) : (g n).stxSize = (nodes n).stxSize :=
  congrArg (fun s : Bool × UInt64 × List ℕ => s.2.1) (h n)

theorem children (h : SameShape nodes g) : (g n).children = (nodes n).children :=
  congrArg (fun s : Bool × UInt64 × List ℕ => s.2.2) (h n)

/-- A write of totals keeps the shape. -/
theorem writeNode (h : SameShape nodes g) {f : TreeNode → TreeNode}
    (hf : (f (g n)).shape = (g n).shape) : SameShape nodes (writeNode g n f) := by
  intro x
  by_cases hx : x = n
  · subst hx
    rw [Aura.writeNode, Function.update_self, hf, h]
  · rw [Aura.writeNode, Function.update_of_ne hx, h]

end SameShape

namespace TreeNode

variable {n c p : TreeNode} {t u : Tally}

theorem totals_clear : n.clear.Totals 0 := ⟨rfl, rfl, rfl⟩

theorem totals_addLeaf (h : n.Totals t) :
    (c.leafTotal.addLeaf n).Totals (t + (c.stxSize.toNat, 1, 0)) := by
  obtain ⟨hsize, hfiles, hdirs⟩ := h
  refine ⟨?_, ?_, ?_⟩
  · simp only [addLeaf, leafTotal, hsize, Prod.fst_add, UInt64.ofNat_add, UInt64.ofNat_toNat]
  · simp [addLeaf, hfiles]
  · simp [addLeaf, hdirs]

theorem totals_addDir (hn : n.Totals u) (hp : p.Totals t) :
    (n.addDir p).Totals (t + ((0, 0, 1) + u)) := by
  obtain ⟨hsize, hfiles, hdirs⟩ := hp
  obtain ⟨hsize', hfiles', hdirs'⟩ := hn
  refine ⟨?_, ?_, ?_⟩
  · simp only [addDir, hsize, hsize', Prod.fst_add, UInt64.ofNat_add, zero_add]
  · simp [addDir, hfiles, hfiles']
  · simp [addDir, hdirs, hdirs']

end TreeNode

variable {nodes : ℕ → TreeNode} {root n c : ℕ}

/-- Nothing is below a file. -/
theorem below_file (h : (nodes n).isDir = false) : below (ChildOf nodes) n = ∅ :=
  below_eq_empty fun _ hc => Bool.false_ne_true (h.symm.trans hc.1)

theorem tally_file (h : (nodes n).isDir = false) : tally nodes n = 0 := by
  rw [tally, below_file h, finsum_mem_empty]

theorem region_file (h : (nodes n).isDir = false) : region (ChildOf nodes) n = {n} := by
  rw [region_eq_insert, below_file h, insert_empty_eq]

/-- The tally of a directory, child by child. -/
theorem IsFileTree.tally_dir (h : IsFileTree nodes root) (hn : n ∈ region (ChildOf nodes) root)
    (hdir : (nodes n).isDir = true) :
    tally nodes n = ((nodes n).children.map fun c => share nodes c + tally nodes c).sum :=
  (h.subtree hn).sum_below (share nodes) (h.nodup n hn hdir)
    fun _ => ⟨fun hc => hc.2, fun hc => ⟨hdir, hc⟩⟩

/-! ## One step of the loop -/

variable {alloc : ℕ → Bool} {g : ℕ → TreeNode} {rest : List AggFrame} {cap i : ℕ}

/-- Rounds of the loop. -/
abbrev AggMoves (alloc : ℕ → Bool) : AggState → AggState → Prop :=
  ReflTransGen fun s s' => aggStep alloc s = s'

/-- A file on top of the stack is popped. -/
theorem aggStep_file (h : (g n).isDir = false) :
    aggStep alloc ⟨g, ⟨n, -1⟩ :: rest, cap⟩ = ⟨writeNode g n TreeNode.leafTotal, rest, cap⟩ := by
  simp only [aggStep, h, Bool.not_false, if_true]

/-- A directory whose totals are initialized goes to its next child. -/
theorem aggStep_dir (h : (g n).isDir = true) :
    aggStep alloc ⟨g, ⟨n, i⟩ :: rest, cap⟩ = aggChild alloc g ⟨n, i⟩ rest cap := by
  have hi : (i : ℤ) ≠ -1 := by omega
  simp only [aggStep, h, Bool.not_true, Bool.false_eq_true, if_false, hi]

/-- The first visit of a directory clears its totals and goes on as for the first child. -/
theorem aggStep_first (h : (g n).isDir = true) :
    aggStep alloc ⟨g, ⟨n, -1⟩ :: rest, cap⟩ =
      aggStep alloc ⟨writeNode g n TreeNode.clear, ⟨n, (0 : ℕ)⟩ :: rest, cap⟩ := by
  have hclear : (writeNode g n TreeNode.clear n).isDir = true := by
    rw [writeNode, Function.update_self]
    exact h
  rw [aggStep_dir hclear]
  simp only [aggStep, h, Bool.not_true, Bool.false_eq_true, if_false, if_true]
  rfl

/-- A file is counted as it is passed. -/
theorem aggChild_file (hc : (g n).children[i]? = some c) (hfile : (g c).isDir = false) :
    aggChild alloc g ⟨n, i⟩ rest cap =
      ⟨writeNode (writeNode g c TreeNode.leafTotal) n ((g c).leafTotal.addLeaf),
        ⟨n, (i + 1 : ℕ)⟩ :: rest, cap⟩ := by
  simp only [aggChild, Int.toNat_natCast, hc, hfile, Bool.not_false, if_true, writeNode,
    Function.update_self]
  rfl

/-- A directory is pushed, whether the stack is full or not. -/
theorem aggChild_dir (halloc : ∀ n, alloc n = true) (hc : (g n).children[i]? = some c)
    (hdir : (g c).isDir = true) :
    ∃ cap', aggChild alloc g ⟨n, i⟩ rest cap =
      ⟨g, ⟨c, -1⟩ :: ⟨n, (i + 1 : ℕ)⟩ :: rest, cap'⟩ := by
  simp only [aggChild, Int.toNat_natCast, hc, hdir, Bool.not_true, Bool.false_eq_true, if_false,
    pushFrame, halloc, if_true]
  split_ifs
  · exact ⟨cap * 2, rfl⟩
  · exact ⟨cap, rfl⟩

/-- Behind the last child the frame is popped. -/
theorem aggChild_end (h : (g n).children.length ≤ i) :
    aggChild alloc g ⟨n, i⟩ rest cap = ⟨settle g n rest, rest, cap⟩ := by
  simp only [aggChild, Int.toNat_natCast, List.getElem?_eq_none h]

/-! ## From a frame's push to its pop -/

/-- The directories among `S` have the totals of what is below them. -/
def Tallied (nodes g : ℕ → TreeNode) (S : Set ℕ) : Prop :=
  ∀ d ∈ S, (nodes d).isDir = true → (g d).Totals (tally nodes d)

/-- What the loop does from the push of the directory `n` to the pop. -/
def DirDone (alloc : ℕ → Bool) (nodes : ℕ → TreeNode) (n : ℕ) : Prop :=
  ∀ g rest cap, SameShape nodes g → ∃ g' cap',
    AggMoves alloc ⟨g, ⟨n, -1⟩ :: rest, cap⟩ ⟨settle g' n rest, rest, cap'⟩ ∧ SameShape nodes g' ∧
      Tallied nodes g' (region (ChildOf nodes) n) ∧ Set.EqOn g' g (region (ChildOf nodes) n)ᶜ

/-- What the loop does with the children `cs` of `n`, at index `i`: it adds their tallies to the
totals of `n`, brings the directories below to theirs and leaves the rest alone. -/
def ChildrenDone (alloc : ℕ → Bool) (nodes : ℕ → TreeNode) (n : ℕ) (cs : List ℕ) : Prop :=
  ∀ g rest cap i t, (nodes n).children.drop i = cs → SameShape nodes g → (g n).Totals t →
    ∃ g' cap' j, (nodes n).children.length ≤ j ∧
      AggMoves alloc ⟨g, ⟨n, i⟩ :: rest, cap⟩ ⟨g', ⟨n, (j : ℕ)⟩ :: rest, cap'⟩ ∧
      SameShape nodes g' ∧
      (g' n).Totals (t + (cs.map fun c => share nodes c + tally nodes c).sum) ∧
      (∀ c ∈ cs, Tallied nodes g' (region (ChildOf nodes) c)) ∧
      ∀ x, x ≠ n → (∀ c ∈ cs, x ∉ region (ChildOf nodes) c) → g' x = g x

/-- One more child in front: what its own round or rounds do, then the rest. -/
theorem ChildrenDone.cons (h : IsFileTree nodes root) (hn : n ∈ region (ChildOf nodes) root)
    {cs : List ℕ} (hrest : ChildrenDone alloc nodes n cs) (hentry : ChildOf nodes n c)
    (hcs : ∀ b ∈ cs, ChildOf nodes n b ∧ b ≠ c)
    (hchild : ∀ g rest cap i t, (nodes n).children[i]? = some c → SameShape nodes g →
      (g n).Totals t → ∃ g' cap',
        AggMoves alloc ⟨g, ⟨n, (i : ℕ)⟩ :: rest, cap⟩ ⟨g', ⟨n, (i + 1 : ℕ)⟩ :: rest, cap'⟩ ∧
        SameShape nodes g' ∧ (g' n).Totals (t + (share nodes c + tally nodes c)) ∧
        Tallied nodes g' (region (ChildOf nodes) c) ∧
        ∀ x, x ≠ n → x ∉ region (ChildOf nodes) c → g' x = g x) :
    ChildrenDone alloc nodes n (c :: cs) := by
  intro g rest cap i t hdrop hg ht
  have hc : (nodes n).children[i]? = some c := by
    rw [← List.head?_drop, hdrop, List.head?_cons]
  have hdrop' : (nodes n).children.drop (i + 1) = cs := by
    rw [← List.tail_drop, hdrop, List.tail_cons]
  obtain ⟨g₁, cap₁, hmoves₁, hg₁, ht₁, htal₁, heq₁⟩ := hchild g rest cap i t hc hg ht
  obtain ⟨g₂, cap₂, j, hj, hmoves₂, hg₂, ht₂, htal₂, heq₂⟩ :=
    hrest g₁ rest cap₁ (i + 1) _ hdrop' hg₁ ht₁
  have hsub := h.subtree hn
  refine ⟨g₂, cap₂, j, hj, hmoves₁.trans hmoves₂, hg₂, ?_, ?_, fun x hx hxs => ?_⟩
  · rw [List.map_cons, List.sum_cons, ← add_assoc]
    exact ht₂
  · intro b hb
    rcases List.mem_cons.1 hb with rfl | hb
    · intro d hd hdir
      -- The later children have their nodes elsewhere.
      rw [heq₂ d (fun heq => hsub.root_notMem_region hentry (heq ▸ hd)) fun b' hb' hd' =>
        Set.disjoint_left.1 (hsub.disjoint_region (hcs b' hb').1 hentry (hcs b' hb').2) hd' hd]
      exact htal₁ d hd hdir
    · exact htal₂ b hb
  · rw [heq₂ x hx fun b hb => hxs b (List.mem_cons_of_mem _ hb),
      heq₁ x hx (hxs c List.mem_cons_self)]

/-- The round in which a file is passed. -/
theorem moves_file (hdir : (nodes n).isDir = true) (hfile : (nodes c).isDir = false) {t : Tally}
    (hc : (nodes n).children[i]? = some c) (hg : SameShape nodes g) (ht : (g n).Totals t) :
    ∃ g' cap', AggMoves alloc ⟨g, ⟨n, (i : ℕ)⟩ :: rest, cap⟩ ⟨g', ⟨n, (i + 1 : ℕ)⟩ :: rest, cap'⟩ ∧
      SameShape nodes g' ∧ (g' n).Totals (t + (share nodes c + tally nodes c)) ∧
      Tallied nodes g' (region (ChildOf nodes) c) ∧
      ∀ x, x ≠ n → x ∉ region (ChildOf nodes) c → g' x = g x := by
  have hne : n ≠ c := by
    rintro rfl
    exact Bool.false_ne_true (hfile.symm.trans hdir)
  have hc' : (g n).children[i]? = some c := by rw [hg.children, hc]
  have hround : aggStep alloc ⟨g, ⟨n, (i : ℕ)⟩ :: rest, cap⟩ = _ :=
    (aggStep_dir (hg.isDir.trans hdir)).trans (aggChild_file hc' (hg.isDir.trans hfile))
  have hg' : SameShape nodes (writeNode g c TreeNode.leafTotal) := hg.writeNode rfl
  refine ⟨_, cap, ReflTransGen.single hround, hg'.writeNode rfl, ?_, ?_, fun x hx hxc => ?_⟩
  · rw [writeNode, Function.update_self, writeNode, Function.update_of_ne hne, tally_file hfile,
      add_zero, share, hfile, if_neg Bool.false_ne_true, ← hg.stxSize]
    exact TreeNode.totals_addLeaf ht
  · intro d hd hdirD
    rw [region_file hfile, Set.mem_singleton_iff] at hd
    subst hd
    exact absurd (hfile.symm.trans hdirD) Bool.false_ne_true
  · have hxc' : x ≠ c := by
      rintro rfl
      exact hxc (mem_region_self x)
    rw [writeNode, Function.update_of_ne hx, writeNode, Function.update_of_ne hxc']

/-- The rounds from the push of a child that is a directory to its pop. -/
theorem moves_subdir (halloc : ∀ n, alloc n = true) (h : IsFileTree nodes root)
    (hn : n ∈ region (ChildOf nodes) root) (hdir : (nodes n).isDir = true)
    (hdirC : (nodes c).isDir = true) (hdone : DirDone alloc nodes c) {t : Tally}
    (hc : (nodes n).children[i]? = some c) (hg : SameShape nodes g) (ht : (g n).Totals t) :
    ∃ g' cap', AggMoves alloc ⟨g, ⟨n, (i : ℕ)⟩ :: rest, cap⟩ ⟨g', ⟨n, (i + 1 : ℕ)⟩ :: rest, cap'⟩ ∧
      SameShape nodes g' ∧ (g' n).Totals (t + (share nodes c + tally nodes c)) ∧
      Tallied nodes g' (region (ChildOf nodes) c) ∧
      ∀ x, x ≠ n → x ∉ region (ChildOf nodes) c → g' x = g x := by
  have hentry : ChildOf nodes n c := ⟨hdir, List.mem_of_getElem? hc⟩
  have hout : n ∉ region (ChildOf nodes) c := (h.subtree hn).root_notMem_region hentry
  have hc' : (g n).children[i]? = some c := by rw [hg.children, hc]
  obtain ⟨cap₁, hpush⟩ : ∃ cap₁, aggChild alloc g ⟨n, i⟩ rest cap =
      ⟨g, ⟨c, -1⟩ :: ⟨n, (i + 1 : ℕ)⟩ :: rest, cap₁⟩ :=
    aggChild_dir halloc hc' (hg.isDir.trans hdirC)
  have hround := (aggStep_dir (hg.isDir.trans hdir)).trans hpush
  obtain ⟨g₁, cap₂, hmoves, hg₁, htal, heq⟩ := hdone g (⟨n, (i + 1 : ℕ)⟩ :: rest) cap₁ hg
  refine ⟨_, cap₂, ReflTransGen.head hround hmoves, hg₁.writeNode rfl, ?_, ?_, fun x hx hxc => ?_⟩
  · rw [settle, writeNode, Function.update_self, heq hout, share, if_pos hdirC]
    exact TreeNode.totals_addDir (htal c (mem_region_self c) hdirC) ht
  · intro d hd hdirD
    have hdn : d ≠ n := ne_of_mem_of_not_mem hd hout
    rw [settle, writeNode, Function.update_of_ne hdn]
    exact htal d hd hdirD
  · rw [settle, writeNode, Function.update_of_ne hx, heq hxc]

/-- **The children of a directory**, when each of those that are directories is done from push to
pop. -/
theorem moves_children (halloc : ∀ n, alloc n = true) (h : IsFileTree nodes root)
    (hn : n ∈ region (ChildOf nodes) root) (hdir : (nodes n).isDir = true)
    (ih : ∀ c, ChildOf nodes n c → (nodes c).isDir = true → DirDone alloc nodes c) (cs : List ℕ)
    (hcs : cs.Sublist (nodes n).children) : ChildrenDone alloc nodes n cs := by
  induction cs with
  | nil =>
      intro g rest cap i t hdrop hg ht
      exact ⟨g, cap, i, List.drop_eq_nil_iff.1 hdrop, ReflTransGen.refl, hg, ht,
        fun _ hc => absurd hc List.not_mem_nil, fun _ _ _ => rfl⟩
  | cons c cs ihcs =>
      have hentry : ∀ b ∈ c :: cs, ChildOf nodes n b := fun b hb => ⟨hdir, hcs.subset hb⟩
      have hnodup : (c :: cs).Nodup := (h.nodup n hn hdir).sublist hcs
      refine (ihcs ((List.sublist_cons_self c cs).trans hcs)).cons h hn
        (hentry c List.mem_cons_self)
        (fun b hb => ⟨hentry b (List.mem_cons_of_mem _ hb), fun heq =>
          (List.nodup_cons.1 hnodup).1 (heq ▸ hb)⟩) ?_
      intro g rest cap i t hc hg ht
      cases hdirC : (nodes c).isDir with
      | false => exact moves_file hdir hdirC hc hg ht
      | true =>
          exact moves_subdir halloc h hn hdir hdirC (ih c (hentry c List.mem_cons_self) hdirC)
            hc hg ht

/-- **A directory, from push to pop.** -/
theorem moves_dir (halloc : ∀ n, alloc n = true) (h : IsFileTree nodes root) :
    ∀ n ∈ region (ChildOf nodes) root, (nodes n).isDir = true → DirDone alloc nodes n := by
  -- From the leaves up: the directories among the children are done by induction.
  refine h.induction fun n hn ih hdir g rest cap hg => ?_
  have hclear : SameShape nodes (writeNode g n TreeNode.clear) := hg.writeNode rfl
  obtain ⟨g', cap', j, hj, hmoves, hg', ht, htal, heq⟩ :=
    moves_children halloc h hn hdir ih (nodes n).children (List.Sublist.refl _)
      (writeNode g n TreeNode.clear) rest cap 0 0 List.drop_zero hclear
      (by rw [writeNode, Function.update_self]; exact TreeNode.totals_clear)
  have hpop : aggStep alloc ⟨g', ⟨n, (j : ℕ)⟩ :: rest, cap'⟩ = ⟨settle g' n rest, rest, cap'⟩ :=
    (aggStep_dir (hg'.isDir.trans hdir)).trans
      (aggChild_end (by rw [hg'.children]; exact hj))
  -- The rounds from the cleared totals on are those from the push on.
  obtain ⟨s, hs, hsrest⟩ := TransGen.head'_iff.1 (TransGen.tail' hmoves hpop)
  refine ⟨g', cap', ReflTransGen.head ((aggStep_first (hg.isDir.trans hdir)).trans hs) hsrest, hg',
    ?_, fun x hx => ?_⟩
  · intro d hd hdirD
    rw [region_eq_insert, Set.mem_insert_iff] at hd
    rcases hd with rfl | hd
    · rw [h.tally_dir hn hdir]
      rw [zero_add] at ht
      exact ht
    · obtain ⟨c, hc, hdc⟩ := TransGen.head'_iff.1 hd
      exact htal c hc.2 d hdc hdirD
  · have hxn : x ≠ n := by
      rintro rfl
      exact hx (mem_region_self x)
    rw [heq x hxn fun c hc hxc => hx (region_subset_of_edge ⟨hdir, hc⟩ hxc), writeNode,
      Function.update_of_ne hxn]

/-! ## The whole call -/

/-- `aggregate` returns with the nodes `nodes'`, given enough rounds. -/
def AggReturns (alloc : ℕ → Bool) (nodes : ℕ → TreeNode) (root : ℕ)
    (nodes' : ℕ → TreeNode) : Prop :=
  ∃ rounds, ∀ fuel, rounds ≤ fuel → aggregate alloc fuel nodes root = some nodes'

theorem aggregateLoop_nil {s : AggState} (fuel : ℕ) (h : s.stack = []) :
    aggregateLoop alloc fuel s = some s.nodes := by
  unfold aggregateLoop
  split <;> simp_all

theorem aggregateLoop_succ {s : AggState} (fuel : ℕ) (h : s.stack ≠ []) :
    aggregateLoop alloc (fuel + 1) s = aggregateLoop alloc fuel (aggStep alloc s) := by
  obtain ⟨nodes, stack, cap⟩ := s
  cases stack with
  | nil => exact absurd rfl h
  | cons frame rest => rfl

/-- A run of the loop to an empty stack is what the loop computes. -/
theorem aggregateLoop_of_moves {s s' : AggState} (h : AggMoves alloc s s') (hs' : s'.stack = []) :
    ∃ rounds, ∀ fuel, rounds ≤ fuel → aggregateLoop alloc fuel s = some s'.nodes := by
  induction h using ReflTransGen.head_induction_on with
  | refl => exact ⟨0, fun fuel _ => aggregateLoop_nil fuel hs'⟩
  | @head s t hst _ ih =>
      obtain ⟨rounds, hrounds⟩ := ih
      refine ⟨rounds + 1, fun fuel hfuel => ?_⟩
      by_cases hs : s.stack = []
      · have hts : t = s := by rw [← hst, aggStep, hs]
        rw [← hrounds fuel (by omega), hts]
      · obtain ⟨fuel, rfl⟩ := Nat.exists_eq_succ_of_ne_zero (by omega : fuel ≠ 0)
        rw [Nat.succ_eq_add_one, aggregateLoop_succ fuel hs, hst]
        exact hrounds fuel (by omega)

/-- The call returns, and every directory of the tree has its tally. Only totals are written. -/
theorem aggregate_tallied (halloc : ∀ n, alloc n = true) (h : IsFileTree nodes root) :
    ∃ nodes', AggReturns alloc nodes root nodes' ∧ SameShape nodes nodes' ∧
      Tallied nodes nodes' (region (ChildOf nodes) root) := by
  have hshape : SameShape nodes nodes := fun _ => rfl
  cases hdir : (nodes root).isDir with
  | false =>
      have hmoves : AggMoves alloc ⟨nodes, [⟨root, -1⟩], 256⟩
          ⟨writeNode nodes root TreeNode.leafTotal, [], 256⟩ :=
        ReflTransGen.single (aggStep_file hdir)
      obtain ⟨rounds, hrounds⟩ := aggregateLoop_of_moves hmoves rfl
      refine ⟨writeNode nodes root TreeNode.leafTotal, ⟨rounds, fun fuel hfuel => ?_⟩,
        hshape.writeNode rfl, fun d hd hdirD => ?_⟩
      · rw [aggregate, halloc, if_pos rfl, hrounds fuel hfuel]
      · rw [region_file hdir, Set.mem_singleton_iff] at hd
        subst hd
        exact absurd (hdir.symm.trans hdirD) Bool.false_ne_true
  | true =>
      obtain ⟨g', cap', hmoves, hg', htal, -⟩ :=
        moves_dir halloc h root (mem_region_self root) hdir nodes [] 256 hshape
      obtain ⟨rounds, hrounds⟩ := aggregateLoop_of_moves hmoves rfl
      refine ⟨g', ⟨rounds, fun fuel hfuel => ?_⟩, hg', htal⟩
      rw [aggregate, halloc, if_pos rfl, hrounds fuel hfuel]
      rfl

/-! ## What the totals count -/

/-- The files below `d`. -/
def filesBelow (nodes : ℕ → TreeNode) (d : ℕ) : Set ℕ :=
  {x ∈ below (ChildOf nodes) d | (nodes x).isDir = false}

/-- The directories below `d`. -/
def dirsBelow (nodes : ℕ → TreeNode) (d : ℕ) : Set ℕ :=
  {x ∈ below (ChildOf nodes) d | (nodes x).isDir = true}

/-- A sum over the elements of a finite set with a property is a sum over the set in which the
others count for nothing. -/
theorem finsum_mem_sep {s : Set ℕ} (hs : s.Finite) (p : ℕ → Prop) [DecidablePred p] (w : ℕ → ℕ) :
    ∑ᶠ x ∈ s, (if p x then w x else 0) = ∑ᶠ x ∈ {x ∈ s | p x}, w x := by
  rw [finsum_mem_eq_finite_toFinset_sum _ hs,
    finsum_mem_eq_finite_toFinset_sum _ (hs.subset (Set.sep_subset s p)), ← Finset.sum_filter]
  refine Finset.sum_congr ?_ fun _ _ => rfl
  ext x
  simp

/-- The same with ones counts them. -/
theorem finsum_mem_ite_one {s : Set ℕ} (hs : s.Finite) (p : ℕ → Prop) [DecidablePred p] :
    ∑ᶠ x ∈ s, (if p x then 1 else 0) = {x ∈ s | p x}.ncard := by
  have hsep : {x ∈ s | p x}.Finite := hs.subset (Set.sep_subset s p)
  rw [finsum_mem_sep hs p fun _ => 1, finsum_mem_eq_finite_toFinset_sum _ hsep,
    Set.ncard_eq_toFinset_card _ hsep, Finset.card_eq_sum_ones]

/-- The tally of a node, part by part. -/
theorem tally_eq (hfin : (below (ChildOf nodes) n).Finite) :
    tally nodes n = (∑ᶠ x ∈ filesBelow nodes n, (nodes x).stxSize.toNat,
      (filesBelow nodes n).ncard, (dirsBelow nodes n).ncard) := by
  have hpart : ∀ f : Tally →+ ℕ, f (tally nodes n) =
      ∑ᶠ x ∈ below (ChildOf nodes) n, f (share nodes x) := fun f =>
    AddMonoidHom.map_finsum_mem _ f hfin
  have hsize : (tally nodes n).1 = ∑ᶠ x ∈ filesBelow nodes n, (nodes x).stxSize.toNat := by
    refine (hpart (AddMonoidHom.fst _ _)).trans ?_
    rw [filesBelow, ← finsum_mem_sep hfin]
    refine finsum_mem_congr rfl fun x _ => ?_
    cases hx : (nodes x).isDir <;> simp [share, hx]
  have hfiles : (tally nodes n).2.1 = (filesBelow nodes n).ncard := by
    refine (hpart ((AddMonoidHom.fst _ _).comp (AddMonoidHom.snd _ _))).trans ?_
    rw [filesBelow, ← finsum_mem_ite_one hfin]
    refine finsum_mem_congr rfl fun x _ => ?_
    cases hx : (nodes x).isDir <;> simp [share, hx]
  have hdirs : (tally nodes n).2.2 = (dirsBelow nodes n).ncard := by
    refine (hpart ((AddMonoidHom.snd _ _).comp (AddMonoidHom.snd _ _))).trans ?_
    rw [dirsBelow, ← finsum_mem_ite_one hfin]
    refine finsum_mem_congr rfl fun x _ => ?_
    cases hx : (nodes x).isDir <;> simp [share, hx]
  rw [← hsize, ← hfiles, ← hdirs]

namespace Reordered

variable {other : ℕ → TreeNode}

theorem entry_eq (h : Reordered nodes other) : ChildOf other = ChildOf nodes := by
  funext a b
  rw [ChildOf, ChildOf, (h a).1, (h a).2.2.mem_iff]

/-- Another order of the children makes the same tree. -/
theorem isFileTree (h : Reordered nodes other) (ht : IsFileTree nodes root) :
    IsFileTree other root where
  toIsRootedTree := h.entry_eq ▸ ht.toIsRootedTree
  nodup := fun d hd hdir => (h d).2.2.nodup_iff.2
    (ht.nodup d (h.entry_eq ▸ hd) ((h d).1 ▸ hdir))

theorem tally_eq (h : Reordered nodes other) : tally other n = tally nodes n := by
  have hshare : share other = share nodes := by
    funext x
    rw [share, share, (h x).1, (h x).2.1]
  rw [tally, tally, h.entry_eq, hshare]

end Reordered

/-- Totals that stand for the same tally are the same. -/
theorem TreeNode.Totals.unique {a b : TreeNode} {t : Tally} (ha : a.Totals t) (hb : b.Totals t) :
    a.totalFiles = b.totalFiles ∧ a.totalDirs = b.totalDirs ∧ a.totalSize = b.totalSize :=
  ⟨ha.2.1.trans hb.2.1.symm, ha.2.2.trans hb.2.2.symm, ha.1.trans hb.1.symm⟩

/-- **Aggregation counts the tree.** When memory for the stack can be had, `aggregate` returns for
every finite tree, and leaves in each directory reached through directories the number of files and
of directories below it, and the sum of the sizes of those files modulo `2^64`. Every other order of
the children gives the same totals. -/
theorem aggregate_counts (halloc : ∀ n, alloc n = true) (h : IsFileTree nodes root) :
    ∃ nodes', AggReturns alloc nodes root nodes' ∧
      (∀ d ∈ region (ChildOf nodes) root, (nodes d).isDir = true →
        (nodes' d).totalFiles = (filesBelow nodes d).ncard ∧
        (nodes' d).totalDirs = (dirsBelow nodes d).ncard ∧
        (nodes' d).totalSize.toNat =
          (∑ᶠ x ∈ filesBelow nodes d, (nodes x).stxSize.toNat) % 2 ^ 64) ∧
      ∀ other, Reordered nodes other → ∃ other', AggReturns alloc other root other' ∧
        ∀ d ∈ region (ChildOf nodes) root, (nodes d).isDir = true →
          (other' d).totalFiles = (nodes' d).totalFiles ∧
          (other' d).totalDirs = (nodes' d).totalDirs ∧
          (other' d).totalSize = (nodes' d).totalSize := by
  obtain ⟨nodes', hret, -, htal⟩ := aggregate_tallied halloc h
  refine ⟨nodes', hret, fun d hd hdir => ?_, fun other hother => ?_⟩
  · have hfin : (below (ChildOf nodes) d).Finite :=
      (h.subtree hd).finite.subset fun _ hx => TransGen.to_reflTransGen hx
    obtain ⟨hsize, hfiles, hdirs⟩ := htal d hd hdir
    rw [tally_eq hfin] at hsize hfiles hdirs
    refine ⟨hfiles, hdirs, ?_⟩
    rw [hsize, UInt64.toNat_ofNat']
  · obtain ⟨other', hret', -, htal'⟩ := aggregate_tallied halloc (hother.isFileTree h)
    refine ⟨other', hret', fun d hd hdir => ?_⟩
    have hd' := htal' d (hother.entry_eq ▸ hd) ((hother d).1 ▸ hdir)
    rw [hother.tally_eq] at hd'
    exact hd'.unique (htal d hd hdir)

/-- A directory with a file of the largest size and a directory with a file of three bytes. -/
def sampleTree : ℕ → TreeNode
  | 0 => ⟨true, 0, [1, 2], 0, 0, 0⟩
  | 1 => ⟨false, 0xffffffffffffffff, [], 0, 0, 0⟩
  | 2 => ⟨true, 0, [3], 0, 0, 0⟩
  | 3 => ⟨false, 3, [], 0, 0, 0⟩
  | _ => ⟨false, 0, [], 0, 0, 0⟩

/-- The edges of the sample. -/
theorem entry_sampleTree {a b : ℕ} :
    ChildOf sampleTree a b ↔ a = 0 ∧ (b = 1 ∨ b = 2) ∨ a = 2 ∧ b = 3 := by
  match a with
  | 0 | 1 | 2 | 3 => simp [ChildOf, sampleTree]
  | a + 4 => simp [ChildOf, sampleTree]

theorem below_sampleTree : below (ChildOf sampleTree) 0 = {1, 2, 3} := by
  ext x
  simp only [Set.mem_insert_iff, Set.mem_singleton_iff]
  constructor
  · intro hx
    induction hx with
    | single h => have := entry_sampleTree.1 h; omega
    | tail _ h _ => have := entry_sampleTree.1 h; omega
  · have h2 : ChildOf sampleTree 0 2 := entry_sampleTree.2 (by omega)
    rintro (rfl | rfl | rfl)
    · exact TransGen.single (entry_sampleTree.2 (by omega))
    · exact TransGen.single h2
    · exact TransGen.tail (TransGen.single h2) (entry_sampleTree.2 (by omega))

theorem isFileTree_sampleTree : IsFileTree sampleTree 0 where
  finite := by
    rw [region_eq_insert, below_sampleTree]
    exact Set.toFinite _
  parent_unique := fun a _ b _ c hac hbc => by
    have := entry_sampleTree.1 hac
    have := entry_sampleTree.1 hbc
    omega
  no_parent := fun a _ h => by
    have := entry_sampleTree.1 h
    omega
  nodup := fun d hd _ => by
    rw [region_eq_insert, below_sampleTree] at hd
    rcases hd with rfl | rfl | rfl | rfl <;> decide

/-- The sample has two files and a directory below its root, and sizes that wrap around. -/
theorem aggregate_counts_sample :
    ∃ nodes', AggReturns (fun _ => true) sampleTree 0 nodes' ∧ (nodes' 0).totalFiles = 2 ∧
      (nodes' 0).totalDirs = 1 ∧ (nodes' 0).totalSize.toNat = 2 := by
  have hfiles : filesBelow sampleTree 0 = {1, 3} := by
    rw [filesBelow, below_sampleTree]
    ext x
    simp only [Set.mem_insert_iff, Set.mem_singleton_iff]
    constructor
    · rintro ⟨rfl | rfl | rfl, h⟩ <;> simp_all [sampleTree]
    · rintro (rfl | rfl) <;> simp [sampleTree]
  have hdirs : dirsBelow sampleTree 0 = {2} := by
    rw [dirsBelow, below_sampleTree]
    ext x
    simp only [Set.mem_insert_iff, Set.mem_singleton_iff]
    constructor
    · rintro ⟨rfl | rfl | rfl, h⟩ <;> simp_all [sampleTree]
    · rintro rfl
      simp [sampleTree]
  obtain ⟨nodes', hret, hcount, -⟩ := aggregate_counts (fun _ => rfl) isFileTree_sampleTree
  obtain ⟨h₁, h₂, h₃⟩ := hcount 0 (mem_region_self 0) rfl
  rw [hfiles, Set.ncard_pair (by decide)] at h₁
  rw [hdirs, Set.ncard_singleton] at h₂
  rw [hfiles, finsum_mem_pair (by decide)] at h₃
  exact ⟨nodes', hret, h₁, h₂, h₃⟩

end Aura
