import Aura.Tree.Print

/-!
# The footer of atree

The numbers of the footer are counted by `emit_node`, those of the directories by `aggregate`.
`emit_node` ends early for a node that could not be looked at, and then counts files only.

* `IsFileTree.tally_eq_sum` — the tally of a node of the store, along the rose tree in it.
* `printNode_counts` — what the counters of `print_node` end with.
* **`footer_agrees_iff`** — the footer agrees with the totals of the root unless some directory
  below it could not be looked at.
-/

namespace Aura

open Lib RoseTree Relation

variable {env : DisplayEnv} {config : DisplayConfig} {cs : ColorScheme} {nodes : ℕ → ListedNode}
variable {root : ℕ}

/-- The part of the nodes that `aggregate` looks at. -/
def treePart (nodes : ℕ → ListedNode) (n : ℕ) : TreeNode := (nodes n).toTreeNode

/-- The nodes after `aggregate`. -/
def withTotals (nodes : ℕ → ListedNode) (g : ℕ → TreeNode) (n : ℕ) : ListedNode :=
  { nodes n with toTreeNode := g n }

/-- What `sort_tree` does: it permutes the children of the nodes. -/
def Resorted (nodes sorted : ℕ → ListedNode) : Prop :=
  ∀ n, ∃ children, children.Perm (nodes n).children ∧
    sorted n = { nodes n with children := children }

/-! ## The totals, along the tree -/

/-- Only directories have entries, for `print_node` as for `aggregate`. -/
theorem childOf_iff (a b : ℕ) : ChildOf (treePart nodes) a b ↔ b ∈ entries nodes a := by
  rw [ChildOf, entries, treePart]
  cases (nodes a).isDir with
  | true => simp
  | false => simp

/-- **The tally of a node** is what the nodes below it in the rose tree have as their shares. -/
theorem IsFileTree.tally_eq_sum {n : ℕ} {ts : List (RoseTree ℕ)}
    (h : IsFileTree (treePart nodes) root) (hn : n ∈ region (ChildOf (treePart nodes)) root)
    (ht : (RoseTree.node n ts).Follows (entries nodes)) :
    tally (treePart nodes) n = ((labelsAll ts).map (share (treePart nodes))).sum := by
  -- From the leaves up, for a node together with its own share.
  suffices hself : ∀ t : RoseTree ℕ, t.Follows (entries nodes) →
      t.label ∈ region (ChildOf (treePart nodes)) root →
      share (treePart nodes) t.label + tally (treePart nodes) t.label =
        (t.labels.map (share (treePart nodes))).sum by
    have := hself _ ht hn
    rw [labels_node, List.map_cons, List.sum_cons, label_node] at this
    exact add_left_cancel this
  intro t
  induction t with
  | node a bs ih =>
      intro ht ha
      rw [label_node] at ha
      rw [labels_node, List.map_cons, List.sum_cons, label_node]
      refine congrArg (share (treePart nodes) a + ·) ?_
      cases hdir : (nodes a).isDir with
      | false =>
          have hbs : bs = [] := by
            have hchildren := ht.children
            rw [entries, hdir, if_neg Bool.false_ne_true, List.map_eq_nil_iff] at hchildren
            exact hchildren
          rw [hbs, tally_file hdir]
          rfl
      | true =>
          have hchildren : (treePart nodes a).children = bs.map label := by
            rw [ht.children, entries, if_pos hdir]
            rfl
          rw [h.tally_dir ha hdir, hchildren, List.map_map, sum_map_labelsAll]
          refine congrArg List.sum (List.map_congr_left fun b hb => ?_)
          refine ih b hb (ht.child hb) (ReflTransGen.tail ha ?_)
          rw [childOf_iff, ← ht.children]
          exact List.mem_map_of_mem hb

variable (nodes) in
/-- The files and the directories of a tally are counted. -/
theorem sum_share (l : List ℕ) :
    ((l.map (share (treePart nodes))).sum).2 =
      (l.countP fun n => !(nodes n).isDir, l.countP fun n => (nodes n).isDir) := by
  induction l with
  | nil => rfl
  | cons n l ih =>
      rw [List.map_cons, List.sum_cons, Prod.snd_add, ih, List.countP_cons, List.countP_cons, share,
        treePart]
      cases (nodes n).isDir with
      | true => simp [Nat.add_comm]
      | false => simp [Nat.add_comm]

/-! ## The counters, along the tree -/

variable (cs nodes) in
/-- What a line adds to the counters. -/
theorem counts_emitPlace (halloc : ∀ n, env.alloc n = true) (hdirs : config.dirsOnly = false)
    (e : Emission) (p : Place ℕ) :
    (emitPlace env config cs nodes e p).fileCount =
        e.fileCount + (if (nodes p.label).isDir then 0 else 1) ∧
      (emitPlace env config cs nodes e p).dirCount = e.dirCount +
        (if (nodes p.label).isDir ∧ (nodes p.label).statErr = 0 ∧ 0 < p.depth then 1 else 0) := by
  have hshown : (config.dirsOnly && !(nodes p.label).isDir) = false := by rw [hdirs]; rfl
  exact (emitNode_spec halloc hshown).2.2

/-- A directory below the root that could be looked at: `emit_node` counts these. -/
def countsDir (nodes : ℕ → ListedNode) (p : Place ℕ) : Bool :=
  decide ((nodes p.label).isDir ∧ (nodes p.label).statErr = 0 ∧ 0 < p.depth)

variable (cs nodes) in
/-- The counters after some lines, when none is left out. -/
theorem counts_foldl (halloc : ∀ n, env.alloc n = true) (hdirs : config.dirsOnly = false)
    (ps : List (Place ℕ)) (e : Emission) :
    (ps.foldl (emitPlace env config cs nodes) e).fileCount =
        e.fileCount + (ps.countP fun p => !(nodes p.label).isDir : ℕ) ∧
      (ps.foldl (emitPlace env config cs nodes) e).dirCount =
        e.dirCount + (ps.countP (countsDir nodes) : ℕ) := by
  induction ps generalizing e with
  | nil => exact ⟨(add_zero _).symm, (add_zero _).symm⟩
  | cons p ps ih =>
      obtain ⟨hfiles, hcount⟩ := ih (emitPlace env config cs nodes e p)
      obtain ⟨hfile, hdir⟩ := counts_emitPlace cs nodes halloc hdirs e p
      rw [List.foldl_cons, hfiles, hcount, hfile, hdir, List.countP_cons, List.countP_cons,
        countsDir]
      constructor
      · cases (nodes p.label).isDir with
        | true => simp
        | false => simp [add_assoc, add_comm]
      · by_cases h : (nodes p.label).isDir ∧ (nodes p.label).statErr = 0 ∧ 0 < p.depth
        · rw [if_pos h, if_pos (decide_eq_true h)]
          push_cast
          ring
        · rw [if_neg h, if_neg (mt of_decide_eq_true h), add_zero, add_zero]

/-- A count of what has two properties is that of what has the first, when this implies the
second. -/
theorem countP_and_eq_iff {α : Type*} (p q : α → Bool) (l : List α) :
    (l.countP fun x => p x && q x) = l.countP p ↔ ∀ x ∈ l, p x = true → q x = true := by
  induction l with
  | nil => simp
  | cons x l ih =>
      have hle : (l.countP fun x => p x && q x) ≤ l.countP p :=
        List.countP_mono_left fun x _ h => (Bool.and_eq_true_iff.1 h).1
      rw [List.countP_cons, List.countP_cons, List.forall_mem_cons, ← ih]
      cases p x with
      | false => simp
      | true =>
          cases q x with
          | false =>
              simp only [Bool.and_false, Bool.false_eq_true, if_false, if_true, forall_const,
                false_and, iff_false]
              omega
          | true => simp

variable (cs) in
/-- **The counters of a whole tree**, printed without a limit: all files, and the directories below
the root that could be looked at. -/
theorem printNode_counts (halloc : ∀ n, env.alloc n = true) (hdepth : config.maxDepth = none)
    (hdirs : config.dirsOnly = false) {ts : List (RoseTree ℕ)} (hdir : (nodes root).isDir = true)
    (ht : (RoseTree.node root ts).Follows (entries nodes)) :
    ∃ e', PrintReturns env config cs nodes root true 0 {} e' ∧
      e'.fileCount = ((labelsAll ts).countP fun n => !(nodes n).isDir : ℕ) ∧
      e'.dirCount = ((labelsAll ts).countP fun n =>
        (nodes n).isDir && decide ((nodes n).statErr = 0) : ℕ) := by
  have hshown : shown config nodes = fun _ => true := by
    funext n
    simp [shown, DisplayConfig.visible, hdirs]
  have hplaces : printPlaces config nodes true (.node root ts) =
      ⟨root, [], true, 0⟩ :: drawnAll [] 1 ts := by
    have hwithin : ∀ ps, withinDepth config ps = ps := fun ps => by
      rw [withinDepth, List.filter_eq_self]
      intro p _
      simp [DisplayConfig.tooDeep, hdepth]
    rw [printPlaces, hwithin, hshown, if_pos rfl, keep_true]
    rfl
  have hdeep : ∀ p ∈ drawnAll [] 1 ts, 0 < p.depth := by
    intro p hp
    obtain ⟨c, -, last, hc⟩ := mem_drawnAll _ _ hp
    exact depth_le_of_mem_drawn _ _ _ hc
  have hlabels : ∀ f : ℕ → Bool,
      ((drawnAll [] 1 ts).countP fun p => f p.label) = (labelsAll ts).countP f := fun f => by
    rw [← map_label_drawnAll [] 1 ts, List.countP_map]
    rfl
  obtain ⟨hfiles, hcount⟩ := counts_foldl cs nodes halloc hdirs
    (printPlaces config nodes true (.node root ts)) {}
  refine ⟨_, printNode_emits halloc ht true {}, ?_, ?_⟩
  · rw [hfiles, hplaces, List.countP_cons_of_neg (by simp [hdir]),
      hlabels fun n => !(nodes n).isDir]
    exact zero_add _
  · rw [hcount, hplaces, List.countP_cons_of_neg (by simp [countsDir]),
      ← hlabels fun n => (nodes n).isDir && decide ((nodes n).statErr = 0)]
    refine (zero_add _).trans (congrArg Nat.cast (List.countP_congr fun p hp => ?_))
    simp [countsDir, hdeep p hp]

/-! ## The footer -/

/-- A call returns with one thing only. -/
theorem PrintReturns.unique {last : Bool} {depth : ℕ} {e e₁ e₂ : Emission}
    (h₁ : PrintReturns env config cs nodes root last depth e e₁)
    (h₂ : PrintReturns env config cs nodes root last depth e e₂) : e₁ = e₂ := by
  obtain ⟨n₁, h₁⟩ := h₁
  obtain ⟨n₂, h₂⟩ := h₂
  have heq := (h₁ (max n₁ n₂) (le_max_left _ _)).symm.trans (h₂ (max n₁ n₂) (le_max_right _ _))
  exact Option.some.inj heq

section

variable {g : ℕ → TreeNode} {sorted : ℕ → ListedNode}

/-- What the printer finds: the nodes of the scan, with the totals and in another order. -/
structure Finds (nodes sorted : ℕ → ListedNode) (g : ℕ → TreeNode) : Prop where
  reordered : Reordered (treePart nodes) (treePart sorted)
  statErr : ∀ n, (sorted n).statErr = (nodes n).statErr
  totalFiles : ∀ n, (sorted n).totalFiles = (g n).totalFiles
  totalDirs : ∀ n, (sorted n).totalDirs = (g n).totalDirs

theorem Resorted.finds (h : Resorted (withTotals nodes g) sorted)
    (hg : SameShape (treePart nodes) g) : Finds nodes sorted g := by
  refine ⟨fun n => ?_, fun n => ?_, fun n => ?_, fun n => ?_⟩
  · obtain ⟨children, hperm, heq⟩ := h n
    have hchildren : children.Perm (treePart nodes n).children :=
      hg.children (n := n) ▸ hperm
    rw [treePart, heq]
    exact ⟨hg.isDir, hg.stxSize, hchildren⟩
  · obtain ⟨children, -, heq⟩ := h n
    rw [heq]
    rfl
  · obtain ⟨children, -, heq⟩ := h n
    rw [heq]
    rfl
  · obtain ⟨children, -, heq⟩ := h n
    rw [heq]
    rfl

/-- **The counters and the totals**, with the nodes as the printer finds them. -/
theorem Finds.agree_iff (hfinds : Finds nodes sorted g) (halloc : ∀ n, env.alloc n = true)
    (h : IsFileTree (treePart nodes) root) (hdir : (nodes root).isDir = true)
    (hdepth : config.maxDepth = none) (hdirs : config.dirsOnly = false)
    (htotals : (g root).Totals (tally (treePart nodes) root)) :
    (∃ e', PrintReturns env config cs sorted root true 0 {} e' ∧
        e'.fileCount = (sorted root).totalFiles ∧ e'.dirCount = (sorted root).totalDirs) ↔
      ∀ d ∈ dirsBelow (treePart nodes) root, (nodes d).statErr = 0 := by
  have hsorted := hfinds.reordered.isFileTree h
  have hisDir : ∀ n, (sorted n).isDir = (nodes n).isDir := fun n => (hfinds.reordered n).1
  obtain ⟨t, hroot, ht⟩ := hsorted.exists_follows (entries sorted) fun a _ b =>
    childOf_iff a b
  cases t with
  | node a ts =>
      rw [label_node] at hroot
      subst hroot
      obtain ⟨e', hret, hfiles, hcount⟩ :=
        printNode_counts cs halloc hdepth hdirs ((hisDir a).trans hdir) ht
      have htally := hsorted.tally_eq_sum (mem_region_self a) ht
      have htwo := sum_share sorted (labelsAll ts)
      rw [← htally, hfinds.reordered.tally_eq] at htwo
      have htotalFiles : (sorted a).totalFiles =
          ((labelsAll ts).countP fun n => !(sorted n).isDir : ℕ) := by
        rw [hfinds.totalFiles, htotals.2.1, htwo]
      have htotalDirs : (sorted a).totalDirs =
          ((labelsAll ts).countP fun n => (sorted n).isDir : ℕ) := by
        rw [hfinds.totalDirs, htotals.2.2, htwo]
      have hmem : ∀ n, n ∈ labelsAll ts ↔ n ∈ below (ChildOf (treePart nodes)) a := fun n => by
        rw [← hfinds.reordered.entry_eq]
        exact IsRootedTree.mem_labelsAll_iff ht fun b _ c => childOf_iff b c
      -- The files agree in any case; for the directories it is a matter of two counts.
      have hagree : e'.dirCount = (sorted a).totalDirs ↔
          ∀ d ∈ dirsBelow (treePart nodes) a, (nodes d).statErr = 0 := by
        rw [hcount, htotalDirs, Nat.cast_inj, countP_and_eq_iff]
        simp only [hmem, hisDir, hfinds.statErr, decide_eq_true_iff]
        exact ⟨fun hall d hd => hall d hd.1 hd.2, fun hall d hd hd' => hall d ⟨hd, hd'⟩⟩
      rw [← hagree]
      constructor
      · rintro ⟨e'', hret'', -, hcount''⟩
        rw [hret.unique hret'']
        exact hcount''
      · intro heq
        exact ⟨e', hret, hfiles.trans htotalFiles.symm, heq⟩

end

/-- **The footer and the totals.** For every finite tree below a directory, scanned, aggregated,
sorted and printed without a depth limit and without `dirs_only`, the counters of `print_node` are
the totals of the root if and only if every directory below the root could be looked at. -/
theorem footer_agrees_iff (halloc : ∀ n, env.alloc n = true) (h : IsFileTree (treePart nodes) root)
    (hdir : (nodes root).isDir = true) (hdepth : config.maxDepth = none)
    (hdirs : config.dirsOnly = false) :
    ∃ g, AggReturns env.alloc (treePart nodes) root g ∧
      ∀ sorted, Resorted (withTotals nodes g) sorted →
        ((∃ e', PrintReturns env config cs sorted root true 0 {} e' ∧
            e'.fileCount = (sorted root).totalFiles ∧ e'.dirCount = (sorted root).totalDirs) ↔
          ∀ d ∈ dirsBelow (treePart nodes) root, (nodes d).statErr = 0) := by
  obtain ⟨g, hret, hshape, htal⟩ := aggregate_tallied halloc h
  refine ⟨g, hret, fun sorted hsorted => ?_⟩
  exact (hsorted.finds hshape).agree_iff halloc h hdir hdepth hdirs
    (htal root (mem_region_self root) hdir)

/-- A directory with a directory in it, for which `statx` has failed with `err` or succeeded. -/
def oneDir (err : ℤ) : ℕ → ListedNode
  | 0 => plainNode true [1] "a"
  | _ => { plainNode true [] "b" with statErr := err }

section

variable {err : ℤ} {a b : ℕ}

theorem childOf_oneDir : ChildOf (treePart (oneDir err)) a b ↔ a = 0 ∧ b = 1 := by
  match a with
  | 0 => simp [ChildOf, treePart, oneDir, plainNode]
  | a + 1 => simp [ChildOf, treePart, oneDir, plainNode]

theorem below_oneDir : below (ChildOf (treePart (oneDir err))) 0 = {1} := by
  ext x
  rw [Set.mem_singleton_iff]
  constructor
  · intro hx
    obtain ⟨y, -, hyx⟩ := TransGen.tail'_iff.1 hx
    exact (childOf_oneDir.1 hyx).2
  · rintro rfl
    exact TransGen.single (childOf_oneDir.2 ⟨rfl, rfl⟩)

theorem isFileTree_oneDir : IsFileTree (treePart (oneDir err)) 0 where
  finite := by
    rw [region_eq_insert, below_oneDir]
    exact Set.toFinite _
  parent_unique := fun a _ b _ c hac hbc =>
    (childOf_oneDir.1 hac).1.trans (childOf_oneDir.1 hbc).1.symm
  no_parent := fun a _ h => absurd (childOf_oneDir.1 h).2 (by decide)
  nodup := fun d _ _ => by
    match d with
    | 0 => exact List.nodup_singleton 1
    | d + 1 => exact List.nodup_nil

end

/-- Where the inner directory could be looked at, the counters agree. -/
theorem footer_agrees_sample : ∃ g, AggReturns plainEnv.alloc (treePart (oneDir 0)) 0 g ∧
    ∃ e', PrintReturns plainEnv {} plainColors (withTotals (oneDir 0) g) 0 true 0 {} e' ∧
      e'.fileCount = (g 0).totalFiles ∧ e'.dirCount = (g 0).totalDirs := by
  obtain ⟨g, hret, hagree⟩ := @footer_agrees_iff plainEnv {} plainColors (oneDir 0) 0
    (fun _ => rfl) isFileTree_oneDir rfl rfl rfl
  refine ⟨g, hret, (hagree (withTotals (oneDir 0) g) fun n => ⟨_, List.Perm.refl _, rfl⟩).2 ?_⟩
  intro d hd
  have hd1 : d = 1 := by
    have := hd.1
    rwa [below_oneDir] at this
  rw [hd1]
  rfl

/-- A directory for which `statx` is denied is among the totals, and the footer leaves it out. -/
theorem footer_leaves_out : ∃ g, AggReturns plainEnv.alloc (treePart (oneDir 13)) 0 g ∧
    ¬ ∃ e', PrintReturns plainEnv {} plainColors (withTotals (oneDir 13) g) 0 true 0 {} e' ∧
      e'.fileCount = (g 0).totalFiles ∧ e'.dirCount = (g 0).totalDirs := by
  have halloc : ∀ n, plainEnv.alloc n = true := fun _ => rfl
  have htree := @isFileTree_oneDir 13
  obtain ⟨g, hret, hshape, htal⟩ := aggregate_tallied halloc htree
  refine ⟨g, hret, fun hagree => ?_⟩
  have hsorted : Resorted (withTotals (oneDir 13) g) (withTotals (oneDir 13) g) :=
    fun n => ⟨_, List.Perm.refl _, rfl⟩
  have hall := ((hsorted.finds hshape).agree_iff halloc htree rfl rfl rfl
    (htal 0 (mem_region_self 0) rfl)).1 hagree
  have hmem : 1 ∈ dirsBelow (treePart (oneDir 13)) 0 := by
    refine ⟨?_, rfl⟩
    rw [below_oneDir]
    rfl
  exact absurd (hall 1 hmem) (by decide)

end Aura
