import Aura.Lib.Loop
import Aura.Lib.RoseTree
import Aura.Tree.Display

/-!
# The tree printer of atree

`print_node` goes over the tree with a stack of frames of its own and one buffer for the prefixes of
all lines: a frame knows how much of the buffer is its own prefix, and writes the segment for its
children behind it. The nodes are a store under their addresses.

* `printPlaces` — the lines that are to be printed: the visible part of the tree in pre-order, each
  node with its place in the drawing, down to the depth limit.
* `printNode_emits` — the call emits these lines, one after the other.
* `print_node_draws` — what the lines begin with.
-/

namespace Aura

open Lib RoseTree Relation

/-! ## The code -/

/-- `print_frame_t`. -/
structure PrintFrame where
  node : ℕ
  isLast : Bool
  depth : ℕ
  /-- The next child to process; `-1` when the node is not printed yet. -/
  childIdx : ℤ
  /-- How much of the prefix buffer is the prefix of the node. -/
  prefixPos : ℕ
  lastVisibleChild : ℕ := 0

/-- The locals of `print_node`, with what `emit_node` writes to. The top of the stack comes
first. -/
structure PrintState where
  stack : List PrintFrame
  cap : ℕ
  pb : LineBuf
  e : Emission

/-- `sizeof(print_frame_t)`. -/
def printFrameSize : ℕ := 40

/-- What an ancestor leaves in the prefix: four blanks or a vertical bar. -/
def segment (isLast : Bool) : List UInt8 :=
  if isLast then bytes "    " else bytes "\xe2\x94\x82   "

namespace DisplayConfig

variable (config : DisplayConfig)

/-- `config->max_depth >= 0 && depth > config->max_depth`. -/
def tooDeep (depth : ℕ) : Bool := config.maxDepth.any fun limit => decide (limit < depth)

/-- `!config->dirs_only || node->is_dir`. -/
def visible (node : ListedNode) : Bool := !config.dirsOnly || node.isDir

end DisplayConfig

section

variable (env : DisplayEnv) (config : DisplayConfig) (cs : ColorScheme) (nodes : ℕ → ListedNode)

/-- The loop for `last_visible_child`, from index `k` down. -/
def lastVisible (children : List ℕ) : ℕ → ℕ
  | 0 => 0
  | k + 1 =>
    if (children[k]?).any fun c => config.visible (nodes c) then k else lastVisible children k

/-- The loop for the next visible child: its index, among children that start at index `ci`. -/
def nextVisible : List ℕ → ℕ → ℕ
  | [], ci => ci
  | c :: rest, ci => if config.visible (nodes c) then ci else nextVisible rest (ci + 1)

/-- The first visit of a node: its line, with the prefix terminated. -/
def printFirst (frame : PrintFrame) (pb : LineBuf) (e : Emission) : LineBuf × Emission :=
  let (pb, ok) := lineBufEnsure env pb (frame.prefixPos + 1)
  let pb := if ok then LineBuf.write pb frame.prefixPos [0] else pb
  (pb, emitNode env config cs (nodes frame.node) pb.text frame.isLast frame.depth e)

/-- The prefix of a frame's children: the buffer and how much of it. -/
def childPrefix (frame : PrintFrame) (pb : LineBuf) : LineBuf × ℕ :=
  if frame.depth ≥ 1 then
    let childPrefixPos := frame.prefixPos + (if frame.isLast then 4 else 6)
    let (pb, ok) := lineBufEnsure env pb (childPrefixPos + 1)
    (if ok then LineBuf.write pb frame.prefixPos (segment frame.isLast) else pb, childPrefixPos)
  else (pb, frame.prefixPos)

/-- The push of a child's frame, which doubles a full stack first; without memory for that,
`print_node` returns. -/
def pushPrintFrame (s : PrintState) (frame : PrintFrame) : PrintState :=
  if s.stack.length ≥ s.cap then
    if env.alloc (s.cap * 2 * printFrameSize) then
      { s with stack := frame :: s.stack, cap := s.cap * 2 }
    else { s with stack := [] }
  else { s with stack := frame :: s.stack }

/-- The part of the loop body for a node that is printed: the next child, or the end of its
frame. -/
def printChild (frame : PrintFrame) (rest : List PrintFrame) (s : PrintState) : PrintState :=
  let node := nodes frame.node
  if !node.isDir || config.beyond frame.depth then { s with stack := rest }
  else
    let first := frame.childIdx.toNat
    let ci := nextVisible config nodes (node.children.drop first) first
    match node.children[ci]? with
    | none => { s with stack := rest }
    | some child =>
      let (pb, childPrefixPos) := childPrefix env frame s.pb
      pushPrintFrame env { s with stack := { frame with childIdx := ci + 1 } :: rest, pb }
        { node := child, isLast := decide (ci ≥ frame.lastVisibleChild), depth := frame.depth + 1,
          childIdx := -1, prefixPos := childPrefixPos }

/-- The body of the loop of `print_node`. -/
def printStep (s : PrintState) : PrintState :=
  match s.stack with
  | [] => s
  | frame :: rest =>
    if config.tooDeep frame.depth then { s with stack := rest }
    else if frame.childIdx = -1 then
      let (pb, e) := printFirst env config cs nodes frame s.pb s.e
      let children := (nodes frame.node).children
      printChild env config nodes
        { frame with
          childIdx := 0
          lastVisibleChild := lastVisible config nodes children children.length }
        rest { s with pb, e }
    else printChild env config nodes frame rest s

/-- The condition of the loop. -/
def PrintState.done (s : PrintState) : Bool := s.stack.isEmpty

/-- `print_node`, from the first line on: what has been emitted when it returns. -/
def printNode (fuel : ℕ) (root : ℕ) (isLast : Bool) (depth : ℕ) (e : Emission) :
    Option Emission :=
  if env.alloc (256 * printFrameSize) then
    (loop PrintState.done (printStep env config cs nodes) fuel
      { stack := [{ node := root, isLast, depth, childIdx := -1, prefixPos := 0 }], cap := 256,
        pb := [], e }).map PrintState.e
  else some e

/-- `print_node` returns with `e'`, given enough rounds. -/
def PrintReturns (root : ℕ) (isLast : Bool) (depth : ℕ) (e e' : Emission) : Prop :=
  ∃ rounds, ∀ fuel, rounds ≤ fuel →
    printNode env config cs nodes fuel root isLast depth e = some e'

/-! ## What is to be printed -/

/-- The entries of a directory. Only directories have entries. -/
def entries (n : ℕ) : List ℕ := if (nodes n).isDir then (nodes n).children else []

/-- The visible nodes. -/
abbrev shown (n : ℕ) : Bool := config.visible (nodes n)

/-- The lines that are within the depth limit. -/
def withinDepth (ps : List (Place ℕ)) : List (Place ℕ) := ps.filter fun p => !config.tooDeep p.depth

/-- The nodes with lines. -/
def printPlaces (isLast : Bool) (t : RoseTree ℕ) : List (Place ℕ) :=
  withinDepth config
    (if shown config nodes t.label then drawn [] isLast 0 (t.keep (shown config nodes)) else [])

/-- The prefix of a line: a segment for each ancestor that is not the root. -/
def linePrefix (p : Place ℕ) : List UInt8 := p.above.flatMap segment

/-- The line of a place. -/
def emitPlace (e : Emission) (p : Place ℕ) : Emission :=
  emitNode env config cs (nodes p.label) (linePrefix p) p.isLast p.depth e

end

/-! ## The prefix buffer -/

variable {env : DisplayEnv} {config : DisplayConfig} {cs : ColorScheme} {nodes : ℕ → ListedNode}
variable {pb : LineBuf} {pos : ℕ} {above : List Bool} {last : Bool}

/-- The first `pos` bytes of the buffer are the segments of some ancestors. -/
def Prefixed (pb : LineBuf) (pos : ℕ) (above : List Bool) : Prop :=
  pos ≤ pb.length ∧ pb.take pos = above.flatMap segment

/-- Segments have no terminator in them. -/
theorem ne_zero_of_mem_segment {b : UInt8} (h : b ∈ segment last) : b ≠ 0 := by
  cases last with
  | false => exact (by decide +kernel : ∀ b ∈ segment false, b ≠ 0) b h
  | true => exact (by decide +kernel : ∀ b ∈ segment true, b ≠ 0) b h

theorem length_segment (last : Bool) : (segment last).length = if last then 4 else 6 := by
  cases last <;> decide

namespace Prefixed

theorem length_eq (h : Prefixed pb pos above) : (above.flatMap segment).length = pos := by
  rw [← h.2, List.length_take, Nat.min_eq_left h.1]

theorem append (h : Prefixed pb pos above) (more : List UInt8) :
    Prefixed (pb ++ more) pos above := by
  constructor
  · rw [List.length_append]
    exact h.1.trans (Nat.le_add_right _ _)
  · rw [List.take_append_of_le_length h.1, h.2]

/-- The buffer after a write behind the prefix. -/
theorem write_eq (h : Prefixed pb pos above) (s : List UInt8) :
    LineBuf.write pb pos s = above.flatMap segment ++ (s ++ pb.drop (pos + s.length)) := by
  rw [LineBuf.write, h.2, List.append_assoc]

theorem write (h : Prefixed pb pos above) (s : List UInt8) :
    Prefixed (LineBuf.write pb pos s) pos above := by
  rw [h.write_eq]
  constructor
  · rw [List.length_append, h.length_eq]
    exact Nat.le_add_right _ _
  · rw [List.take_left' h.length_eq]

/-- A segment behind the prefix makes a longer prefix. -/
theorem write_segment (h : Prefixed pb pos above) (last : Bool) :
    Prefixed (LineBuf.write pb pos (segment last)) (pos + (segment last).length)
      (above ++ [last]) := by
  have hlen : (above.flatMap segment ++ segment last).length = pos + (segment last).length := by
    rw [List.length_append, h.length_eq]
  rw [h.write_eq, ← List.append_assoc]
  constructor
  · rw [List.length_append, hlen]
    exact Nat.le_add_right _ _
  · rw [List.take_left' hlen, List.flatMap_append, List.flatMap_singleton]

/-- A terminator behind the prefix makes a text of it. -/
theorem text (h : Prefixed pb pos above) :
    LineBuf.text (LineBuf.write pb pos [0]) = above.flatMap segment := by
  have hne : ∀ b ∈ above.flatMap segment, decide (b ≠ 0) = true := by
    intro b hb
    obtain ⟨last, -, hmem⟩ := List.mem_flatMap.1 hb
    exact decide_eq_true (ne_zero_of_mem_segment hmem)
  rw [h.write_eq, LineBuf.text, List.takeWhile_append_of_pos hne]
  simp

/-- Of a prefix, that of an ancestor remains. -/
theorem parent {pos' : ℕ} {more : List Bool} (h : Prefixed pb pos' (above ++ more))
    (hpos : (above.flatMap segment).length = pos) : Prefixed pb pos above := by
  have hlen := h.length_eq
  rw [List.flatMap_append, List.length_append, hpos] at hlen
  have hle : pos ≤ pos' := hlen ▸ Nat.le_add_right _ _
  refine ⟨hle.trans h.1, ?_⟩
  rw [← Nat.min_eq_left hle, ← List.take_take, h.2, List.flatMap_append, List.take_left' hpos]

end Prefixed

variable (config cs nodes) in
/-- The first visit emits the line with its prefix, which stays in the buffer. -/
theorem printFirst_eq (halloc : ∀ n, env.alloc n = true) (frame : PrintFrame) (e : Emission)
    (h : Prefixed pb frame.prefixPos above) :
    ∃ pb', printFirst env config cs nodes frame pb e =
        (pb', emitPlace env config cs nodes e ⟨frame.node, above, frame.isLast, frame.depth⟩) ∧
      Prefixed pb' frame.prefixPos above := by
  obtain ⟨more, hensure⟩ := lineBufEnsure_ok halloc pb (frame.prefixPos + 1)
  have happ := h.append more
  refine ⟨LineBuf.write (pb ++ more) frame.prefixPos [0], ?_, happ.write _⟩
  simp only [printFirst, hensure, if_true, happ.text]
  rfl

/-- The ancestors' flags below a node. -/
abbrev aboveChildren (above : List Bool) (isLast : Bool) (depth : ℕ) : List Bool :=
  if depth = 0 then above else above ++ [isLast]

/-- The prefix of the children is in the buffer, and the node's own still is. -/
theorem childPrefix_eq (halloc : ∀ n, env.alloc n = true) (frame : PrintFrame)
    (h : Prefixed pb frame.prefixPos above) :
    ∃ pb' pos', childPrefix env frame pb = (pb', pos') ∧ Prefixed pb' frame.prefixPos above ∧
      Prefixed pb' pos' (aboveChildren above frame.isLast frame.depth) := by
  by_cases hdepth : frame.depth = 0
  · refine ⟨pb, frame.prefixPos, ?_, h, ?_⟩
    · simp [childPrefix, hdepth]
    · simpa [aboveChildren, hdepth] using h
  · obtain ⟨more, hensure⟩ := lineBufEnsure_ok halloc pb
      (frame.prefixPos + (segment frame.isLast).length + 1)
    have happ := h.append more
    refine ⟨LineBuf.write (pb ++ more) frame.prefixPos (segment frame.isLast),
      frame.prefixPos + (segment frame.isLast).length, ?_, happ.write _, ?_⟩
    · have hge : frame.depth ≥ 1 := Nat.one_le_iff_ne_zero.2 hdepth
      simp only [childPrefix, hge, if_true, ← length_segment, hensure]
    · rw [aboveChildren, if_neg hdepth]
      exact happ.write_segment frame.isLast

/-! ## The loops over the children -/

section Children

variable {children : List ℕ} {i k c : ℕ}

/-- `last_visible_child` is passed when no visible child follows. -/
theorem lastVisible_le_iff (hc : children[i]? = some c) (hvisible : config.visible (nodes c) = true)
    (hk : i < k) : lastVisible config nodes children k ≤ i ↔
      ∀ j, i < j → j < k → ∀ b, children[j]? = some b → config.visible (nodes b) = false := by
  induction k with
  | zero => exact absurd hk (Nat.not_lt_zero i)
  | succ k ih =>
      rw [lastVisible]
      split_ifs with h
      · rcases Nat.lt_succ_iff_lt_or_eq.1 hk with hlt | rfl
        · -- the last visible child is behind `i`
          obtain ⟨b, hb, hvis⟩ := (Option.any_eq_true _ _).1 h
          refine iff_of_false (Nat.not_le.2 hlt) fun hall => ?_
          exact absurd hvis (by simp [hall k hlt k.lt_succ_self b hb])
        · refine iff_of_true (le_refl i) fun j hij hj => ?_
          omega
      · have hne : i ≠ k := by
          rintro rfl
          exact h (by rw [hc, Option.any_some, hvisible])
        rw [ih (by omega)]
        constructor
        · intro hall j hij hj b hb
          rcases Nat.lt_succ_iff_lt_or_eq.1 hj with hlt | rfl
          · exact hall j hij hlt b hb
          · rw [hb, Option.any_some, Bool.not_eq_true] at h
            exact h
        · exact fun hall j hij hj => hall j hij (Nat.lt_succ_of_lt hj)

/-- At a visible child, `last_visible_child` tells whether one follows. -/
theorem isLast_eq {t : RoseTree ℕ} {ts : List (RoseTree ℕ)}
    (hdrop : children.drop i = (t :: ts).map label)
    (hvisible : config.visible (nodes t.label) = true) :
    decide (i ≥ lastVisible config nodes children children.length) =
      (keepAll (fun n => config.visible (nodes n)) ts).isEmpty := by
  have hget : ∀ j, children[i + j]? = ((t :: ts).map label)[j]? := fun j => by
    rw [← hdrop, List.getElem?_drop]
  have hc : children[i]? = some t.label := hget 0
  obtain ⟨hi, -⟩ := List.getElem?_eq_some_iff.1 hc
  rw [Bool.eq_iff_iff, decide_eq_true_iff, ge_iff_le, lastVisible_le_iff hc hvisible hi,
    List.isEmpty_iff, keepAll_eq_nil_iff]
  constructor
  · intro hall b hb
    obtain ⟨j, hj⟩ := List.mem_iff_getElem?.1 hb
    have hbj : children[i + (j + 1)]? = some b.label := by
      rw [hget, List.map_cons, List.getElem?_cons_succ, List.getElem?_map, hj, Option.map_some]
    exact hall _ (by omega) (List.getElem?_eq_some_iff.1 hbj).1 _ hbj
  · intro hall j hij _ b hb
    obtain ⟨m, rfl⟩ := Nat.exists_eq_add_of_lt hij
    rw [Nat.add_assoc, hget, List.map_cons, List.getElem?_cons_succ, List.getElem?_map,
      Option.map_eq_some_iff] at hb
    obtain ⟨x, hx, rfl⟩ := hb
    exact hall x (List.mem_of_getElem? hx)

end Children

/-! ## The rounds -/

/-- Rounds of the loop. -/
abbrev PrintMoves (env : DisplayEnv) (config : DisplayConfig) (cs : ColorScheme)
    (nodes : ℕ → ListedNode) : PrintState → PrintState → Prop :=
  Rounds PrintState.done (printStep env config cs nodes)

section Steps

variable {frame : PrintFrame} {rest : List PrintFrame} {cap n depth i lv : ℕ} {e : Emission}

/-- A frame that is too deep is popped. -/
theorem printStep_tooDeep (h : config.tooDeep frame.depth = true) :
    printStep env config cs nodes ⟨frame :: rest, cap, pb, e⟩ = ⟨rest, cap, pb, e⟩ := by
  simp only [printStep, h, if_true]

/-- A node that is printed goes to its next child. -/
theorem printStep_next (h : config.tooDeep depth = false) :
    printStep env config cs nodes ⟨⟨n, last, depth, i, pos, lv⟩ :: rest, cap, pb, e⟩ =
      printChild env config nodes ⟨n, last, depth, i, pos, lv⟩ rest
        ⟨⟨n, last, depth, i, pos, lv⟩ :: rest, cap, pb, e⟩ := by
  have hi : (i : ℤ) ≠ -1 := by omega
  simp only [printStep, h, Bool.false_eq_true, if_false, hi]

/-- The stack with its top frame plays no part in what is done with the frame. -/
theorem printChild_stack (s s' : PrintState) (hcap : s.cap = s'.cap) (hpb : s.pb = s'.pb)
    (he : s.e = s'.e) :
    printChild env config nodes frame rest s = printChild env config nodes frame rest s' := by
  obtain ⟨stack, cap, pb, e⟩ := s
  obtain ⟨stack', cap', pb', e'⟩ := s'
  subst hcap hpb he
  rfl

/-- The first visit prints the node and goes on as for the first child. -/
theorem printStep_first (halloc : ∀ n, env.alloc n = true) (h : config.tooDeep depth = false)
    (hpb : Prefixed pb pos above) :
    ∃ pb', Prefixed pb' pos above ∧
      printStep env config cs nodes ⟨⟨n, last, depth, -1, pos, lv⟩ :: rest, cap, pb, e⟩ =
        printStep env config cs nodes ⟨⟨n, last, depth, (0 : ℕ), pos,
          lastVisible config nodes (nodes n).children (nodes n).children.length⟩ :: rest, cap, pb',
          emitPlace env config cs nodes e ⟨n, above, last, depth⟩⟩ := by
  obtain ⟨pb', hfirst, hpb'⟩ :=
    printFirst_eq config cs nodes halloc ⟨n, last, depth, -1, pos, lv⟩ e hpb
  refine ⟨pb', hpb', ?_⟩
  rw [printStep_next h]
  simp only [printStep, h, Bool.false_eq_true, if_false, if_true, hfirst]
  exact printChild_stack _ _ rfl rfl rfl

/-- A file has no children that are printed, nor has a node at the depth limit. -/
theorem printChild_end (h : (nodes n).isDir = false ∨ config.beyond depth = true) :
    printChild env config nodes ⟨n, last, depth, i, pos, lv⟩ rest ⟨frame :: rest, cap, pb, e⟩ =
      ⟨rest, cap, pb, e⟩ := by
  have hcond : (!(nodes n).isDir || config.beyond depth) = true := by
    rcases h with h | h <;> simp [h]
  simp only [printChild, hcond, if_true]

/-- Behind the last child the frame is popped. -/
theorem printChild_nil (h : (nodes n).children.length ≤ i) :
    printChild env config nodes ⟨n, last, depth, i, pos, lv⟩ rest ⟨frame :: rest, cap, pb, e⟩ =
      ⟨rest, cap, pb, e⟩ := by
  simp only [printChild, Int.toNat_natCast, List.drop_eq_nil_of_le h, nextVisible,
    List.getElem?_eq_none h, ite_self]

/-- A child that is not visible is passed. -/
theorem printChild_skip {c : ℕ} (hc : (nodes n).children[i]? = some c)
    (hvisible : config.visible (nodes c) = false) (s : PrintState) :
    printChild env config nodes ⟨n, last, depth, i, pos, lv⟩ rest s =
      printChild env config nodes ⟨n, last, depth, (i + 1 : ℕ), pos, lv⟩ rest s := by
  obtain ⟨hi, hget⟩ := List.getElem?_eq_some_iff.1 hc
  have hnext : nextVisible config nodes ((nodes n).children.drop i) i =
      nextVisible config nodes ((nodes n).children.drop (i + 1)) (i + 1) := by
    rw [List.drop_eq_getElem_cons hi, hget, nextVisible, hvisible, if_neg Bool.false_ne_true]
  simp only [printChild, Int.toNat_natCast, hnext]
  rfl

variable (frame rest cap e lv last) in
/-- A visible child is pushed, with its prefix in the buffer. -/
theorem printChild_push (halloc : ∀ n, env.alloc n = true) {c : ℕ} (hdir : (nodes n).isDir = true)
    (hdepth : config.beyond depth = false) (hc : (nodes n).children[i]? = some c)
    (hvisible : config.visible (nodes c) = true) (hpb : Prefixed pb pos above) :
    ∃ cap' pb' pos', Prefixed pb' pos' (aboveChildren above last depth) ∧
      printChild env config nodes ⟨n, last, depth, i, pos, lv⟩ rest ⟨frame :: rest, cap, pb, e⟩ =
        ⟨⟨c, decide (i ≥ lv), depth + 1, -1, pos', 0⟩ ::
          ⟨n, last, depth, (i + 1 : ℕ), pos, lv⟩ :: rest, cap', pb', e⟩ := by
  obtain ⟨hi, hget⟩ := List.getElem?_eq_some_iff.1 hc
  obtain ⟨pb', pos', hprefix, -, hpb'⟩ :=
    childPrefix_eq halloc ⟨n, last, depth, i, pos, lv⟩ hpb
  have hnext : nextVisible config nodes ((nodes n).children.drop i) i = i := by
    rw [List.drop_eq_getElem_cons hi, hget, nextVisible, hvisible, if_pos rfl]
  have hpush : ∀ s frame', ∃ cap', pushPrintFrame env s frame' =
      { s with stack := frame' :: s.stack, cap := cap' } := by
    intro s frame'
    unfold pushPrintFrame
    simp only [halloc, if_true]
    split_ifs
    · exact ⟨s.cap * 2, rfl⟩
    · exact ⟨s.cap, rfl⟩
  obtain ⟨cap', hpush⟩ := hpush
    ⟨⟨n, last, depth, (i + 1 : ℕ), pos, lv⟩ :: rest, cap, pb', e⟩
    ⟨c, decide (i ≥ lv), depth + 1, -1, pos', 0⟩
  refine ⟨cap', pb', pos', hpb', ?_⟩
  simp only [printChild, hdir, hdepth, Bool.not_true, Bool.or_false, Bool.false_eq_true, if_false,
    Int.toNat_natCast, hnext, hc, hprefix]
  exact hpush

end Steps

/-! ## From a frame's push to its pop -/

/-- Below a depth that is too deep everything is. -/
theorem tooDeep_mono {d d' : ℕ} (hle : d ≤ d') (h : config.tooDeep d = true) :
    config.tooDeep d' = true := by
  unfold DisplayConfig.tooDeep at h ⊢
  cases hmax : config.maxDepth with
  | none => rw [hmax] at h; exact h
  | some limit =>
      rw [hmax, Option.any_some, decide_eq_true_iff] at h
      rw [Option.any_some, decide_eq_true_iff]
      omega

/-- Below a node at the limit everything is too deep. -/
theorem tooDeep_succ_iff {d : ℕ} : config.tooDeep (d + 1) = config.beyond d := by
  unfold DisplayConfig.tooDeep ScanConfig.beyond
  exact congrArg (Option.any · config.maxDepth) (funext fun limit => by simp)

theorem withinDepth_eq_nil {d : ℕ} (h : config.tooDeep d = true) {ps : List (Place ℕ)}
    (hps : ∀ p ∈ ps, d ≤ p.depth) : withinDepth config ps = [] := by
  rw [withinDepth, List.filter_eq_nil_iff]
  intro p hp
  simp [tooDeep_mono (hps p hp) h]

/-- What the loop does from the push of the root of `t` to the pop: it prints the lines, and leaves
the prefix of the root in the buffer. -/
def NodePrinted (env : DisplayEnv) (config : DisplayConfig) (cs : ColorScheme)
    (nodes : ℕ → ListedNode) (t : RoseTree ℕ) : Prop :=
  ∀ above last depth pos rest cap pb e, Prefixed pb pos above → ∃ cap' pb',
    PrintMoves env config cs nodes ⟨⟨t.label, last, depth, -1, pos, 0⟩ :: rest, cap, pb, e⟩
      ⟨rest, cap', pb', (withinDepth config (drawn above last depth
        (t.keep (shown config nodes)))).foldl (emitPlace env config cs nodes) e⟩ ∧
    Prefixed pb' pos above

/-- **The children of a directory**, from index `i` on, when each of them is printed from push to
pop. -/
theorem moves_printChildren (halloc : ∀ n, env.alloc n = true) {n depth : ℕ}
    (hdir : (nodes n).isDir = true) (hdepth : config.beyond depth = false)
    (ts : List (RoseTree ℕ)) (hts : ∀ t ∈ ts, NodePrinted env config cs nodes t) :
    ∀ (i : ℕ) rest cap pb e, (nodes n).children.drop i = ts.map label → Prefixed pb pos above →
      ∃ cap' pb', PrintMoves env config cs nodes
        (printStep env config cs nodes ⟨⟨n, last, depth, i, pos,
          lastVisible config nodes (nodes n).children (nodes n).children.length⟩ :: rest, cap, pb,
          e⟩)
        ⟨rest, cap', pb', (withinDepth config (drawnAll (aboveChildren above last depth) (depth + 1)
          (keepAll (shown config nodes) ts))).foldl (emitPlace env config cs nodes) e⟩ ∧
        Prefixed pb' pos above := by
  have hnotDeep : config.tooDeep depth = false := by
    cases hdeep : config.tooDeep depth with
    | false => rfl
    | true =>
        rw [← tooDeep_succ_iff, tooDeep_mono depth.le_succ hdeep] at hdepth
        cases hdepth
  induction ts with
  | nil =>
      intro i rest cap pb e hdrop hpb
      refine ⟨cap, pb, ?_, hpb⟩
      rw [printStep_next hnotDeep, printChild_nil (List.drop_eq_nil_iff.1 hdrop)]
      exact ReflTransGen.refl
  | cons t ts ih =>
      intro i rest cap pb e hdrop hpb
      have hc : (nodes n).children[i]? = some t.label := by
        rw [← List.head?_drop, hdrop, List.map_cons, List.head?_cons]
      have hdrop' : (nodes n).children.drop (i + 1) = ts.map label := by
        rw [← List.tail_drop, hdrop, List.map_cons, List.tail_cons]
      have hrest := ih fun b hb => hts b (List.mem_cons_of_mem _ hb)
      cases hvisible : config.visible (nodes t.label) with
      | false =>
          have hkeep :
              keepAll (shown config nodes) (t :: ts) = keepAll (shown config nodes) ts := by
            rw [keepAll_cons, shown, hvisible, if_neg Bool.false_ne_true]
          obtain ⟨cap', pb', hmoves, hpb'⟩ := hrest (i + 1) rest cap pb e hdrop' hpb
          refine ⟨cap', pb', ?_, hpb'⟩
          rw [hkeep, printStep_next hnotDeep, printChild_skip hc hvisible]
          rw [printStep_next hnotDeep] at hmoves
          exact (printChild_stack _ _ rfl rfl rfl) ▸ hmoves
      | true =>
          have hkeep : keepAll (shown config nodes) (t :: ts) =
              t.keep (shown config nodes) :: keepAll (shown config nodes) ts := by
            rw [keepAll_cons, shown, hvisible, if_pos rfl]
          obtain ⟨cap₁, pb₁, pos₁, hpb₁, hpush⟩ := printChild_push last ⟨n, last, depth, i, pos,
              lastVisible config nodes (nodes n).children (nodes n).children.length⟩ rest cap
            (lastVisible config nodes (nodes n).children (nodes n).children.length) e halloc hdir
            hdepth hc hvisible hpb
          rw [isLast_eq hdrop hvisible] at hpush
          obtain ⟨cap₂, pb₂, hchild, hpb₂⟩ := hts t List.mem_cons_self _
            (keepAll (shown config nodes) ts).isEmpty (depth + 1) pos₁ _ cap₁ pb₁ e hpb₁
          have hparent : Prefixed pb₂ pos above := by
            by_cases hzero : depth = 0
            · rw [aboveChildren, if_pos hzero, ← List.append_nil above] at hpb₂
              exact hpb₂.parent hpb.length_eq
            · rw [aboveChildren, if_neg hzero] at hpb₂
              exact hpb₂.parent hpb.length_eq
          obtain ⟨cap₃, pb₃, hmoves, hpb₃⟩ := hrest (i + 1) rest cap₂ pb₂ _ hdrop' hparent
          refine ⟨cap₃, pb₃, ?_, hpb₃⟩
          rw [printStep_next hnotDeep, hpush, hkeep, drawnAll_cons, withinDepth, List.filter_append,
            List.foldl_append]
          exact hchild.trans (Rounds.of_step rfl hmoves)

/-- **A node, from push to pop.** -/
theorem nodePrinted (halloc : ∀ n, env.alloc n = true) {t : RoseTree ℕ}
    (ht : t.Follows (entries nodes)) : NodePrinted env config cs nodes t := by
  -- From the leaves up: the children are printed by induction.
  induction t with
  | node n ts ih =>
      intro above last depth pos rest cap pb e hpb
      have hdrawn : (RoseTree.node n ts).keep (shown config nodes) =
          .node n (keepAll (shown config nodes) ts) := rfl
      cases hdeep : config.tooDeep depth with
      | true =>
          refine ⟨cap, pb, Rounds.of_step rfl ?_, hpb⟩
          rw [printStep_tooDeep hdeep,
            withinDepth_eq_nil hdeep fun p hp => depth_le_of_mem_drawn _ _ _ hp]
          exact ReflTransGen.refl
      | false =>
          obtain ⟨pb₁, hpb₁, hfirst⟩ := printStep_first (n := n) (e := e) halloc hdeep hpb
          have hcons : ∀ ps : List (Place ℕ),
              (withinDepth config (⟨n, above, last, depth⟩ :: ps)).foldl
                  (emitPlace env config cs nodes) e =
                (withinDepth config ps).foldl (emitPlace env config cs nodes)
                  (emitPlace env config cs nodes e ⟨n, above, last, depth⟩) := by
            intro ps
            rw [withinDepth, List.filter_cons_of_pos (by rw [hdeep]; rfl), List.foldl_cons]
            rfl
          rw [hdrawn, drawn_node, hcons]
          by_cases hend : (nodes n).isDir = false ∨ config.beyond depth = true
          · have hnil : withinDepth config (drawnAll (aboveChildren above last depth) (depth + 1)
                (keepAll (shown config nodes) ts)) = [] := by
              rcases hend with hfile | hbeyond
              · have hts : ts = [] := by
                  have hchildren := ht.children
                  rw [entries, hfile, if_neg Bool.false_ne_true, List.map_eq_nil_iff] at hchildren
                  exact hchildren
                rw [hts]
                rfl
              · rw [← tooDeep_succ_iff] at hbeyond
                refine withinDepth_eq_nil hbeyond fun p hp => ?_
                obtain ⟨c, -, _, hc⟩ := mem_drawnAll _ _ hp
                exact depth_le_of_mem_drawn _ _ _ hc
            refine ⟨cap, pb₁, Rounds.of_step rfl ?_, hpb₁⟩
            rw [hnil, label_node, hfirst, printStep_next hdeep, printChild_end hend]
            exact ReflTransGen.refl
          · obtain ⟨hdir, hbeyond⟩ := not_or.1 hend
            rw [Bool.not_eq_false] at hdir
            rw [Bool.not_eq_true] at hbeyond
            have hchildren : (nodes n).children.drop 0 = ts.map label := by
              rw [ht.children, List.drop_zero, entries, if_pos hdir]
            obtain ⟨cap₂, pb₂, hmoves, hpb₂⟩ := moves_printChildren halloc hdir hbeyond ts
              (fun c hc => ih c hc (ht.child hc)) 0 rest cap pb₁ _ hchildren hpb₁
            refine ⟨cap₂, pb₂, Rounds.of_step rfl ?_, hpb₂⟩
            rw [label_node, hfirst]
            exact hmoves

/-! ## The whole call -/

/-- **The call returns, and emits the lines one after the other.** -/
theorem printNode_emits (halloc : ∀ n, env.alloc n = true) {t : RoseTree ℕ}
    (ht : t.Follows (entries nodes)) (last : Bool) (e : Emission) :
    PrintReturns env config cs nodes t.label last 0 e
      ((printPlaces config nodes last t).foldl (emitPlace env config cs nodes) e) := by
  have hstart : Prefixed [] 0 [] := ⟨le_refl 0, rfl⟩
  obtain ⟨cap', pb', hmoves, -⟩ := nodePrinted halloc ht [] last 0 0 [] 256 [] e hstart
  obtain ⟨rounds, hrounds⟩ := loop_of_rounds hmoves rfl
  refine ⟨rounds, fun fuel hfuel => ?_⟩
  rw [printNode, halloc, if_pos rfl, hrounds fuel hfuel, Option.map_some, printPlaces]
  refine congrArg some ?_
  cases hvisible : shown config nodes t.label with
  | true => rw [if_pos rfl]
  | false =>
      -- An invisible root is a file: there is nothing below it, and its line is left out.
      obtain ⟨hdirs, hfile⟩ : config.dirsOnly = true ∧ (nodes t.label).isDir = false := by
        simpa [DisplayConfig.visible] using hvisible
      have hskip : ∀ p : Place ℕ, p.label = t.label → emitPlace env config cs nodes e p = e := by
        intro p hp
        simp [emitPlace, emitNode, hp, hdirs, hfile]
      cases ht with
      | @node n ts hts _ =>
          rw [label_node] at hfile hskip
          rw [entries, hfile, if_neg Bool.false_ne_true, List.map_eq_nil_iff] at hts
          subst hts
          have hfold : (withinDepth config [⟨n, [], last, 0⟩]).foldl
              (emitPlace env config cs nodes) e = e := by
            rw [withinDepth, List.filter_cons]
            split_ifs
            · exact hskip ⟨n, [], last, 0⟩ rfl
            · rfl
          rw [if_neg Bool.false_ne_true]
          exact hfold

/-- The line of a place: for all but the root the segments of its ancestors and the connector, then
the node's own text with whatever comes out of the caches. -/
def DrawsLine (env : DisplayEnv) (config : DisplayConfig) (cs : ColorScheme)
    (nodes : ℕ → ListedNode) (p : Place ℕ) (line : List UInt8) : Prop :=
  ∃ texts, line = (if p.depth = 0 then [] else linePrefix p ++ connector p.isLast) ++
    nodeText env config cs (nodes p.label) p.depth texts

theorem hidden_eq_false {node : ListedNode} (h : config.visible node = true) :
    (config.dirsOnly && !node.isDir) = false := by
  revert h
  unfold DisplayConfig.visible
  cases config.dirsOnly <;> cases node.isDir <;> simp

/-- A visible node gets one line. -/
theorem out_emitPlace (halloc : ∀ n, env.alloc n = true) {p : Place ℕ}
    (hvisible : config.visible (nodes p.label) = true) (e : Emission) :
    ∃ line, (emitPlace env config cs nodes e p).out = e.out ++ [line] ∧
      DrawsLine env config cs nodes p line := by
  exact ⟨_, (emitNode_spec halloc (hidden_eq_false hvisible)).1, _, rfl⟩

/-- Visible nodes get their lines one after the other. -/
theorem out_foldl_emitPlace (halloc : ∀ n, env.alloc n = true) (ps : List (Place ℕ))
    (hps : ∀ p ∈ ps, config.visible (nodes p.label) = true) (e : Emission) :
    ∃ lines, (ps.foldl (emitPlace env config cs nodes) e).out = e.out ++ lines ∧
      List.Forall₂ (DrawsLine env config cs nodes) ps lines := by
  induction ps generalizing e with
  | nil => exact ⟨[], (List.append_nil _).symm, .nil⟩
  | cons p ps ih =>
      obtain ⟨line, hout, hline⟩ := out_emitPlace halloc (hps p List.mem_cons_self) e
      obtain ⟨lines, houts, hlines⟩ :=
        ih (fun q hq => hps q (List.mem_cons_of_mem _ hq)) (emitPlace env config cs nodes e p)
      refine ⟨line :: lines, ?_, .cons hline hlines⟩
      rw [List.foldl_cons, houts, hout, List.append_assoc]
      rfl

/-- All nodes with lines are visible. -/
theorem visible_of_mem_printPlaces {t : RoseTree ℕ} {p : Place ℕ}
    (hp : p ∈ printPlaces config nodes last t) : config.visible (nodes p.label) = true := by
  rw [printPlaces, withinDepth] at hp
  obtain ⟨hp, -⟩ := List.mem_filter.1 hp
  split_ifs at hp with hroot
  · have hmem : p.label ∈ (drawn [] last 0 (t.keep (shown config nodes))).map Place.label :=
      List.mem_map_of_mem hp
    rw [map_label_drawn] at hmem
    rcases of_mem_labels_keep hmem with heq | h
    · rw [heq]
      exact hroot
    · exact h
  · exact absurd hp List.not_mem_nil

/-- **The tree is drawn.** When memory can be had, `print_node` returns for every finite tree, depth
limit and setting, and what it adds to the output is one line for each visible node within the
limit, in pre-order. Before the node's own text a line has a segment for each ancestor below the
root, blanks or a bar, and the connector. -/
theorem print_node_draws (halloc : ∀ n, env.alloc n = true) {t : RoseTree ℕ}
    (ht : t.Follows (entries nodes)) (last : Bool) (e : Emission) :
    ∃ e' lines, PrintReturns env config cs nodes t.label last 0 e e' ∧ e'.out = e.out ++ lines ∧
      List.Forall₂ (DrawsLine env config cs nodes) (printPlaces config nodes last t) lines := by
  obtain ⟨lines, hout, hlines⟩ :=
    out_foldl_emitPlace halloc _ (fun p hp => visible_of_mem_printPlaces hp) e
  exact ⟨_, lines, printNode_emits halloc ht last e, hout, hlines⟩

/-- A node without anything that is looked up. -/
def plainNode (isDir : Bool) (children : List ℕ) (name : String) : ListedNode where
  isDir := isDir
  stxSize := 0
  children := children
  totalSize := 0
  totalFiles := 0
  totalDirs := 0
  name := bytes name
  statErr := 0
  stxMode := if isDir then 0o040755 else 0o100644
  stxUid := 0
  stxGid := 0
  tvSec := 0

/-- A directory with a directory, in which there is a file, and another file. -/
def plainTree : ℕ → ListedNode
  | 0 => plainNode true [1, 2] "a"
  | 1 => plainNode true [3] "b"
  | 2 => plainNode false [] "c"
  | _ => plainNode false [] "d"

/-- A system that knows no names and no dates. -/
def plainEnv : DisplayEnv where
  getpwuid _ := none
  getgrgid _ := none
  localtime _ := none
  strerror _ := []
  unterminated _ := []
  alloc _ := true
  fresh _ := 0

def plainColors : ColorScheme := ⟨false, [], [], [], [], [], []⟩

theorem follows_plainTree :
    Follows (entries plainTree) (.node 0 [.node 1 [.node 3 []], .node 2 []]) := by
  refine .node rfl fun t ht => ?_
  rcases List.mem_pair.1 ht with rfl | rfl
  · refine .node rfl fun t ht => ?_
    rw [List.mem_singleton] at ht
    subst ht
    exact .node rfl fun _ h => absurd h List.not_mem_nil
  · exact .node rfl fun _ h => absurd h List.not_mem_nil

/-- The sample has four lines, and the file below the inner directory is behind a bar. -/
theorem print_node_draws_sample : ∃ e' lines,
    PrintReturns plainEnv {} plainColors plainTree 0 true 0 {} e' ∧ e'.out = lines ∧
      List.Forall₂ (DrawsLine plainEnv {} plainColors plainTree)
        [⟨0, [], true, 0⟩, ⟨1, [], false, 1⟩, ⟨3, [false], true, 2⟩, ⟨2, [], true, 1⟩] lines := by
  obtain ⟨e', lines, hret, hout, hlines⟩ :=
    @print_node_draws plainEnv {} plainColors plainTree (fun _ => rfl) _ follows_plainTree true {}
  exact ⟨e', lines, hret, hout, hlines⟩

end Aura
