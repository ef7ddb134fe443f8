import Aura.Lib.Loop
import Aura.Lib.RoseTree

/-!
# Freeing the tree of atree

`node_free` takes the tree apart with a stack of its own. When the stack cannot grow it skips the
remaining children of a node and goes on with what is on the stack; but its capacity is doubled
before the memory is there, and stays doubled when it is not.

* `nodeFree` — the call, with the answers of the allocator; the log says what is done to the nodes.
* `spillCount` — how many nodes have children that do not fit into a stack of a certain length.
* **`node_free_safe_iff`** — the tree is freed safely unless a reallocation fails and the children
  of two nodes do not fit into what was there before.
-/

namespace Aura

open Lib RoseTree Relation

/-! ## The code -/

/-- What is done with the memory of a node. -/
inductive FreeEvent
  | visit (n : ℕ)
  | free (n : ℕ)
deriving DecidableEq

namespace FreeEvent

def node : FreeEvent → ℕ
  | visit n => n
  | free n => n

def isFree : FreeEvent → Bool
  | visit _ => false
  | free _ => true

end FreeEvent

/-- `node_free_recursive` at the depth that is `left` short of 1000. -/
def nodeFreeRecursive (children : ℕ → List ℕ) : ℕ → ℕ → List FreeEvent
  | 0, n => [.visit n, .free n]
  | left + 1, n =>
    .visit n :: (children n).flatMap (nodeFreeRecursive children left) ++ [.visit n, .free n]

/-- The stack of `node_free`. -/
structure FreeStack where
  /-- The top comes first; there are `sp`. -/
  entries : List ℕ
  cap : ℕ
  /-- The number of entries that are allocated. -/
  room : ℕ
  /-- How many reallocations have been asked for. -/
  asked : ℕ := 0
  /-- One of them has failed. -/
  failed : Bool := false
  /-- An entry was written behind those that are allocated. -/
  wild : Bool := false

/-- `stack[sp++] = n`. -/
def FreeStack.push (s : FreeStack) (n : ℕ) : FreeStack :=
  { s with entries := n :: s.entries, wild := s.wild || decide (s.room ≤ s.entries.length) }

/-- The loop over the children of a node. `answers` says which reallocations succeed. -/
def pushChildren (answers : ℕ → Bool) : List ℕ → FreeStack → FreeStack
  | [], s => s
  | c :: rest, s =>
    if s.entries.length ≥ s.cap then
      if answers s.asked then
        pushChildren answers rest
          (FreeStack.push { s with cap := s.cap * 2, room := s.cap * 2, asked := s.asked + 1 } c)
      else { s with cap := s.cap * 2, asked := s.asked + 1, failed := true }
    else pushChildren answers rest (s.push c)

/-- The nodes, with those of their children that are still to be pushed, the stack and the log. -/
structure FreeState where
  children : ℕ → List ℕ
  stack : FreeStack
  log : List FreeEvent

/-- The body of the loop of `node_free`. -/
def nodeFreeStep (answers : ℕ → Bool) (s : FreeState) : FreeState :=
  match s.stack.entries with
  | [] => s
  | cur :: rest =>
    if s.children cur ≠ [] then
      { children := Function.update s.children cur []
        stack := pushChildren answers (s.children cur) s.stack
        log := s.log ++ [.visit cur] }
    else
      { s with stack := { s.stack with entries := rest }, log := s.log ++ [.visit cur, .free cur] }

/-- The condition of the loop. -/
def FreeState.done (s : FreeState) : Bool := s.stack.entries.isEmpty

/-- The state before the loop. -/
def freeStart (children : ℕ → List ℕ) (root : ℕ) : FreeState :=
  { children, stack := { entries := [root], cap := 256, room := 256 }, log := [] }

/-- What a call leaves. -/
structure FreeOutcome where
  log : List FreeEvent
  failed : Bool
  wild : Bool

/-- `node_free`; `malloc` says whether the stack can be had at first. -/
def nodeFree (malloc : Bool) (answers : ℕ → Bool) (fuel : ℕ) (children : ℕ → List ℕ) (root : ℕ) :
    Option FreeOutcome :=
  if malloc then
    (loop FreeState.done (nodeFreeStep answers) fuel (freeStart children root)).map fun s =>
      ⟨s.log, s.stack.failed, s.stack.wild⟩
  else some ⟨nodeFreeRecursive children 1000 root, false, false⟩

/-- `node_free` returns with this outcome, given enough rounds. -/
def NodeFreeReturns (malloc : Bool) (answers : ℕ → Bool) (children : ℕ → List ℕ) (root : ℕ)
    (o : FreeOutcome) : Prop :=
  ∃ rounds, ∀ fuel, rounds ≤ fuel → nodeFree malloc answers fuel children root = some o

/-! ## What is asked of it -/

/-- The nodes that are freed, in order. -/
def freed (log : List FreeEvent) : List ℕ :=
  (log.filter FreeEvent.isFree).map FreeEvent.node

/-- Nothing is done with a node after it was freed. -/
def NoUseAfterFree (log : List FreeEvent) : Prop :=
  log.Pairwise fun x y => x.isFree = true → y.node ≠ x.node

/-- The call returns, it writes to no entry that is not allocated, it does nothing with a node that
is freed, and unless a reallocation fails it frees every node once. -/
def FreesSafely (malloc : Bool) (answers : ℕ → Bool) (children : ℕ → List ℕ) (t : RoseTree ℕ) :
    Prop :=
  ∃ o, NodeFreeReturns malloc answers children t.label o ∧ o.wild = false ∧
    NoUseAfterFree o.log ∧ (o.failed = false → (freed o.log).Perm t.labels)

mutual

/-- How many nodes of a tree have children that do not fit into `R` entries, when the root is the
entry `p`. A child that does not fit is left out, with what is below it. -/
def spillCount (R : ℕ) : ℕ → RoseTree ℕ → ℕ
  | p, .node _ cs => (if R < p + cs.length then 1 else 0) + spillCountAll R p cs

/-- The same for several trees, when there are `p` entries below the first. -/
def spillCountAll (R : ℕ) : ℕ → List (RoseTree ℕ) → ℕ
  | _, [] => 0
  | p, c :: cs => if p < R then spillCount R (p + 1) c + spillCountAll R (p + 1) cs else 0

end

/-- The length of the stack after so many reallocations. -/
def stackLimit (J : ℕ) : ℕ := 256 * 2 ^ J

/-- The condition on the tree and the answers: at the reallocation that fails first, at most one
node spillCount; and when there is no stack, the tree is not too deep. -/
def Dismantles (malloc : Bool) (answers : ℕ → Bool) (t : RoseTree ℕ) : Prop :=
  if malloc then
    ∀ J, (∀ j, j < J → answers j = true) → answers J = false → spillCount (stackLimit J) 1 t ≤ 1
  else t.height ≤ 1000

/-! ## The number of nodes that spill -/

section Spills

variable {R p : ℕ}

theorem spillCountAll_cons (c : RoseTree ℕ) (cs : List (RoseTree ℕ)) :
    spillCountAll R p (c :: cs) =
      if p < R then spillCount R (p + 1) c + spillCountAll R (p + 1) cs else 0 := rfl

theorem spillCount_node (a : ℕ) (cs : List (RoseTree ℕ)) :
    spillCount R p (.node a cs) = (if R < p + cs.length then 1 else 0) + spillCountAll R p cs := rfl

/-- The last of several trees. -/
theorem spillCountAll_snoc (cs : List (RoseTree ℕ)) (c : RoseTree ℕ) (h : p + cs.length < R) :
    spillCountAll R p (cs ++ [c]) = spillCountAll R p cs + spillCount R (p + cs.length + 1) c := by
  induction cs generalizing p with
  | nil =>
      rw [List.length_nil, Nat.add_zero] at h
      rw [List.nil_append, spillCountAll_cons, if_pos h, List.length_nil, Nat.add_zero]
      exact Nat.add_comm _ _
  | cons b cs ih =>
      rw [List.length_cons] at h
      have hp : p < R := by omega
      have hlast : p + (cs.length + 1) + 1 = p + 1 + cs.length + 1 := by omega
      rw [List.cons_append, spillCountAll_cons, spillCountAll_cons, if_pos hp, if_pos hp,
        ih (by omega), List.length_cons, hlast]
      exact (Nat.add_assoc _ _ _).symm

/-- Trees that do not fit count for nothing. -/
theorem spillCountAll_take (cs : List (RoseTree ℕ)) : spillCountAll R p (cs.take (R - p)) =
    spillCountAll R p cs := by
  induction cs generalizing p with
  | nil => rw [List.take_nil]
  | cons c cs ih =>
      by_cases hp : p < R
      · rw [show R - p = R - (p + 1) + 1 by omega, List.take_succ_cons, spillCountAll_cons,
          spillCountAll_cons, if_pos hp, if_pos hp, ih]
      · rw [Nat.sub_eq_zero_of_le (Nat.le_of_not_lt hp), List.take_zero, spillCountAll_cons,
          if_neg hp]
        rfl

/-- Nothing spills where there is an entry for every node. -/
theorem spillCount_eq_zero (t : RoseTree ℕ) (h : p + t.labels.length ≤ R + 1) :
    spillCount R p t = 0 := by
  induction t generalizing p with
  | node a cs ih =>
      have hall : ∀ p, p + (labelsAll cs).length ≤ R →
          p + cs.length ≤ R ∧ spillCountAll R p cs = 0 := by
        induction cs with
        | nil => exact fun p hp => ⟨hp, rfl⟩
        | cons c cs ihcs =>
            intro p hp
            rw [labelsAll_cons, List.length_append] at hp
            have hpos := c.length_labels_pos
            have hrest : (RoseTree.node a cs).labels.length = (labelsAll cs).length + 1 := rfl
            have hfull : (RoseTree.node a (c :: cs)).labels.length =
                c.labels.length + (labelsAll cs).length + 1 := by
              rw [labels_node, labelsAll_cons, List.length_cons, List.length_append]
            obtain ⟨hlen, hzero⟩ := ihcs (fun b hb => ih b (List.mem_cons_of_mem _ hb)) (by omega)
              (p + 1) (by omega)
            refine ⟨by rw [List.length_cons]; omega, ?_⟩
            rw [spillCountAll_cons, if_pos (by omega), ih c List.mem_cons_self (by omega), hzero]
      rw [labels_node, List.length_cons] at h
      obtain ⟨hlen, hzero⟩ := hall p (by omega)
      rw [spillCount_node, if_neg (by omega), hzero]

end Spills

/-! ## The stack -/

section Stack

variable {answers : ℕ → Bool} {J : ℕ} {s : FreeStack}

/-- The stack in a run in which the reallocation `J` is the first that can fail: before it fails,
the capacity is what is allocated; after it, twice that. -/
structure Working (J : ℕ) (s : FreeStack) : Prop where
  wild : s.wild = false
  before : s.failed = false → s.cap = stackLimit s.asked ∧ s.room = s.cap ∧ s.asked ≤ J ∧
    s.entries.length ≤ s.cap
  after : s.failed = true → s.room = stackLimit J ∧ s.cap = stackLimit J * 2

theorem stackLimit_succ (J : ℕ) : stackLimit (J + 1) = stackLimit J * 2 := by
  rw [stackLimit, stackLimit, Nat.pow_succ, Nat.mul_assoc]

theorem stackLimit_mono {i j : ℕ} (h : i ≤ j) : stackLimit i ≤ stackLimit j :=
  Nat.mul_le_mul_left 256 (Nat.pow_le_pow_right (by decide) h)

theorem stackLimit_strictMono {i j : ℕ} (h : i < j) : stackLimit i < stackLimit j :=
  Nat.mul_lt_mul_of_pos_left (Nat.pow_lt_pow_right (by decide) h) (by decide)

theorem le_stackLimit (J : ℕ) : J ≤ stackLimit J :=
  (Nat.lt_two_pow_self (n := J)).le.trans (Nat.le_mul_of_pos_left _ (by decide))

/-- A write behind the allocated entries is not undone. -/
theorem pushChildren_wild (ns : List ℕ) (h : s.wild = true) :
    (pushChildren answers ns s).wild = true := by
  induction ns generalizing s with
  | nil => exact h
  | cons n ns ih =>
      have hpush : ∀ s' : FreeStack, s'.wild = true → (s'.push n).wild = true := fun s' h' => by
        rw [FreeStack.push, h', Bool.true_or]
      rw [pushChildren]
      split_ifs
      · exact ih (hpush _ h)
      · exact h
      · exact ih (hpush _ h)

/-- A push that fits into the stack of that length. -/
theorem Working.push (h : Working J s) (hans : ∀ j, j < J → answers j = true)
    (hlen : s.entries.length < stackLimit J) (n : ℕ) (ns : List ℕ) :
    ∃ s', pushChildren answers (n :: ns) s = pushChildren answers ns s' ∧ Working J s' ∧
      s'.entries = n :: s.entries ∧ s'.failed = s.failed := by
  cases hfailed : s.failed with
  | true =>
      obtain ⟨hroom, hcap⟩ := h.after hfailed
      have hwild : (s.push n).wild = false := by
        rw [FreeStack.push, h.wild, Bool.false_or, decide_eq_false (by omega)]
      refine ⟨s.push n, ?_, ⟨hwild, fun hf => ?_, fun _ => ⟨hroom, hcap⟩⟩, rfl, hfailed⟩
      · rw [pushChildren, if_neg (by omega)]
      · exact absurd (hf.symm.trans hfailed) Bool.false_ne_true
  | false =>
      obtain ⟨hcap, hroom, hasked, hfits⟩ := h.before hfailed
      by_cases hfull : s.entries.length ≥ s.cap
      · -- The stack is full, but not of the length at which it can fail to grow.
        have hlt : s.asked < J := by
          by_contra hge
          have := stackLimit_mono (Nat.le_of_not_lt hge)
          omega
        have hgrown : s.cap * 2 = stackLimit (s.asked + 1) := by rw [hcap, stackLimit_succ]
        have hpos : 0 < s.cap := by
          rw [hcap, stackLimit]
          exact Nat.mul_pos (by decide) (Nat.two_pow_pos _)
        refine ⟨FreeStack.push { s with
            cap := s.cap * 2, room := s.cap * 2, asked := s.asked + 1 } n, ?_,
          ⟨?_, fun _ => ⟨hgrown, rfl, hlt, ?_⟩, fun hf => ?_⟩, rfl, hfailed⟩
        · rw [pushChildren, if_pos hfull, if_pos (hans _ hlt)]
        · change (s.wild || decide (s.cap * 2 ≤ s.entries.length)) = false
          rw [h.wild, Bool.false_or, decide_eq_false (by omega)]
        · change s.entries.length + 1 ≤ s.cap * 2
          omega
        · exact absurd (hfailed.symm.trans hf) Bool.false_ne_true
      · refine ⟨s.push n, ?_, ⟨?_, fun _ => ⟨hcap, hroom, hasked, ?_⟩, fun hf => ?_⟩, rfl, hfailed⟩
        · rw [pushChildren, if_neg hfull]
        · change (s.wild || decide (s.room ≤ s.entries.length)) = false
          rw [h.wild, Bool.false_or, decide_eq_false (by omega)]
        · change s.entries.length + 1 ≤ s.cap
          omega
        · exact absurd (hfailed.symm.trans hf) Bool.false_ne_true

/-- Whether some children do not fit. -/
def overflow (J : ℕ) (s : FreeStack) (ns : List ℕ) : ℕ :=
  if stackLimit J < s.entries.length + ns.length then 1 else 0

/-- **The children of a node are pushed.** If they do not fit, the reallocation fails and the rest
are left out; if one has failed before, the stack is overrun. -/
theorem Working.pushChildren (h : Working J s) (hans : ∀ j, j < J → answers j = true)
    (hlen : s.entries.length ≤ stackLimit J) (ns : List ℕ)
    (hJ : 0 < overflow J s ns → answers J = false) :
    (s.failed.toNat + overflow J s ns ≤ 1 →
      Working J (pushChildren answers ns s) ∧
      (pushChildren answers ns s).entries =
        (ns.take (stackLimit J - s.entries.length)).reverse ++ s.entries ∧
      (pushChildren answers ns s).failed.toNat = s.failed.toNat + overflow J s ns) ∧
    (2 ≤ s.failed.toNat + overflow J s ns → (pushChildren answers ns s).wild = true) := by
  induction ns generalizing s with
  | nil =>
      have hover : overflow J s [] = 0 := if_neg (by rw [List.length_nil]; omega)
      rw [hover, Nat.add_zero]
      refine ⟨fun _ => ⟨h, by rw [List.take_nil]; rfl, rfl⟩, fun htwo => ?_⟩
      exact absurd htwo (Nat.not_le.2 (Nat.lt_succ_of_le (Bool.toNat_le s.failed)))
  | cons n ns ih =>
      rcases Nat.lt_or_eq_of_le hlen with hlt | heq
      · obtain ⟨s', hpush, hworking, hentries, hfailed⟩ := h.push hans hlt n ns
        have hover : overflow J s (n :: ns) = overflow J s' ns := by
          rw [overflow, overflow, hentries, List.length_cons, List.length_cons,
            show s.entries.length + (ns.length + 1) = s.entries.length + 1 + ns.length by omega]
        rw [hpush, hover, ← hfailed]
        obtain ⟨hfits, htwo⟩ := ih hworking (by rw [hentries]; exact hlt) (hover ▸ hJ)
        refine ⟨fun hle => ?_, htwo⟩
        obtain ⟨hw, hent, hf⟩ := hfits hle
        refine ⟨hw, ?_, hf⟩
        rw [hent, hentries, List.length_cons,
          show stackLimit J - s.entries.length = stackLimit J - (s.entries.length + 1) + 1 by omega,
          List.take_succ_cons, List.reverse_cons, List.append_assoc]
        rfl
      · have hover : overflow J s (n :: ns) = 1 := if_pos (by rw [List.length_cons]; omega)
        rw [hover]
        cases hfailed : s.failed with
        | false =>
            obtain ⟨hcap, hroom, hasked, hfits⟩ := h.before hfailed
            have haskedJ : s.asked = J := by
              by_contra hne
              have := stackLimit_strictMono (Nat.lt_of_le_of_ne hasked hne)
              omega
            have hans' : answers s.asked = false := by
              rw [haskedJ]
              exact hJ (by rw [hover]; exact Nat.one_pos)
            have hfull : s.entries.length ≥ s.cap := by rw [heq, hcap, haskedJ]
            have hresult : Aura.pushChildren answers (n :: ns) s =
                { s with cap := s.cap * 2, asked := s.asked + 1, failed := true } := by
              rw [Aura.pushChildren, if_pos hfull, hans', if_neg Bool.false_ne_true]
            rw [hresult]
            refine ⟨fun _ => ⟨⟨h.wild, fun hf => ?_, fun _ => ?_⟩, ?_, rfl⟩, fun htwo => ?_⟩
            · exact absurd hf.symm Bool.false_ne_true
            · change s.room = _ ∧ s.cap * 2 = _
              rw [hroom, hcap, haskedJ]
              exact ⟨rfl, rfl⟩
            · rw [heq, Nat.sub_self, List.take_zero]
              rfl
            · exact absurd htwo (by decide)
        | true =>
            obtain ⟨hroom, hcap⟩ := h.after hfailed
            refine ⟨fun hle => absurd hle (by decide), fun _ => ?_⟩
            have hpos : 0 < stackLimit J := Nat.mul_pos (by decide) (Nat.two_pow_pos _)
            rw [Aura.pushChildren, if_neg (by omega)]
            refine pushChildren_wild ns ?_
            rw [FreeStack.push, decide_eq_true (by omega), Bool.or_true]

end Stack

/-! ## The log -/

section Log

variable {ev₁ ev₂ : List FreeEvent} {ns : List ℕ}

theorem freed_append (ev₁ ev₂ : List FreeEvent) :
    freed (ev₁ ++ ev₂) = freed ev₁ ++ freed ev₂ := by
  rw [freed, List.filter_append, List.map_append]
  rfl

/-- One log after another, about other nodes. -/
theorem NoUseAfterFree.append (h₁ : NoUseAfterFree ev₁) (h₂ : NoUseAfterFree ev₂)
    (hns : ∀ x ∈ ev₁, x.node ∈ ns) (hother : ∀ x ∈ ev₂, x.node ∉ ns) :
    NoUseAfterFree (ev₁ ++ ev₂) := by
  refine List.pairwise_append.2 ⟨h₁, h₂, fun x hx y hy _ heq => ?_⟩
  exact hother y hy (heq ▸ hns x hx)

/-- The events of a node around those of the nodes below it. -/
theorem NoUseAfterFree.around {n : ℕ} (h : NoUseAfterFree ev₁) (hns : ∀ x ∈ ev₁, x.node ∈ ns)
    (hn : n ∉ ns) : NoUseAfterFree ([.visit n] ++ ev₁ ++ [.visit n, .free n]) := by
  have hlast : NoUseAfterFree [.visit n, .free n] := by
    refine List.pairwise_pair.2 fun hfree => ?_
    exact absurd hfree Bool.false_ne_true
  have hends : NoUseAfterFree (ev₁ ++ [.visit n, .free n]) := by
    refine h.append hlast hns fun x hx => ?_
    rcases List.mem_pair.1 hx with rfl | rfl
    · exact hn
    · exact hn
  rw [List.append_assoc]
  refine List.pairwise_cons.2 ⟨fun y _ hfree => ?_, hends⟩
  exact absurd hfree Bool.false_ne_true

end Log

/-! ## From a node's push to its pop -/

section Run

variable {answers : ℕ → Bool} {J : ℕ} {s s₁ s₂ : FreeState} {ns ms rest mid : List ℕ}

/-- Rounds of the loop. -/
abbrev FreeMoves (answers : ℕ → Bool) : FreeState → FreeState → Prop :=
  Rounds FreeState.done (nodeFreeStep answers)

/-- Between the two states the entries over `rest` are popped, and of the nodes `ns` everything is
done that is done: unless a reallocation fails meanwhile, each of them is freed once. -/
structure Leaves (s s' : FreeState) (ns rest : List ℕ) : Prop where
  entries : s'.stack.entries = rest
  children : ∀ n, n ∉ ns → s'.children n = s.children n
  mono : s.stack.failed.toNat ≤ s'.stack.failed.toNat
  log : ∃ ev, s'.log = s.log ++ ev ∧ (∀ x ∈ ev, x.node ∈ ns) ∧ NoUseAfterFree ev ∧
    (s'.stack.failed.toNat = s.stack.failed.toNat → (freed ev).Perm ns)

theorem Leaves.refl (h : s.stack.entries = rest) : Leaves s s [] rest where
  entries := h
  children _ _ := rfl
  mono := le_refl _
  log := ⟨[], (List.append_nil _).symm, fun _ hx => absurd hx List.not_mem_nil, List.Pairwise.nil,
    fun _ => List.Perm.refl _⟩

/-- Other nodes after some nodes. -/
theorem Leaves.trans {s₃ : FreeState} (h₁ : Leaves s₁ s₂ ns mid) (h₂ : Leaves s₂ s₃ ms rest)
    (hdisjoint : ∀ n ∈ ms, n ∉ ns) : Leaves s₁ s₃ (ms ++ ns) rest where
  entries := h₂.entries
  children n hn := by
    rw [List.mem_append, not_or] at hn
    rw [h₂.children n hn.1, h₁.children n hn.2]
  mono := h₁.mono.trans h₂.mono
  log := by
    obtain ⟨ev₁, hlog₁, hns, hsafe₁, hperm₁⟩ := h₁.log
    obtain ⟨ev₂, hlog₂, hms, hsafe₂, hperm₂⟩ := h₂.log
    refine ⟨ev₁ ++ ev₂, by rw [hlog₂, hlog₁, List.append_assoc], fun x hx => ?_, ?_, fun heq => ?_⟩
    · rcases List.mem_append.1 hx with hx | hx
      · exact List.mem_append_right _ (hns x hx)
      · exact List.mem_append_left _ (hms x hx)
    · exact hsafe₁.append hsafe₂ hns fun x hx => hdisjoint _ (hms x hx)
    · have hle₁ := h₁.mono
      have hle₂ := h₂.mono
      rw [freed_append]
      refine List.perm_append_comm.trans ?_
      exact (hperm₂ (by omega)).append (hperm₁ (by omega))

/-- What the loop does with the nodes `ns` on top of the stack, `k` of which spill: with at most one
spill in all it takes them off, otherwise it overruns the stack. -/
def TakenOff (answers : ℕ → Bool) (J : ℕ) (s : FreeState) (ns rest : List ℕ) (k : ℕ) : Prop :=
  (s.stack.failed.toNat + k ≤ 1 → ∃ s', FreeMoves answers s s' ∧ Leaves s s' ns rest ∧
    Working J s'.stack ∧ s'.stack.failed.toNat = s.stack.failed.toNat + k) ∧
  (2 ≤ s.stack.failed.toNat + k → ∃ s', FreeMoves answers s s' ∧ s'.stack.wild = true)

/-- A tree whose root is on top of the stack is taken off. -/
def TreeTakenOff (answers : ℕ → Bool) (J : ℕ) (t : RoseTree ℕ) : Prop :=
  ∀ s rest, s.stack.entries = t.label :: rest → Working J s.stack → t.Follows s.children →
    t.labels.Nodup → rest.length < stackLimit J →
    (0 < spillCount (stackLimit J) (rest.length + 1) t → answers J = false) →
    TakenOff answers J s t.labels rest (spillCount (stackLimit J) (rest.length + 1) t)

/-- **Several trees**, from the last to the first, when each of them is taken off. -/
theorem forestTakenOff (cs : List (RoseTree ℕ)) (hcs : ∀ c ∈ cs, TreeTakenOff answers J c) :
    ∀ s rest, s.stack.entries = (cs.map label).reverse ++ rest → Working J s.stack →
      (∀ c ∈ cs, c.Follows s.children) → (labelsAll cs).Nodup →
      rest.length + cs.length ≤ stackLimit J →
      (0 < spillCountAll (stackLimit J) rest.length cs → answers J = false) →
      TakenOff answers J s (labelsAll cs) rest (spillCountAll (stackLimit J) rest.length cs) := by
  induction cs using List.reverseRecOn with
  | nil =>
      intro s rest hentries hworking _ _ _ _
      refine ⟨fun _ => ⟨s, ReflTransGen.refl, Leaves.refl hentries, hworking, rfl⟩, fun htwo => ?_⟩
      exact absurd htwo (Nat.not_le.2 (Nat.lt_succ_of_le (Bool.toNat_le s.stack.failed)))
  | append_singleton cs c ih =>
      intro s rest hentries hworking hfollows hnodup hlen hJ
      rw [List.length_append, List.length_singleton] at hlen
      rw [List.map_append, List.reverse_append] at hentries
      rw [labelsAll_append, labelsAll_cons, labelsAll, List.append_nil] at hnodup ⊢
      rw [spillCountAll_snoc cs c (by omega)] at hJ ⊢
      obtain ⟨hnodupCs, hnodupC, hdisjoint⟩ := List.nodup_append.1 hnodup
      have hbase : ((cs.map label).reverse ++ rest).length = rest.length + cs.length := by
        rw [List.length_append, List.length_reverse, List.length_map, Nat.add_comm]
      have hlast := hcs c (List.mem_append_right _ (List.mem_singleton_self c)) s
        ((cs.map label).reverse ++ rest) hentries hworking
        (hfollows c (List.mem_append_right _ (List.mem_singleton_self c))) hnodupC
      rw [hbase] at hlast
      obtain ⟨hone, htwo⟩ := hlast (by omega) fun hpos => hJ (by omega)
      by_cases hspill : s.stack.failed.toNat +
          spillCount (stackLimit J) (rest.length + cs.length + 1) c ≤ 1
      · obtain ⟨s₁, hmoves₁, hleaves₁, hworking₁, hfailed₁⟩ := hone hspill
        have hfollows₁ : ∀ b ∈ cs, b.Follows s₁.children := by
          intro b hb
          refine (hfollows b (List.mem_append_left _ hb)).congr fun n hn => ?_
          refine hleaves₁.children n fun hnc => ?_
          exact hdisjoint n (labels_subset_labelsAll hb hn) n hnc rfl
        obtain ⟨hone₁, htwo₁⟩ := ih (fun b hb => hcs b (List.mem_append_left _ hb)) s₁ rest
          hleaves₁.entries hworking₁ hfollows₁ hnodupCs (by omega) fun hpos => hJ (by omega)
        rw [hfailed₁] at hone₁ htwo₁
        constructor
        · intro hle
          obtain ⟨s₂, hmoves₂, hleaves₂, hworking₂, hfailed₂⟩ := hone₁ (by omega)
          refine ⟨s₂, hmoves₁.trans hmoves₂, ?_, hworking₂, by omega⟩
          exact hleaves₁.trans hleaves₂ fun n hn hnc => hdisjoint n hn n hnc rfl
        · intro hle
          obtain ⟨s₂, hmoves₂, hwild⟩ := htwo₁ (by omega)
          exact ⟨s₂, hmoves₁.trans hmoves₂, hwild⟩
      · exact ⟨fun hle => absurd hle (by omega), fun _ => htwo (by omega)⟩

/-! ### The rounds for one node -/

variable {n : ℕ}

/-- The state after the pop of `n`. -/
def popped (s : FreeState) (n : ℕ) (rest : List ℕ) : FreeState :=
  { s with stack := { s.stack with entries := rest }, log := s.log ++ [.visit n, .free n] }

variable (answers) in
/-- A node without children is popped and freed. -/
theorem nodeFreeStep_pop (hentries : s.stack.entries = n :: rest) (hnil : s.children n = []) :
    nodeFreeStep answers s = popped s n rest := by
  simp only [nodeFreeStep, hentries, hnil, ne_eq, not_true_eq_false, if_false, popped]

variable (answers) in
/-- The children of a node are pushed. -/
theorem nodeFreeStep_push (hentries : s.stack.entries = n :: rest) (hne : s.children n ≠ []) :
    nodeFreeStep answers s =
      { children := Function.update s.children n []
        stack := pushChildren answers (s.children n) s.stack
        log := s.log ++ [.visit n] } := by
  simp only [nodeFreeStep, hentries]
  rw [if_pos hne]

theorem not_done (hentries : s.stack.entries = n :: rest) : s.done = false := by
  rw [FreeState.done, hentries]
  rfl

theorem Working.pop {stack : FreeStack} (h : Working J stack)
    (hentries : stack.entries = n :: rest) : Working J { stack with entries := rest } where
  wild := h.wild
  before := fun hf => by
    obtain ⟨hcap, hroom, hasked, hfits⟩ := h.before hf
    rw [hentries, List.length_cons] at hfits
    exact ⟨hcap, hroom, hasked, (Nat.le_succ _).trans hfits⟩
  after := h.after

/-- A node that has no children is taken off. -/
theorem Leaves.single (s : FreeState) (n : ℕ) (rest : List ℕ) :
    Leaves s (popped s n rest) [n] rest where
  entries := rfl
  children _ _ := rfl
  mono := le_refl _
  log := by
    refine ⟨[.visit n, .free n], rfl, fun x hx => ?_, ?_, fun _ => List.Perm.refl _⟩
    · rcases List.mem_pair.1 hx with rfl | rfl <;> exact List.mem_singleton_self n
    · exact List.pairwise_pair.2 fun hfree => absurd hfree Bool.false_ne_true

/-- A node whose children were pushed is taken off after them. When no reallocation has failed, all
of them were. -/
theorem Leaves.around (hchildren : s₁.children = Function.update s.children n [])
    (hlog : s₁.log = s.log ++ [.visit n]) (hmono : s.stack.failed.toNat ≤ s₁.stack.failed.toNat)
    (h : Leaves s₁ s₂ ms (n :: rest)) (hsub : ms ⊆ ns) (hn : n ∉ ns)
    (hall : s₁.stack.failed.toNat = s.stack.failed.toNat → ms = ns) :
    Leaves s (popped s₂ n rest) (n :: ns) rest where
  entries := rfl
  children m hm := by
    rw [List.mem_cons, not_or] at hm
    change s₂.children m = s.children m
    rw [h.children m fun hmem => hm.2 (hsub hmem), hchildren, Function.update_of_ne hm.1]
  mono := hmono.trans h.mono
  log := by
    obtain ⟨ev, hlog₂, hms, hsafe, hperm⟩ := h.log
    have hns : ∀ x ∈ ev, x.node ∈ ns := fun x hx => hsub (hms x hx)
    refine ⟨[.visit n] ++ ev ++ [.visit n, .free n], ?_, fun x hx => ?_, hsafe.around hns hn,
      fun heq => ?_⟩
    · rw [popped, hlog₂, hlog]
      simp only [List.append_assoc]
    · rw [List.append_assoc, List.singleton_append, List.mem_cons, List.mem_append] at hx
      rcases hx with rfl | hx | hx
      · exact List.mem_cons_self
      · exact List.mem_cons_of_mem _ (hns x hx)
      · rcases List.mem_pair.1 hx with rfl | rfl <;> exact List.mem_cons_self
    · have hle := h.mono
      have heq' : s₂.stack.failed.toNat = s.stack.failed.toNat := heq
      have hms := hall (by omega)
      rw [freed_append, freed_append]
      exact (List.perm_append_singleton n _).trans ((hms ▸ hperm (by omega)).cons n)

/-- What is done with the children that were pushed, and the pop of the node after it. -/
theorem TakenOff.around {j k : ℕ} (hround : FreeMoves answers s s₁)
    (hchildren : s₁.children = Function.update s.children n [])
    (hlog : s₁.log = s.log ++ [.visit n])
    (hfailed : s₁.stack.failed.toNat = s.stack.failed.toNat + j)
    (h : TakenOff answers J s₁ ms (n :: rest) k) (hsub : ms ⊆ ns) (hn : n ∉ ns)
    (hall : j = 0 → ms = ns) : TakenOff answers J s (n :: ns) rest (j + k) := by
  obtain ⟨hone, htwo⟩ := h
  constructor
  · intro hle
    obtain ⟨s₂, hmoves, hleaves, hworking, hfailed₂⟩ := hone (by omega)
    have hnil : s₂.children n = [] := by
      rw [hleaves.children n fun hmem => hn (hsub hmem), hchildren, Function.update_self]
    have hpop := nodeFreeStep_pop answers hleaves.entries hnil
    refine ⟨popped s₂ n rest, ?_, ?_, hworking.pop hleaves.entries, ?_⟩
    · refine (hround.trans hmoves).trans (Rounds.of_step (not_done hleaves.entries) ?_)
      rw [hpop]
    · exact Leaves.around hchildren hlog (by omega) hleaves hsub hn fun heq => hall (by omega)
    · change s₂.stack.failed.toNat = _
      omega
  · intro hle
    obtain ⟨s₂, hmoves, hwild⟩ := htwo (by omega)
    exact ⟨s₂, hround.trans hmoves, hwild⟩

/-- **A tree, from push to pop.** -/
theorem treeTakenOff (hans : ∀ j, j < J → answers j = true) (t : RoseTree ℕ) :
    TreeTakenOff answers J t := by
  induction t with
  | node a cs ih =>
      intro s rest hentries hworking hfollows hnodup hlen hJ
      rw [label_node] at hentries
      rw [labels_node, List.nodup_cons] at hnodup
      rw [spillCount_node] at hJ ⊢
      have hchildren : s.children a = cs.map label := hfollows.children.symm
      have hlength : s.stack.entries.length = rest.length + 1 := by rw [hentries, List.length_cons]
      have hover : overflow J s.stack (cs.map label) =
          if stackLimit J < rest.length + 1 + cs.length then 1 else 0 := by
        rw [overflow, hlength, List.length_map]
      rw [← hover] at hJ ⊢
      by_cases hnil : cs = []
      · subst hnil
        have hzero : overflow J s.stack (([] : List (RoseTree ℕ)).map label) = 0 := by
          rw [hover, List.length_nil, if_neg (by omega)]
        have hpop := nodeFreeStep_pop answers hentries hchildren
        rw [hzero]
        refine ⟨fun _ => ⟨popped s a rest, ?_, Leaves.single s a rest, hworking.pop hentries, rfl⟩,
          fun htwo => ?_⟩
        · exact Rounds.of_step (not_done hentries) (hpop ▸ ReflTransGen.refl)
        · exact absurd htwo (Nat.not_le.2 (Nat.lt_succ_of_le (Bool.toNat_le s.stack.failed)))
      · have hne : s.children a ≠ [] := by
          rw [hchildren]
          exact fun h => hnil (List.map_eq_nil_iff.1 h)
        have hstep := nodeFreeStep_push answers hentries hne
        rw [hchildren] at hstep
        have hround : FreeMoves answers s (nodeFreeStep answers s) :=
          Rounds.of_step (not_done hentries) ReflTransGen.refl
        obtain ⟨hfits, hwild⟩ := hworking.pushChildren hans (by omega) (cs.map label)
          fun hpos => hJ (by omega)
        by_cases hone : s.stack.failed.toNat + overflow J s.stack (cs.map label) ≤ 1
        · obtain ⟨hworking₁, hentries₁, hfailed₁⟩ := hfits hone
          rw [hlength, ← List.map_take, hentries] at hentries₁
          -- The children that fit, and what is below them.
          have hsub : cs.take (stackLimit J - (rest.length + 1)) ⊆ cs :=
            fun c hc => List.mem_of_mem_take hc
          have hprefix :
              labelsAll (cs.take (stackLimit J - (rest.length + 1))) <+: labelsAll cs := by
            conv_rhs => rw [← List.take_append_drop (stackLimit J - (rest.length + 1)) cs,
              labelsAll_append]
            exact List.prefix_append _ _
          have hforest := forestTakenOff (cs.take (stackLimit J - (rest.length + 1)))
            (fun c hc => ih c (hsub hc)) (nodeFreeStep answers s) (a :: rest)
          rw [hstep, List.length_cons, spillCountAll_take] at hforest
          rw [hstep] at hround
          refine TakenOff.around hround rfl rfl hfailed₁ (hforest hentries₁ hworking₁ ?_ ?_ ?_ ?_)
            hprefix.subset hnodup.1 fun hzero => ?_
          · intro c hc
            refine (hfollows.child (hsub hc)).congr fun m hm => Function.update_of_ne ?_ _ _
            rintro rfl
            exact hnodup.1 (labels_subset_labelsAll (hsub hc) hm)
          · exact hnodup.2.sublist hprefix.sublist
          · rw [List.length_take]
            omega
          · exact fun hpos => hJ (by omega)
          · have hall : cs.length ≤ stackLimit J - (rest.length + 1) := by
              rw [hover] at hzero
              split_ifs at hzero
              omega
            rw [List.take_of_length_le hall]
        · refine ⟨fun hle => absurd hle (by omega), fun _ => ⟨_, hround, ?_⟩⟩
          rw [hstep]
          exact hwild (by omega)

end Run

/-! ## Without a stack -/

section Recursive

variable {children : ℕ → List ℕ} {ev ev₁ ev₂ : List FreeEvent} {ns ns₁ ns₂ : List ℕ} {p q : Prop}

/-- A log of a call for the nodes `ns`, in which all of them are freed if and only if `p`. -/
structure FreedTo (ev : List FreeEvent) (ns : List ℕ) (p : Prop) : Prop where
  mem : ∀ x ∈ ev, x.node ∈ ns
  safe : NoUseAfterFree ev
  sub : (freed ev).Subperm ns
  all_iff : ns.length ≤ (freed ev).length ↔ p

namespace FreedTo

theorem perm_iff (h : FreedTo ev ns p) : (freed ev).Perm ns ↔ p := by
  rw [← h.all_iff]
  exact ⟨fun hperm => hperm.length_eq.ge, fun hle => h.sub.perm_of_length_le hle⟩

theorem append (h₁ : FreedTo ev₁ ns₁ p) (h₂ : FreedTo ev₂ ns₂ q) (hdisjoint : ∀ n ∈ ns₂, n ∉ ns₁) :
    FreedTo (ev₁ ++ ev₂) (ns₁ ++ ns₂) (p ∧ q) where
  mem x hx := by
    rcases List.mem_append.1 hx with hx | hx
    · exact List.mem_append_left _ (h₁.mem x hx)
    · exact List.mem_append_right _ (h₂.mem x hx)
  safe := h₁.safe.append h₂.safe h₁.mem fun x hx => hdisjoint _ (h₂.mem x hx)
  sub := by
    rw [freed_append]
    exact h₁.sub.append h₂.sub
  all_iff := by
    have hle₁ := h₁.sub.length_le
    have hle₂ := h₂.sub.length_le
    rw [← h₁.all_iff, ← h₂.all_iff, freed_append, List.length_append, List.length_append]
    omega

theorem around {n : ℕ} (h : FreedTo ev ns p) (hn : n ∉ ns) :
    FreedTo ([.visit n] ++ ev ++ [.visit n, .free n]) (n :: ns) p where
  mem x hx := by
    rw [List.append_assoc, List.singleton_append, List.mem_cons, List.mem_append] at hx
    rcases hx with rfl | hx | hx
    · exact List.mem_cons_self
    · exact List.mem_cons_of_mem _ (h.mem x hx)
    · rcases List.mem_pair.1 hx with rfl | rfl <;> exact List.mem_cons_self
  safe := h.safe.around h.mem hn
  sub := by
    rw [freed_append, freed_append]
    exact (List.perm_append_singleton n _).subperm.trans ((List.subperm_cons n).2 h.sub)
  all_iff := by
    rw [← h.all_iff, freed_append, freed_append, List.length_append, List.length_append,
      List.length_cons]
    change _ ≤ 0 + _ + 1 ↔ _
    omega

end FreedTo

/-- **Freeing by recursion** is safe, and frees what is not too deep. -/
theorem freedTo_recursive {t : RoseTree ℕ} (ht : t.Follows children) (hnodup : t.labels.Nodup)
    (left : ℕ) : FreedTo (nodeFreeRecursive children left t.label) t.labels (t.height ≤ left) := by
  induction t generalizing left with
  | node a cs ih =>
      rw [labels_node, List.nodup_cons] at hnodup
      rw [label_node, labels_node, height_node]
      cases left with
      | zero =>
          refine ⟨fun x hx => ?_, List.pairwise_pair.2 fun h => absurd h Bool.false_ne_true, ?_, ?_⟩
          · rcases List.mem_pair.1 hx with rfl | rfl <;> exact List.mem_cons_self
          · exact List.singleton_subperm_iff.2 List.mem_cons_self
          · cases cs with
            | nil => exact iff_of_true (le_refl _) (le_refl _)
            | cons c cs =>
                have hpos := c.length_labels_pos
                refine iff_of_false ?_ ?_
                · rw [List.length_cons, labelsAll_cons, List.length_append]
                  change ¬ _ ≤ 1
                  omega
                · rw [heightAll_le_iff]
                  exact fun h => absurd (h c List.mem_cons_self) (Nat.not_succ_le_zero _)
      | succ left =>
          -- The trees below, from the first to the last.
          have hforest : ∀ bs : List (RoseTree ℕ), bs ⊆ cs → (labelsAll bs).Nodup →
              FreedTo ((bs.map label).flatMap (nodeFreeRecursive children left)) (labelsAll bs)
                (∀ b ∈ bs, b.height ≤ left) := by
            intro bs
            induction bs with
            | nil =>
                intro _ _
                refine ⟨fun _ hx => absurd hx List.not_mem_nil, List.Pairwise.nil,
                  List.Subperm.refl _, ?_⟩
                exact iff_of_true (le_refl _) fun _ hb => absurd hb List.not_mem_nil
            | cons b bs ihbs =>
                intro hsub hnodupBs
                rw [labelsAll_cons] at hnodupBs ⊢
                obtain ⟨hb, hbs, hdisjoint⟩ := List.nodup_append.1 hnodupBs
                have hbcs := hsub List.mem_cons_self
                rw [List.map_cons, List.flatMap_cons, List.forall_mem_cons]
                refine (ih b hbcs (ht.child hbcs) hb left).append
                  (ihbs (fun x hx => hsub (List.mem_cons_of_mem _ hx)) hbs) fun n hn hnb => ?_
                exact hdisjoint n hnb n hn rfl
          have hall : (∀ b ∈ cs, b.height ≤ left) ↔ heightAll cs ≤ left + 1 := by
            rw [heightAll_le_iff]
            exact forall₂_congr fun b _ => Nat.succ_le_succ_iff.symm
          rw [← hall, nodeFreeRecursive, ← ht.children]
          exact (hforest cs (List.Subset.refl _) hnodup.2).around hnodup.1

end Recursive

/-! ## The whole call -/

section Call

variable {malloc : Bool} {answers : ℕ → Bool} {children : ℕ → List ℕ} {t : RoseTree ℕ} {J : ℕ}

theorem NodeFreeReturns.unique {root : ℕ} {o o' : FreeOutcome}
    (h : NodeFreeReturns malloc answers children root o)
    (h' : NodeFreeReturns malloc answers children root o') : o = o' := by
  obtain ⟨n, h⟩ := h
  obtain ⟨n', h'⟩ := h'
  have heq := (h (max n n') (le_max_left _ _)).symm.trans (h' (max n n') (le_max_right _ _))
  exact Option.some.inj heq

/-- What the loop comes to is what the call returns with. -/
theorem nodeFreeReturns_of_moves {s' : FreeState} {root : ℕ}
    (h : FreeMoves answers (freeStart children root) s') (hs' : s'.stack.entries = []) :
    NodeFreeReturns true answers children root ⟨s'.log, s'.stack.failed, s'.stack.wild⟩ := by
  have hdone : s'.done = true := by
    rw [FreeState.done, hs']
    rfl
  obtain ⟨rounds, hrounds⟩ := loop_of_rounds h hdone
  refine ⟨rounds, fun fuel hfuel => ?_⟩
  rw [nodeFree, if_pos rfl, hrounds fuel hfuel, Option.map_some]

/-- An overrun is not undone. -/
theorem nodeFreeStep_wild {s : FreeState} (h : s.stack.wild = true) :
    (nodeFreeStep answers s).stack.wild = true := by
  cases hentries : s.stack.entries with
  | nil =>
      simp only [nodeFreeStep, hentries]
      exact h
  | cons n rest =>
      by_cases hne : s.children n = []
      · rw [nodeFreeStep_pop answers hentries hne]
        exact h
      · rw [nodeFreeStep_push answers hentries hne]
        exact pushChildren_wild _ h

/-- A run that overruns the stack does not return without it. -/
theorem wild_of_moves {s s' : FreeState} (h : FreeMoves answers s s') (hwild : s'.stack.wild = true)
    {s'' : FreeState} {rounds : ℕ}
    (hret : loop FreeState.done (nodeFreeStep answers) rounds s = some s'') :
    s''.stack.wild = true := by
  obtain ⟨rounds', hret'⟩ := loop_after_rounds h hret
  apply loop_invariant (I := fun s => s.stack.wild = true) ?_ hret' hwild
  intro s _ hs
  exact nodeFreeStep_wild hs

/-- Before the loop there is room for the root. -/
theorem working_freeStart (J : ℕ) (root : ℕ) : Working J (freeStart children root).stack where
  wild := rfl
  before _ := ⟨rfl, rfl, Nat.zero_le J, (by decide : 1 ≤ 256)⟩
  after h := absurd h Bool.false_ne_true

/-- What the loop does with the whole tree. -/
theorem takenOff_freeStart (ht : t.Follows children) (hnodup : t.labels.Nodup)
    (hans : ∀ j, j < J → answers j = true)
    (hJ : 0 < spillCount (stackLimit J) 1 t → answers J = false) :
    TakenOff answers J (freeStart children t.label) t.labels []
      (spillCount (stackLimit J) 1 t) := by
  refine treeTakenOff hans t (freeStart children t.label) [] rfl ?_ ht hnodup ?_ hJ
  · exact working_freeStart J t.label
  · exact Nat.mul_pos (by decide) (Nat.two_pow_pos J)

/-- One node that spillCount does no harm. -/
theorem freesSafely_of_spillCount_le_one (ht : t.Follows children) (hnodup : t.labels.Nodup)
    (hans : ∀ j, j < J → answers j = true)
    (hJ : 0 < spillCount (stackLimit J) 1 t → answers J = false)
    (hle : spillCount (stackLimit J) 1 t ≤ 1) : FreesSafely true answers children t := by
  have hstart : (freeStart children t.label).stack.failed.toNat = 0 := rfl
  obtain ⟨s', hmoves, hleaves, hworking, -⟩ := (takenOff_freeStart ht hnodup hans hJ).1 (by omega)
  obtain ⟨ev, hlog, -, hsafe, hperm⟩ := hleaves.log
  have hlog' : s'.log = ev := hlog.trans (List.nil_append ev)
  refine ⟨_, nodeFreeReturns_of_moves hmoves hleaves.entries, hworking.wild, ?_, ?_⟩
  · rw [hlog']
    exact hsafe
  · intro (hfailed : s'.stack.failed = false)
    rw [hlog']
    exact hperm (by rw [hfailed, hstart]; rfl)

/-- After two nodes that spill, an entry is written that is not allocated. -/
theorem not_freesSafely_of_two_le_spillCount (ht : t.Follows children) (hnodup : t.labels.Nodup)
    (hans : ∀ j, j < J → answers j = true) (hJ : answers J = false)
    (htwo : 2 ≤ spillCount (stackLimit J) 1 t) : ¬ FreesSafely true answers children t := by
  rintro ⟨o, ⟨rounds, hrounds⟩, hwild, -⟩
  obtain ⟨s', hmoves, hs'⟩ := (takenOff_freeStart ht hnodup hans fun _ => hJ).2
    (htwo.trans (Nat.le_add_left _ _))
  have hret := hrounds rounds (le_refl _)
  rw [nodeFree, if_pos rfl, Option.map_eq_some_iff] at hret
  obtain ⟨s'', hloop, rfl⟩ := hret
  have htrue : s''.stack.wild = true := wild_of_moves hmoves hs' hloop
  exact absurd (hwild.symm.trans htrue) Bool.false_ne_true

/-- Without a stack, what is more than 1000 levels deep is left. -/
theorem freesSafely_false_iff (ht : t.Follows children) (hnodup : t.labels.Nodup) :
    FreesSafely false answers children t ↔ t.height ≤ 1000 := by
  have hfreed := freedTo_recursive ht hnodup 1000
  have hret : NodeFreeReturns false answers children t.label
      ⟨nodeFreeRecursive children 1000 t.label, false, false⟩ := ⟨0, fun _ _ => rfl⟩
  rw [← hfreed.perm_iff]
  constructor
  · rintro ⟨o, ho, -, -, hperm⟩
    rw [ho.unique hret] at hperm
    exact hperm rfl
  · intro hperm
    exact ⟨_, hret, rfl, hfreed.safe, fun _ => hperm⟩

/-- **`node_free`** writes only to entries of the stack that are allocated, does nothing with a node
that it has freed, returns, and frees each node once unless a reallocation fails, if and only if at
the first reallocation that fails at most one node of the tree has children that do not fit into the
entries there were. -/
theorem node_free_safe_iff (ht : t.Follows children) (hnodup : t.labels.Nodup) (malloc : Bool)
    (answers : ℕ → Bool) : FreesSafely malloc answers children t ↔ Dismantles malloc answers t := by
  cases malloc with
  | false =>
      rw [Dismantles, if_neg Bool.false_ne_true]
      exact freesSafely_false_iff ht hnodup
  | true =>
      rw [Dismantles, if_pos rfl]
      constructor
      · intro hsafe J hans hJ
        by_contra hlt
        exact not_freesSafely_of_two_le_spillCount ht hnodup hans hJ (by omega) hsafe
      · intro hle
        by_cases hfail : ∃ J, answers J = false
        · have hans : ∀ j, j < Nat.find hfail → answers j = true := by
            intro j hj
            exact Bool.eq_true_of_not_eq_false (Nat.find_min hfail hj)
          have hJ := Nat.find_spec hfail
          exact freesSafely_of_spillCount_le_one ht hnodup hans (fun _ => hJ) (hle _ hans hJ)
        · -- No reallocation fails, so take one that is not asked for.
          have hans : ∀ j, answers j = true := by
            intro j
            exact Bool.eq_true_of_not_eq_false fun hj => hfail ⟨j, hj⟩
          have hzero : spillCount (stackLimit t.labels.length) 1 t = 0 := by
            apply spillCount_eq_zero
            have := le_stackLimit t.labels.length
            omega
          refine freesSafely_of_spillCount_le_one ht hnodup (J := t.labels.length)
            (fun j _ => hans j) (fun hpos => ?_) (hzero.trans_le (Nat.zero_le 1))
          exact absurd hpos (by rw [hzero]; exact Nat.lt_irrefl 0)

/-- Three nodes, when no reallocation would succeed. -/
theorem node_free_safe_three :
    FreesSafely true (fun _ => false) (fun n => if n = 0 then [1, 2] else [])
      (.node 0 [.node 1 [], .node 2 []]) := by
  have ht : Follows (fun n => if n = 0 then [1, 2] else [])
      (.node 0 [.node 1 [], .node 2 []] : RoseTree ℕ) := by
    refine .node rfl fun c hc => ?_
    rcases List.mem_pair.1 hc with rfl | rfl <;>
      exact .node rfl fun _ h => absurd h List.not_mem_nil
  refine (node_free_safe_iff ht (by decide) true (fun _ => false)).2 ?_
  rw [Dismantles, if_pos rfl]
  intro J _ _
  refine (spillCount_eq_zero _ ?_).trans_le (Nat.zero_le 1)
  have hpos : 0 < stackLimit J := Nat.mul_pos (by decide) (Nat.two_pow_pos J)
  have hlimit : 1 ≤ 2 ^ J := Nat.one_le_two_pow
  change 1 + 3 ≤ 256 * 2 ^ J + 1
  omega

/-- A directory with 256 entries, the 255th of which has one. -/
def overrunTree : RoseTree ℕ :=
  .node 0 ((List.range' 1 256).map fun n => .node n (if n = 255 then [.node 300 []] else []))

def overrunChildren (n : ℕ) : List ℕ :=
  if n = 0 then List.range' 1 256 else if n = 255 then [300] else []

theorem overrunTree_follows : overrunTree.Follows overrunChildren := by
  refine .node ?_ fun c hc => ?_
  · rw [List.map_map]
    exact List.map_id _
  · obtain ⟨n, hn, rfl⟩ := List.mem_map.1 hc
    have hne : n ≠ 0 := by
      have := List.mem_range'_1.1 hn
      omega
    by_cases h255 : n = 255
    · subst h255
      refine .node rfl fun b hb => ?_
      rw [if_pos rfl] at hb
      rw [List.mem_singleton.1 hb]
      exact .node rfl fun _ h => absurd h List.not_mem_nil
    · refine .node ?_ fun b hb => ?_
      · rw [overrunChildren, if_neg hne, if_neg h255, if_neg h255]
        rfl
      · rw [if_neg h255] at hb
        exact absurd hb List.not_mem_nil

/-- The 256th entry of the root is left out because the stack cannot grow; the entry of the 255th is
then written behind its end. -/
theorem overrun_not_safe :
    ¬ FreesSafely true (fun _ => false) overrunChildren overrunTree := by
  refine not_freesSafely_of_two_le_spillCount (J := 0) overrunTree_follows ?_ ?_ rfl ?_
  · decide +kernel
  · exact fun j hj => absurd hj (Nat.not_lt_zero j)
  · decide +kernel

end Call

end Aura
