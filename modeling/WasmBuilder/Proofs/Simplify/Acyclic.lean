import Mathlib.Data.Finset.Card
import WasmBuilder.Proofs.Course.Sheds
import WasmBuilder.Proofs.Expr.Depth

/-!
Arenas without cycles.

Where no expression is part of its own operands, the expressions that are part of another one are
fewer for each of its operands. So their number bounds how deep one can go, whatever the order of the
handles is.
-/

set_option autoImplicit false

namespace WasmBuilder.Arena

/-- No expression is part of its own operands. -/
def Acyclic (a : Arena) : Prop :=
  ∀ (id child : ExprId) (node : Node), a.node id = .ok node → child ∈ node.children →
    ¬ a.Within child id

def Closed (a : Arena) : Prop :=
  ∀ (id child : ExprId) (node : Node), a.node id = .ok node → child ∈ node.children → child < a.size

variable {a : Arena} {id : ExprId} {node : Node}

theorem Ordered.child_lt (ordered : a.Ordered) (here : a.node id = .ok node) :
    ∀ child ∈ node.children, child < id := by
  obtain ⟨label, entry⟩ := node_eq_ok_iff.1 here
  exact ordered id ⟨node, label⟩ entry

theorem Ordered.within_le (ordered : a.Ordered) {root : ExprId} (within : a.Within root id) :
    id ≤ root := by
  induction within with
  | self => exact Nat.le_refl root
  | child _ here mem ih => exact Nat.le_trans (Nat.le_of_lt (ordered.child_lt here _ mem)) ih

/-- Operands that were made before the expressions that use them form no cycles. -/
theorem Ordered.acyclic (ordered : a.Ordered) : a.Acyclic := fun _ child _ here mem within =>
  Nat.lt_irrefl child
    (Nat.lt_of_lt_of_le (ordered.child_lt here child mem) (ordered.within_le within))

theorem Ordered.closed (ordered : a.Ordered) : a.Closed := fun _ child _ here mem =>
  Nat.lt_trans (ordered.child_lt here child mem) (lt_size_of_node here)

def Beneath (a : Arena) (part whole : ExprId) : Prop :=
  ∃ node, a.node whole = .ok node ∧ ∃ child ∈ node.children, a.Within child part

theorem Beneath.trans {part whole : ExprId} (first : a.Beneath part id) (second : a.Beneath id whole) :
    a.Beneath part whole := by
  obtain ⟨_, here, _, isChild, inside⟩ := first
  obtain ⟨node, there, child, mem, within⟩ := second
  exact ⟨node, there, child, mem, (within.child here isChild).trans inside⟩

open Classical in
noncomputable def rank (a : Arena) (id : ExprId) : Nat :=
  ((Finset.range a.size).filter fun part => a.Beneath part id).card

namespace Acyclic

variable (acyclic : a.Acyclic)

include acyclic

theorem not_beneath (id : ExprId) : ¬ a.Beneath id id :=
  fun ⟨node, here, child, mem, within⟩ => acyclic id child node here mem within

theorem rank_lt {child : ExprId} (here : a.node id = .ok node) (mem : child ∈ node.children)
    (known : child < a.size) : a.rank child < a.rank id := by
  classical
  have beneath : a.Beneath child id := ⟨node, here, child, mem, .self⟩
  refine Finset.card_lt_card (Finset.ssubset_iff_subset_ne.2 ⟨fun part inside => ?_, fun same => ?_⟩)
  · obtain ⟨old, part⟩ := Finset.mem_filter.1 inside
    exact Finset.mem_filter.2 ⟨old, part.trans beneath⟩
  · -- the operand itself is the difference
    have inside : child ∈ (Finset.range a.size).filter fun part => a.Beneath part id :=
      Finset.mem_filter.2 ⟨Finset.mem_range.2 known, beneath⟩
    rw [← same] at inside
    exact acyclic.not_beneath child (Finset.mem_filter.1 inside).2

theorem rank_lt_size (known : id < a.size) : a.rank id < a.size := by
  classical
  have less : a.rank id < (Finset.range a.size).card :=
    Finset.card_lt_card (Finset.filter_ssubset.2
      ⟨id, Finset.mem_range.2 known, acyclic.not_beneath id⟩)
  rwa [Finset.card_range] at less

/-- Expressions of an arena without cycles are as deep as the arena is long at most. -/
theorem shallow (closed : a.Closed) (known : id < a.size) : a.Shallow a.size id := by
  -- on the way down the rank falls at each step
  have within (depth : Nat) (id : ExprId) (known : id < a.size) (enough : a.rank id < depth) :
      a.Shallow depth id := by
    induction depth generalizing id with
    | zero => exact absurd enough (Nat.not_lt_zero _)
    | succ depth ih =>
      obtain ⟨node, here⟩ := exists_node_of_lt known
      refine ⟨node, here, fun child mem => ?_⟩
      have old := closed id child node here mem
      exact ih child old (Nat.lt_of_lt_of_le (acyclic.rank_lt here mem old) (Nat.le_of_lt_succ enough))
  exact within a.size id known (acyclic.rank_lt_size known)

end Acyclic

end WasmBuilder.Arena
