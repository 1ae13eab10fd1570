import WasmBuilder.Operand
import WasmBuilder.Proofs.Expr.Slots
import WasmBuilder.Proofs.Moves
import WasmBuilder.Scope

/-!
Nodes that last.

Expressions are only added, and only operations and groups of statements ever give way to other nodes.
All other nodes are what they were when they were made.
-/

set_option autoImplicit false

namespace WasmBuilder

namespace Node

/-- The variable that a node reads or writes, and the shape that the node takes it to have. -/
def access? : Node → Option (Storage × Nat × Shape)
  | localGet slot shape | localSet slot shape _ => some (.local, slot, shape)
  | globalGet global shape | globalSet global shape _ => some (.global, global, shape)
  | _ => none

def isFixed : Node → Bool
  | binary .. | unary .. | block .. | choose .. | loop .. => false
  | _ => true

theorem isFixed_of_access? {node : Node} (accesses : node.access? ≠ none) :
    node.isFixed = true := by
  cases node <;> first | rfl | exact absurd rfl accesses

end Node

namespace Arena

def Continues (a c : Arena) : Prop :=
  ∀ (id : ExprId) (node : Node), a.node id = .ok node → c.node id = .ok node

structure Lasts (a c : Arena) : Prop where
  size_le : a.size ≤ c.size
  fixed : ∀ (id : ExprId) (node : Node), a.node id = .ok node → node.isFixed = true →
    c.node id = .ok node

namespace Lasts

variable {a b c : Arena}

theorem refl (a : Arena) : Lasts a a := ⟨Nat.le_refl _, fun _ _ here _ => here⟩

theorem trans (first : Lasts a b) (second : Lasts b c) : Lasts a c := by
  constructor
  · exact Nat.le_trans first.size_le second.size_le
  · intro id node here fixed
    exact second.fixed id node (first.fixed id node here fixed) fixed

instance : IsPreorder Arena Lasts where
  refl := refl
  trans _ _ _ := trans

end Lasts

variable {a c : Arena} {id : ExprId}

theorem node_push_size (a : Arena) (node : Node) (label : Option Shape) :
    (a.push node label).node a.size = .ok node :=
  node_eq_ok_iff.2 ⟨label, a.entries_push_size node label⟩

theorem node_push_of_lt (old : id < a.size) (node : Node) (label : Option Shape) :
    (a.push node label).node id = a.node id :=
  node_eq_of_entry (entries_push_of_lt old node label)

theorem lt_size_of_node {node : Node} (here : a.node id = .ok node) : id < a.size := by
  have ⟨_, found⟩ := node_eq_ok_iff.1 here
  exact (Array.getElem?_eq_some_iff.1 found).1

theorem exists_node_of_lt (old : id < a.size) : ∃ node, a.node id = .ok node :=
  ⟨_, node_eq_ok_iff.2 ⟨_, Array.getElem?_eq_getElem old⟩⟩

namespace Continues

theorem refl (a : Arena) : Continues a a := fun _ _ here => here

theorem size_le (continues : Continues a c) : a.size ≤ c.size := by
  apply Nat.le_of_not_lt
  intro less
  have ⟨node, here⟩ := exists_node_of_lt less
  exact Nat.lt_irrefl _ (lt_size_of_node (continues _ node here))

theorem lasts (continues : Continues a c) : Lasts a c :=
  ⟨continues.size_le, fun id node here _ => continues id node here⟩

theorem node_of_lt (continues : Continues a c) (old : id < a.size) {node : Node}
    (here : c.node id = .ok node) : a.node id = .ok node := by
  have ⟨before, there⟩ := exists_node_of_lt old
  rw [there, ← continues id before there, here]

theorem slotsWithin (continues : Continues a c) {depth : Nat} {ts : List NumType}
    (found : a.slotsWithin depth id = .ok ts) : c.slotsWithin depth id = .ok ts := by
  induction depth generalizing id ts with
  | zero => cases found
  | succ depth ih =>
    obtain ⟨node, here, slots⟩ := slotsWithin_succ_eq_ok_iff.1 found
    exact slotsWithin_succ_eq_ok_iff.2
      ⟨node, continues id node here, nodeSlots_refined (fun _ _ _ sub => ih sub) slots⟩

/-- What an expression leaves on the stack where it was made, it leaves wherever it still is. -/
theorem slots_eq (continues : Continues a c) {ts us : List NumType} (here : a.slots id = .ok ts)
    (there : c.slots id = .ok us) : us = ts :=
  slotsWithin_agree there (continues.slotsWithin here)

end Continues

theorem continues_push (a : Arena) (node : Node) (label : Option Shape) :
    Continues a (a.push node label) := by
  intro id other here
  rw [node_push_of_lt (lt_size_of_node here), here]

theorem node_of_push {new node : Node} {label : Option Shape} (behind : a.size ≤ id)
    (here : (a.push new label).node id = .ok node) : node = new := by
  have inside := lt_size_of_node here
  rw [size_push] at inside
  have is : id = a.size := Nat.le_antisymm (Nat.le_of_lt_succ inside) behind
  subst is
  rw [node_push_size] at here
  exact (Except.ok.inj here).symm

theorem continues_relabel {shape : Shape} (done : a.relabel id shape = .ok c) :
    Continues a c ∧ c.size = a.size := by
  cases here : a.get id with
  | error e => simp [relabel, here, bind, Except.bind] at done
  | ok entry =>
    simp only [relabel, here, bind, Except.bind, pure, Except.pure, Except.ok.injEq] at done
    subst done
    refine ⟨fun other node there => ?_, Array.size_setIfInBounds ..⟩
    rw [get_eq_ok_iff] at here
    rw [node_setIfInBounds here]
    by_cases is : other = id
    · subst is
      rw [if_pos rfl, ← there, node_eq_ok_iff.2 ⟨_, here⟩]
    · rw [if_neg is, there]

theorem field_eq_push {operand result : Operand} {key : FieldKey}
    (done : a.field operand key = .ok (result, c)) :
    result.id = a.size ∧ ∃ index offset width label,
      c = a.push (.extract operand.id index offset width) label := by
  have viewed (composite : ExprId) (shape : Shape)
      (done : a.viewField composite shape key = .ok (result, c)) :
      result.id = a.size ∧ ∃ index offset width label,
        c = a.push (.extract composite index offset width) label := by
    cases found : shape.position key with
    | error e => simp [viewField, found, bind, Except.bind] at done
    | ok position =>
      simp only [viewField, found, bind, Except.bind, pure, Except.pure, Except.ok.injEq,
        Prod.mk.injEq] at done
      obtain ⟨rfl, rfl⟩ := done
      exact ⟨Operand.id_ofShape .., _, _, _, _, rfl⟩
  cases operand with
  | view id shape => exact viewed id shape done
  | plain id =>
    cases label : a.label id with
    | error e => simp [field, label, bind, Except.bind] at done
    | ok shape =>
      simp only [field, label, bind, Except.bind] at done
      exact viewed id shape done

end Arena

end WasmBuilder
