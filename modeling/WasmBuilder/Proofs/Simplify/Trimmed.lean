import Mathlib.Algebra.Order.BigOperators.Group.List
import Mathlib.Algebra.Order.Group.Nat
import WasmBuilder.Proofs.Labels.Truthful
import WasmBuilder.Proofs.Simplify.Expansion
import WasmBuilder.Proofs.Simplify.Fixpoint
import WasmBuilder.Proofs.Simplify.Unreachable

/-!
Bodies of which simplification has nothing left to take away.

No statement of such a body only groups others, and nothing stands behind a return in it or in the
lists that it leads to. Simplification makes every body into one like that, and what it does to other
bodies later does not change it: lists only become shorter, at returns that stay where they are.
-/

set_option autoImplicit false

namespace WasmBuilder

namespace Node

variable {a : Arena} {node : Node}

theorem nodeSlots_upToReturns (node : Node) (slots : ExprId → Except BuildError (List NumType))
    (id : ExprId) : Arena.nodeSlots slots id (node.upToReturns a) = Arena.nodeSlots slots id node := by
  unfold upToReturns
  split <;> rfl

theorem upToReturns_of_lostIn (none : a.lostIn node = 0) : node.upToReturns a = node := by
  have whole : ∀ list ∈ node.statementLists, a.upToReturn list = list := fun list mem =>
    Arena.upToReturn_of_lost (List.sum_eq_zero_iff.1 none _ (List.mem_map_of_mem mem))
  cases node with
  | block items shape =>
    cases shape with
    | none => rw [upToReturns, whole items (List.mem_singleton_self items)]
    | num | tuple | record | auto => rfl
  | choose cond thenItems elseItems shape =>
    cases shape with
    | none =>
      rw [upToReturns, whole thenItems List.mem_cons_self,
        whole elseItems (List.mem_cons_of_mem _ List.mem_cons_self)]
    | num | tuple | record | auto => rfl
  | loop init cond step body =>
    rw [upToReturns, whole body List.mem_cons_self,
      whole step (List.mem_cons_of_mem _ List.mem_cons_self)]
  | _ => rfl

theorem block_of_upToReturns {items : List ExprId} {shape : Shape}
    (is : node.upToReturns a = .block items shape) : ∃ others, node = .block others shape := by
  unfold upToReturns at is
  split at is <;> cases is <;> exact ⟨_, rfl⟩

theorem upToReturns_of_foldNode? {v : Value} {c : Arena}
    (folded : c.foldNode? (node.upToReturns a) = some v) : node.upToReturns a = node := by
  unfold upToReturns at folded ⊢
  split at folded
  · cases folded
  · cases folded
  · cases folded
  · rfl

end Node

namespace Arena

structure Trimmed (a : Arena) (body : List ExprId) : Prop where
  stays : ∀ id ∈ body, a.Stays id
  whole : a.lost body = 0
  nested : ∀ root ∈ body, ∀ id, Relation.ReflTransGen a.Nests root id → a.lostAt id = 0

def Reduced (a : Arena) : Prop := ∀ id node, a.node id = .ok node → a.foldNode? node = none

variable {a : Arena} {body : List ExprId}

theorem expansion_of_stays (stays : ∀ id ∈ body, a.Stays id) : a.Expansion body body 0 := by
  induction body with
  | nil => exact .nil
  | cons id rest ih =>
    exact .keep (stays id List.mem_cons_self) (ih fun x mem => stays x (List.mem_cons_of_mem id mem))

end Arena

namespace Unreachable

open Arena (Trimmed Reduced)

variable {a : Arena} {s : State} {n : Nat} {done : Finset ExprId} {body : List ExprId}

namespace Cleared

variable (cleared : Cleared a n done s)

include cleared

theorem node_cases {id : ExprId} {now : Node} (there : s.arena.node id = .ok now) :
    ∃ node, a.node id = .ok node ∧ (now = node ∨ now = node.upToReturns a) := by
  obtain ⟨node, here⟩ := Arena.exists_node_of_lt (cleared.size ▸ Arena.lt_size_of_node there)
  refine ⟨node, here, ?_⟩
  by_cases mem : id ∈ done
  · cases there.symm.trans (cleared.node_of_mem mem here)
    exact .inr rfl
  · cases there.symm.trans ((cleared.node_of_notMem mem).trans here)
    exact .inl rfl

theorem label (id : ExprId) : s.arena.label id = a.label id := by
  apply Arena.label_congr
  by_cases mem : id ∈ done
  · rw [cleared.cut id mem, Option.map_map]
    rfl
  · rw [cleared.kept id mem]

theorem alike : a.Alike s.arena := by
  refine ⟨cleared.size, cleared.label, fun id node here => ?_⟩
  by_cases mem : id ∈ done
  · exact ⟨_, cleared.node_of_mem mem here, fun slots => node.nodeSlots_upToReturns slots id⟩
  · exact ⟨node, (cleared.node_of_notMem mem).trans here, fun _ => rfl⟩

theorem stays {id : ExprId} (stays : a.Stays id) : s.arena.Stays id := by
  obtain ⟨⟨ts, slots⟩, alone⟩ := stays
  refine ⟨⟨ts, (cleared.alike.slots id).trans slots⟩, ?_⟩
  rintro items ⟨shape, there, isOpen, empty⟩
  have none : a.slots id = .ok [] := (cleared.alike.slots id).symm.trans empty
  obtain ⟨node, here, rfl | is⟩ := cleared.node_cases there
  · exact alone items ⟨shape, here, isOpen, none⟩
  · obtain ⟨others, rfl⟩ := Node.block_of_upToReturns is.symm
    exact alone others ⟨shape, here, isOpen, none⟩

theorem nests {id child : ExprId} (nests : s.arena.Nests id child) : a.Nests id child := by
  obtain ⟨now, there, list, isList, mem⟩ := nests
  rw [cleared.upToReturn] at mem
  obtain ⟨node, here, rfl | rfl⟩ := cleared.node_cases there
  · exact ⟨_, here, list, isList, mem⟩
  · rw [Node.statementLists_upToReturns] at isList
    obtain ⟨whole, isWhole, rfl⟩ := List.mem_map.1 isList
    rw [Arena.upToReturn_upToReturn] at mem
    exact ⟨node, here, whole, isWhole, mem⟩

theorem lostAt_of_mem {id : ExprId} (mem : id ∈ done) : s.arena.lostAt id = 0 := by
  unfold Arena.lostAt
  split
  next now there =>
    obtain ⟨node, here⟩ := Arena.exists_node_of_lt (cleared.size ▸ Arena.lt_size_of_node there)
    cases there.symm.trans (cleared.node_of_mem mem here)
    rw [Arena.lostIn, cleared.lost, Node.statementLists_upToReturns]
    refine List.sum_eq_zero fun x mem => ?_
    simp only [List.map_map, List.mem_map, Function.comp_apply] at mem
    obtain ⟨list, -, rfl⟩ := mem
    exact a.lost_upToReturn list
  next => rfl

theorem lostAt {id : ExprId} (none : a.lostAt id = 0) : s.arena.lostAt id = 0 := by
  by_cases mem : id ∈ done
  · exact cleared.lostAt_of_mem mem
  · rw [Arena.lostAt, cleared.node_of_notMem mem]
    simp only [Arena.lostIn, cleared.lost]
    exact none

/-- What has nothing left to take away still has nothing when other bodies are cut. -/
theorem trimmed (trimmed : a.Trimmed body) : s.arena.Trimmed body where
  stays id mem := cleared.stays (trimmed.stays id mem)
  whole := by rw [cleared.lost, trimmed.whole]
  nested root isRoot id path := by
    refine cleared.lostAt (trimmed.nested root isRoot id ?_)
    exact Relation.ReflTransGen.mono (fun _ _ => cleared.nests) _ _ path

theorem constant?_eq (id : ExprId) : s.arena.constant? id = a.constant? id := by
  apply Option.ext
  intro v
  rw [Arena.constant?_eq_some_iff, Arena.constant?_eq_some_iff]
  constructor
  · intro there
    obtain ⟨node, here, rfl | is⟩ := cleared.node_cases there
    · exact here
    · unfold Node.upToReturns at is
      split at is <;> cases is
      exact here
  · intro here
    by_cases mem : id ∈ done
    · exact cleared.node_of_mem mem here
    · exact (cleared.node_of_notMem mem).trans here

theorem reduced (reduced : a.Reduced) : s.arena.Reduced := by
  intro id now there
  have same : s.arena.foldNode? now = a.foldNode? now := by
    unfold Arena.foldNode?
    split <;> simp only [cleared.constant?_eq]
  rw [same]
  obtain ⟨node, here, rfl | rfl⟩ := cleared.node_cases there
  · exact reduced id _ here
  · cases folded : a.foldNode? (node.upToReturns a) with
    | none => rfl
    | some v =>
      rw [Node.upToReturns_of_foldNode? folded, reduced id node here] at folded
      cases folded

end Cleared

theorem cleared_of_shallow (shallow : ∀ id ∈ body, a.Shallow a.size id) (n : Nat) :
    ∃ t after, (visitAll body).run ⟨a, n⟩ = .ok ⟨⟩ t ∧ Cleared a n after t ∧
      ∀ id, id ∈ after ↔ ∃ root ∈ body, Relation.ReflTransGen a.Nests root id := by
  have start : Cleared a n ∅ ⟨a, n⟩ :=
    ⟨fun id mem => absurd mem (Finset.notMem_empty id), fun _ _ => rfl, rfl⟩
  obtain ⟨t, after, run, cleared, all⟩ := Clears.forM (fun id mem => clears_visitWithin
    ((shallow id (List.mem_reverse.1 mem)).succ) n) _ _ start
  refine ⟨t, after, run, cleared, fun id => ?_⟩
  rw [all]
  simp only [Finset.notMem_empty, false_or, List.mem_reverse]

theorem cleared_of_visitAll (ordered : a.Ordered) (known : ∀ id ∈ body, id < a.size) (n : Nat) :
    ∃ t after, (visitAll body).run ⟨a, n⟩ = .ok ⟨⟩ t ∧ Cleared a n after t ∧
      ∀ id, id ∈ after ↔ ∃ root ∈ body, Relation.ReflTransGen a.Nests root id :=
  cleared_of_shallow (fun id mem => ordered.acyclic.shallow ordered.closed (known id mem)) n

end Unreachable

namespace Arena.Trimmed

variable {a : Arena} {body : List ExprId} (trimmed : a.Trimmed body)

include trimmed

theorem flattenBlocks (ordered : a.Ordered) : a.flattenBlocks body = .ok (body, 0) :=
  (flattenBlocks_eq_ok_iff ordered.acyclic).2 (expansion_of_stays trimmed.stays)

theorem cut (known : ∀ id ∈ body, id < a.size) : a.cut body = .ok (body, 0) := by
  have whole := upToReturn_of_lost trimmed.whole
  rw [cut_eq (by rwa [whole]), whole, trimmed.whole]

theorem visitAll (ordered : a.Ordered) (known : ∀ id ∈ body, id < a.size) :
    (Unreachable.visitAll body).run ⟨a, 0⟩ = .ok ⟨⟩ ⟨a, 0⟩ := by
  obtain ⟨⟨c, total⟩, after, run, cleared, all⟩ :=
    Unreachable.cleared_of_visitAll ordered known 0
  have nothing (id : ExprId) (mem : id ∈ after) : a.lostAt id = 0 := by
    obtain ⟨root, isRoot, path⟩ := (all id).1 mem
    exact trimmed.nested root isRoot id path
  have entries (id : ExprId) : c.entries[id]? = a.entries[id]? := by
    by_cases mem : id ∈ after
    · rw [cleared.cut id mem]
      cases entry : a.entries[id]? with
      | none => rfl
      | some e =>
        obtain ⟨node, label⟩ := e
        have here : a.node id = .ok node := node_eq_ok_iff.2 ⟨label, entry⟩
        have none : a.lostIn node = 0 := by
          have none := nothing id mem
          rwa [lostAt, here] at none
        simp [Node.upToReturns_of_lostIn none]
    · exact cleared.kept id mem
  have same : c = a := by
    obtain ⟨cs⟩ := c
    obtain ⟨es⟩ := a
    exact congrArg Arena.mk (Array.ext_getElem? entries)
  have count : total = 0 := cleared.removed.trans (by rw [Finset.sum_eq_zero nothing, Nat.add_zero])
  rw [run, same, count]

end Arena.Trimmed

end WasmBuilder
