import WasmBuilder.Proofs.Course.Sheds

/-!
Returns among expressions.

The return that a result makes ends the statements of its body and is handed out to nobody. So no
expression has it for an operand, and nothing is ever cut out of a list inside an expression.
Simplification then only carries out operations, and only bodies themselves are cut.
-/

set_option autoImplicit false

namespace WasmBuilder

namespace Node

def isReturn : Node → Bool
  | ret _ => true
  | _ => false

def isOperation : Node → Bool
  | binary .. | unary .. => true
  | _ => false

theorem exists_ret {n : Node} (isReturn : n.isReturn = true) : ∃ value, n = .ret value := by
  cases n <;> first | exact ⟨_, rfl⟩ | cases isReturn

theorem isOperation_of_foldNode? {a : Arena} {n : Node} {v : Value} (carried : a.foldNode? n = some v) :
    n.isOperation = true := by
  cases n <;> first | rfl | cases carried

/-- A node stays as it is, or is an operation that was carried out on constants. -/
inductive Folds (a : Arena) (n : Node) : Node → Prop
  | same : Folds a n n
  | constant {v : Value} (carried : a.foldNode? n = some v) : Folds a n (.const v)

namespace Folds

variable {a : Arena} {n m : Node} (folds : n.Folds a m)

include folds

theorem isReturn : m.isReturn = n.isReturn := by
  cases folds with
  | same => rfl
  | constant carried => cases n <;> first | rfl | cases carried

theorem eq_of_fixed (fixed : n.isOperation = false) : m = n := by
  cases folds with
  | same => rfl
  | constant carried =>
    rw [isOperation_of_foldNode? carried] at fixed
    cases fixed

end Folds

end Node

namespace Arena

variable {a c d : Arena}

theorem constant?_eq_some_iff {id : ExprId} {v : Value} :
    a.constant? id = some v ↔ a.node id = .ok (.const v) := by
  rw [node_eq_ok_iff, constant?]
  constructor
  · intro found
    split at found
    next w label here =>
      cases found
      exact ⟨label, here⟩
    next => cases found
  · rintro ⟨label, here⟩
    rw [here]

theorem foldNode?_of_constants (constants : ∀ id v, a.constant? id = some v → c.constant? id = some v)
    {node : Node} {v : Value} (carried : a.foldNode? node = some v) : c.foldNode? node = some v := by
  cases node with
  | binary op left right =>
    obtain ⟨x, first, carried⟩ := Option.bind_eq_some_iff.1 carried
    obtain ⟨y, second, carried⟩ := Option.bind_eq_some_iff.1 carried
    simp only [foldNode?, constants _ _ first, constants _ _ second]
    exact carried
  | unary op operand =>
    obtain ⟨x, first, carried⟩ := Option.bind_eq_some_iff.1 carried
    simp only [foldNode?, constants _ _ first]
    exact carried
  | _ => cases carried

/-- Every node is there, and stays as it is or is an operation that was carried out. -/
def Folds (a c : Arena) : Prop :=
  ∀ (id : ExprId) (node : Node), a.node id = .ok node →
    ∃ other, c.node id = .ok other ∧ node.Folds c other

theorem Folds.refl (a : Arena) : Folds a a := fun _ node here => ⟨node, here, .same⟩

theorem Folds.constant? (folds : Folds a c) {id : ExprId} {v : Value}
    (found : a.constant? id = some v) : c.constant? id = some v := by
  obtain ⟨other, there, folded⟩ := folds id _ (constant?_eq_some_iff.1 found)
  rw [constant?_eq_some_iff, there, folded.eq_of_fixed rfl]

theorem Folds.trans (first : Folds a c) (second : Folds c d) : Folds a d := by
  intro id node here
  obtain ⟨other, there, folds⟩ := first id node here
  obtain ⟨last, behind, folds'⟩ := second id other there
  refine ⟨last, behind, ?_⟩
  cases folds with
  | same => exact folds'
  | constant carried =>
    rw [folds'.eq_of_fixed rfl]
    exact .constant (foldNode?_of_constants (fun _ _ => second.constant?) carried)

theorem Folds.fixed (folds : Folds a c) {id : ExprId} {node : Node} (here : a.node id = .ok node)
    (fixed : node.isOperation = false) : c.node id = .ok node := by
  obtain ⟨other, there, folded⟩ := folds id node here
  rw [there, folded.eq_of_fixed fixed]

theorem Continues.folds (continues : Continues a c) : Folds a c :=
  fun id node here => ⟨node, continues id node here, .same⟩

def Passes (a : Arena) (id : ExprId) : Prop := ∃ node, a.node id = .ok node ∧ node.isReturn = false

theorem Passes.folds {id : ExprId} (passes : a.Passes id) (folds : Folds a c) : c.Passes id := by
  obtain ⟨node, here, passing⟩ := passes
  obtain ⟨other, there, folded⟩ := folds id node here
  exact ⟨other, there, folded.isReturn.trans passing⟩

def Calm (a : Arena) : Prop :=
  ∀ (id : ExprId) (node : Node), a.node id = .ok node → ∀ child ∈ node.children, a.Passes child

theorem calm_empty : Calm {} := by
  intro id node here
  exact absurd (lt_size_of_node here) (Nat.not_lt_zero id)

namespace Calm

variable (calm : a.Calm)

include calm

theorem push {node : Node} (passing : ∀ child ∈ node.children, a.Passes child)
    (label : Option Shape) : (a.push node label).Calm := by
  intro id other here child mem
  apply Passes.folds (a := a) _ (continues_push a node label).folds
  by_cases old : id < a.size
  · rw [node_push_of_lt old] at here
    exact calm id other here child mem
  · rw [node_of_push (Nat.le_of_not_lt old) here] at mem
    exact passing child mem

theorem of_continues (continues : Continues a c) (size : c.size = a.size) : c.Calm := by
  intro id node here child mem
  have old : id < a.size := size ▸ lt_size_of_node here
  exact (calm id node (continues.node_of_lt old here) child mem).folds continues.folds

theorem foldAt (count : Nat) (id : ExprId) :
    Folds a (foldAt (a, count) id).1 ∧ (Arena.foldAt (a, count) id).1.Calm := by
  simp only [Arena.foldAt]
  cases here : a.entries[id]? with
  | none => exact ⟨.refl a, calm⟩
  | some entry =>
    cases folded : a.foldNode? entry.node with
    | none =>
      simp only [folded]
      exact ⟨.refl a, calm⟩
    | some v =>
      simp only [folded]
      have nodes := node_setIfInBounds here ⟨.const v, entry.label⟩
      have operation : a.node id = .ok entry.node := node_eq_ok_iff.2 ⟨entry.label, here⟩
      have constants (other : ExprId) (w : Value) (found : a.constant? other = some w) :
          (⟨a.entries.setIfInBounds id ⟨.const v, entry.label⟩⟩ : Arena).constant? other = some w := by
        rw [constant?_eq_some_iff] at found ⊢
        rw [nodes, if_neg, found]
        -- what is carried out was no constant before
        rintro rfl
        rw [Except.ok.inj (operation.symm.trans found)] at folded
        cases folded
      have folds : Folds a ⟨a.entries.setIfInBounds id ⟨.const v, entry.label⟩⟩ := by
        intro other node found
        rw [nodes]
        by_cases is : other = id
        · subst is
          cases found.symm.trans operation
          exact ⟨.const v, if_pos rfl, .constant (foldNode?_of_constants constants folded)⟩
        · exact ⟨node, (if_neg is).trans found, .same⟩
      refine ⟨folds, fun other node found child mem => ?_⟩
      rw [nodes] at found
      split at found
      · -- a constant has no operands
        cases found
        cases mem
      · exact (calm other node found child mem).folds folds

theorem foldConstants : Folds a a.foldConstants.1 ∧ a.foldConstants.1.Calm := by
  have sweep (ids : List ExprId) (a : Arena) (calm : a.Calm) (count : Nat) :
      Folds a (ids.foldl Arena.foldAt (a, count)).1 ∧
        (ids.foldl Arena.foldAt (a, count)).1.Calm := by
    induction ids generalizing a count with
    | nil => exact ⟨.refl a, calm⟩
    | cons id rest ih =>
      obtain ⟨folds, calm⟩ := calm.foldAt count id
      obtain ⟨others, calm⟩ := ih _ calm (Arena.foldAt (a, count) id).2
      exact ⟨folds.trans others, calm⟩
  exact sweep _ a calm 0

end Calm

theorem cut_cons_of_passes {id : ExprId} (passes : a.Passes id) (rest : List ExprId) :
    a.cut (id :: rest) = (do
      let (kept, n) ← a.cut rest
      return (id :: kept, n)) := by
  obtain ⟨node, here, passing⟩ := passes
  simp only [cut, here, bind, Except.bind]
  cases node <;> first | rfl | cases passing

theorem cut_cons_of_return {id : ExprId} {value : Option ExprId} (here : a.node id = .ok (.ret value))
    (rest : List ExprId) : a.cut (id :: rest) = .ok ([id], rest.length) := by
  simp only [cut, here, bind, Except.bind]
  rfl

theorem cut_of_passing {list : List ExprId} (passing : ∀ id ∈ list, a.Passes id) :
    a.cut list = .ok (list, 0) := by
  induction list with
  | nil => rfl
  | cons id rest ih =>
    rw [cut_cons_of_passes (passing id List.mem_cons_self),
      ih fun other mem => passing other (List.mem_cons_of_mem id mem)]
    rfl

theorem cut_append_of_passing {first : List ExprId} (passing : ∀ id ∈ first, a.Passes id)
    (second : List ExprId) : a.cut (first ++ second) = (do
      let (kept, n) ← a.cut second
      return (first ++ kept, n)) := by
  induction first with
  | nil =>
    rw [List.nil_append]
    cases a.cut second <;> rfl
  | cons id first ih =>
    rw [List.cons_append, cut_cons_of_passes (passing id List.mem_cons_self),
      ih fun other mem => passing other (List.mem_cons_of_mem id mem)]
    cases a.cut second <;> rfl

/-- What stands behind a list with a return in it does not matter. -/
theorem cut_append_eq_ok {first second kept : List ExprId} {n : Nat}
    (done : a.cut (first ++ second) = .ok (kept, n)) :
    (∀ other, ∃ m, a.cut (first ++ other) = .ok (kept, m)) ∨ ∀ id ∈ first, a.Passes id := by
  induction first generalizing kept n with
  | nil => exact .inr fun _ mem => absurd mem List.not_mem_nil
  | cons id first ih =>
    obtain ⟨node, here, _⟩ := bind_eq_ok_iff.1 done
    cases isReturn : node.isReturn with
    | true =>
      obtain ⟨value, rfl⟩ := Node.exists_ret isReturn
      rw [List.cons_append, cut_cons_of_return here] at done
      cases done
      exact .inl fun other => ⟨_, cut_cons_of_return here _⟩
    | false =>
      have passes : a.Passes id := ⟨node, here, isReturn⟩
      rw [List.cons_append, cut_cons_of_passes passes] at done
      obtain ⟨⟨tail, m⟩, others, done⟩ := bind_eq_ok_iff.1 done
      cases done
      rcases ih others with stopped | passing
      · refine .inl fun other => ?_
        obtain ⟨m, run⟩ := stopped other
        rw [List.cons_append, cut_cons_of_passes passes, run]
        exact ⟨m, rfl⟩
      · exact .inr (List.forall_mem_cons.2 ⟨passes, passing⟩)

end Arena

namespace Unreachable

variable {s : State}

theorem same_ask {α : Type} (question : Arena → Except BuildError α) :
    Moves Eq s (ask question) fun x t => t = s ∧ question s.arena = .ok x := by
  apply Moves.get_bind
  cases question s.arena with
  | ok x => exact Moves.pure ⟨rfl, rfl⟩
  | error e => exact Moves.throw

theorem same_cutList (id : ExprId) {list : List ExprId}
    (passing : ∀ x ∈ list, s.arena.Passes x) :
    Moves Eq s (cutList id list) fun kept _ => kept = list := by
  apply (same_ask _).bind
  rintro ⟨kept, n⟩ _ _ ⟨rfl, done⟩
  cases done.symm.trans (Arena.cut_of_passing passing)
  exact Moves.pure rfl

theorem same_cutLists (id : ExprId) {lists : List (List ExprId)}
    (passing : ∀ list ∈ lists, ∀ x ∈ list, s.arena.Passes x) :
    Moves Eq s (cutLists id lists) fun _ _ => True := by
  induction lists with
  | nil => exact Moves.pure trivial
  | cons list rest ih =>
    apply (same_cutList id (passing list List.mem_cons_self)).bind
    rintro kept _ rfl _
    apply (ih fun other mem => passing other (List.mem_cons_of_mem list mem)).bind
    exact fun _ _ _ _ => Moves.pure trivial

theorem same_visitWithin (calm : s.arena.Calm) (depth : Nat) (id : ExprId) :
    Moves Eq s (visitWithin depth id) fun _ _ => True := by
  induction depth generalizing id with
  | zero => exact Moves.throw
  | succ depth ih =>
    apply (same_ask _).bind
    rintro node s _ ⟨rfl, here⟩
    -- lists inside an expression are made of its operands
    have passing : ∀ list ∈ node.statementLists, ∀ x ∈ list, s.arena.Passes x :=
      fun list isList x mem => calm id node here x (Node.mem_children_of_mem_list isList mem)
    apply (same_cutLists id passing).bind
    rintro nested _ rfl _
    exact Moves.forM fun x _ _ same => same ▸ ih x

theorem same_visitAll (calm : s.arena.Calm) (body : List ExprId) :
    Moves Eq s (visitAll body) fun _ _ => True :=
  Moves.get_bind (Moves.forM fun id _ _ same => same ▸ same_visitWithin calm _ id)

end Unreachable

end WasmBuilder
