import WasmBuilder.Expr.Arena

/-!
Cutting off statements behind a return.

What follows a return in a statement list never runs. A body is cut behind its first return, and so
is every statement list nested in it whose values nobody uses: in blocks and choices of shape none,
and the body and step of loops.
-/

set_option autoImplicit false

namespace WasmBuilder

namespace Arena

/-- A list up to its first return, and the number of statements cut off. -/
def cut (a : Arena) : List ExprId → Except BuildError (List ExprId × Nat)
  | [] => return ([], 0)
  | id :: rest => do
    match ← a.node id with
    | .ret _ => return ([id], rest.length)
    | _ =>
      let (kept, n) ← a.cut rest
      return (id :: kept, n)

/-- A list that was cut holds only statements that were there. -/
theorem mem_of_cut {a : Arena} {list kept : List ExprId} {n : Nat}
    (done : a.cut list = .ok (kept, n)) : ∀ id ∈ kept, id ∈ list := by
  induction list generalizing kept n with
  | nil =>
    cases done
    exact fun id mem => mem
  | cons id rest ih =>
    simp only [cut, bind, Except.bind] at done
    split at done
    · cases done
    next node _ =>
      split at done
      · cases done
        intro other mem
        rw [List.mem_singleton.1 mem]
        exact List.mem_cons_self
      · split at done
        · cases done
        next tail others =>
          cases done
          obtain ⟨shorter, m⟩ := tail
          intro other mem
          rcases List.mem_cons.1 mem with rfl | later
          · exact List.mem_cons_self
          · exact List.mem_cons_of_mem id (ih others other later)

end Arena

namespace Node

def statementLists : Node → List (List ExprId)
  | .block items .none => [items]
  | .choose _ thenItems elseItems .none => [thenItems, elseItems]
  | .loop _ _ step body => [body, step]
  | _ => []

theorem mem_children_of_mem_list {n : Node} {list : List ExprId} (isList : list ∈ n.statementLists)
    {child : ExprId} (mem : child ∈ list) : child ∈ n.children := by
  unfold statementLists at isList
  split at isList
  all_goals simp only [List.mem_cons, List.not_mem_nil, or_false] at isList
  · subst isList
    exact mem
  · rcases isList with rfl | rfl <;> simp [children, mem]
  · rcases isList with rfl | rfl <;> simp [children, mem]

def begins (kept list : List ExprId) : Bool := kept.length < list.length && kept.isPrefixOf list

/-- The node with one of its statement lists cut down to `kept`. Which one that is shows by its
beginning alone, so the first list is taken that begins like that. -/
def shorten (n : Node) (kept : List ExprId) : Node :=
  match n with
  | .block _ shape => .block kept shape
  | .choose cond thenItems elseItems shape =>
    if begins kept thenItems then .choose cond kept elseItems shape
    else if begins kept elseItems then .choose cond thenItems kept shape
    else n
  | .loop init cond step body =>
    if begins kept body then .loop init cond step kept
    else if begins kept step then .loop init cond kept body
    else n
  | n => n

/-- What can become of a node when one of its statement lists is cut down to `kept`. -/
inductive Shortens (kept : List ExprId) : Node → Node → Prop
  | same (n : Node) : Shortens kept n n
  | items {items : List ExprId} {shape : Shape} : Shortens kept (.block items shape) (.block kept shape)
  | thenItems {cond : ExprId} {thenItems elseItems : List ExprId} {shape : Shape} :
      Shortens kept (.choose cond thenItems elseItems shape) (.choose cond kept elseItems shape)
  | elseItems {cond : ExprId} {thenItems elseItems : List ExprId} {shape : Shape} :
      Shortens kept (.choose cond thenItems elseItems shape) (.choose cond thenItems kept shape)
  | body {init step body : List ExprId} {cond : ExprId} :
      Shortens kept (.loop init cond step body) (.loop init cond step kept)
  | step {init step body : List ExprId} {cond : ExprId} :
      Shortens kept (.loop init cond step body) (.loop init cond kept body)

theorem shortens_shorten (n : Node) (kept : List ExprId) : n.Shortens kept (n.shorten kept) := by
  unfold shorten
  split
  · exact .items
  · split
    · exact .thenItems
    · split
      · exact .elseItems
      · exact .same _
  · split
    · exact .body
    · split
      · exact .step
      · exact .same _
  · exact .same _

theorem mem_children_shorten {n : Node} {kept : List ExprId} {id : ExprId}
    (mem : id ∈ (n.shorten kept).children) : id ∈ n.children ∨ id ∈ kept := by
  have shortens := n.shortens_shorten kept
  generalize n.shorten kept = m at mem shortens
  cases shortens with
  | same => exact .inl mem
  | items => exact .inr mem
  | thenItems | elseItems | body | step =>
    simp only [children, List.cons_append, List.append_assoc, List.mem_cons, List.mem_append]
      at mem ⊢
    grind

end Node

namespace Unreachable

/-- The arena and the number of statements cut off so far. -/
structure State where
  arena : Arena
  removed : Nat

abbrev CutM := EStateM BuildError State

def ask {α : Type} (question : Arena → Except BuildError α) : CutM α := do
  match question (← get).arena with
  | .ok answer => return answer
  | .error e => throw e

def cutList (id : ExprId) (list : List ExprId) : CutM (List ExprId) := do
  let (kept, n) ← ask (·.cut list)
  if n ≠ 0 then
    let node ← ask (·.node id)
    let arena ← ask (·.replace id (node.shorten kept))
    modify fun s => { arena, removed := s.removed + n }
  return kept

def cutLists (id : ExprId) : List (List ExprId) → CutM (List ExprId)
  | [] => return []
  | list :: rest => do return (← cutList id list) ++ (← cutLists id rest)

/-- Cuts the lists of a statement, then those of the statements in them, the last one first,
followed through at most `depth` levels. -/
def visitWithin : (depth : Nat) → ExprId → CutM Unit
  | 0, id => throw (.endlessExpression id)
  | depth + 1, id => do
    let node ← ask (·.node id)
    let nested ← cutLists id node.statementLists
    nested.reverse.forM (visitWithin depth)

def visitAll (body : List ExprId) : CutM Unit := do
  let bound := (← get).arena.pathBound
  body.reverse.forM (visitWithin bound)

end Unreachable

end WasmBuilder
