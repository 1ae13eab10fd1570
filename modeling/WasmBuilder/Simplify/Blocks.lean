import WasmBuilder.Expr.Arena

/-!
Replacing grouped statements by their parts.

A block among the statements of a body that leaves no value only groups, so its items can stand in
its place, and so on for blocks among these.
-/

set_option autoImplicit false

namespace WasmBuilder.Arena

def groupedStatements? (a : Arena) (id : ExprId) : Except BuildError (Option (List ExprId)) := do
  let slots ← a.slots id
  match ← a.node id with
  | .block items shape => return if slots.isEmpty && shape.isOpen then some items else none
  | _ => return none

/-- Expands each of several statements. Answers the statements and how many blocks are gone. -/
def expandAll (expand : ExprId → Except BuildError (List ExprId × Nat)) :
    List ExprId → Except BuildError (List ExprId × Nat)
  | [] => return ([], 0)
  | id :: rest => do
    let (first, n) ← expand id
    let (others, m) ← expandAll expand rest
    return (first ++ others, n + m)

/-- The statements that one statement stands for, followed through at most `depth` blocks. -/
def expandWithin (a : Arena) : (depth : Nat) → ExprId → Except BuildError (List ExprId × Nat)
  | 0, id => throw (.endlessExpression id)
  | depth + 1, id => do
    match ← a.groupedStatements? id with
    | some items =>
      let (statements, n) ← expandAll (a.expandWithin depth) items
      return (statements, n + 1)
    | none => return ([id], 0)

def flattenBlocks (a : Arena) (body : List ExprId) : Except BuildError (List ExprId × Nat) :=
  expandAll (a.expandWithin a.pathBound) body

end WasmBuilder.Arena
