import WasmBuilder.Expr.Arena
import WasmBuilder.Op.Constant

/-!
Carrying out operations on constants.

Operands are usually made before the expressions that use them, so one sweep in handle order reaches
whole trees of constants from the leaves up. A node that is carried out keeps its handle and label.
-/

set_option autoImplicit false

namespace WasmBuilder.Arena

def constant? (a : Arena) (id : ExprId) : Option Value :=
  match a.entries[id]? with
  | some ⟨.const v, _⟩ => some v
  | _ => none

def foldNode? (a : Arena) : Node → Option Value
  | .binary op left right => do op.constant? (← a.constant? left) (← a.constant? right)
  | .unary op operand => do op.constant? (← a.constant? operand)
  | _ => none

/-- Carries out one expression, if that can be done, and counts it. -/
def foldAt (state : Arena × Nat) (id : ExprId) : Arena × Nat :=
  let (a, count) := state
  match a.entries[id]? with
  | some entry =>
    match a.foldNode? entry.node with
    | some v => (⟨a.entries.setIfInBounds id { entry with node := .const v }⟩, count + 1)
    | none => state
  | none => state

def foldConstants (a : Arena) : Arena × Nat := (List.range a.size).foldl foldAt (a, 0)

end WasmBuilder.Arena
