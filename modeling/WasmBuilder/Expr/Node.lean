import WasmBuilder.Shape
import WasmBuilder.Op.Basic

/-!
Expression nodes. A node names its operands by their handles in an arena.

Slots and globals are numbers of variables, not of machine locals: a variable of composite shape
takes several of those.
-/

set_option autoImplicit false

namespace WasmBuilder

/-- A handle to an expression: its position in the arena. -/
abbrev ExprId := Nat

inductive Node where
  | const (value : Value)
  | localGet (slot : Nat) (shape : Shape)
  | localSet (slot : Nat) (shape : Shape) (value : ExprId)
  | globalGet (global : Nat) (shape : Shape)
  | globalSet (global : Nat) (shape : Shape) (value : ExprId)
  | binary (op : BinOp) (left right : ExprId)
  | unary (op : UnOp) (operand : ExprId)
  /-- A call by the function's position in declaration order. -/
  | call (func : Nat) (args : List ExprId) (signature : Signature)
  /-- A call through the function table at the slot that `index` computes. -/
  | callIndirect (index : ExprId) (args : List ExprId) (signature : Signature)
  /-- Items in order. With an open shape the block has the value of its last item. -/
  | block (items : List ExprId) (shape : Shape)
  | group (items : List ExprId)
  /-- Positional field `index` of a composite: slots `offset` to `offset + width`. -/
  | extract (composite : ExprId) (index offset width : Nat)
  | choose (cond : ExprId) (thenItems elseItems : List ExprId) (shape : Shape)
  | loop (init : List ExprId) (cond : ExprId) (step body : List ExprId)
  | ret (value : Option ExprId)
  | load (type : NumType) (addr : ExprId) (offset : Nat)
  | store (type : NumType) (addr value : ExprId) (offset : Nat)
  | memorySize
  | memoryGrow (delta : ExprId)
  | nop
  deriving DecidableEq

namespace Node

/-- The operands, in the order in which they are evaluated. -/
def children : Node → List ExprId
  | const _ | localGet .. | globalGet .. | memorySize | nop => []
  | localSet _ _ value | globalSet _ _ value => [value]
  | binary _ left right => [left, right]
  | unary _ operand => [operand]
  | call _ args _ => args
  | callIndirect index args _ => args ++ [index]
  | block items _ | group items => items
  | extract composite _ _ _ => [composite]
  | choose cond thenItems elseItems _ => cond :: thenItems ++ elseItems
  | loop init cond step body => init ++ cond :: body ++ step
  | ret value => value.toList
  | load _ addr _ => [addr]
  | store _ addr value _ => [addr, value]
  | memoryGrow delta => [delta]

def intrinsicShape? : Node → Option Shape
  | const v => some (.num v.type)
  | binary op _ _ => some (.num op.resultType)
  | unary op _ => some (.num op.resultType)
  | load t _ _ => some (.num t)
  | _ => none

end Node

end WasmBuilder
