import WasmBuilder.Body.Basic

/-!
Steps of a body as data.

Everything that can be done to a body is one of these steps, so a list of steps tells the whole
course of a body, failed steps included.
-/

set_option autoImplicit false

namespace WasmBuilder.Body

inductive Step where
  | read (name : String)
  | write (name : String) (value : ExprId)
  | assign (pairs : List (String × ExprId))
  | field (operand : Operand) (key : FieldKey)
  | giveResult (values : List ExprId)
  | exec (values : List ExprId)
  | block (values : List ExprId)
  | call (callable : Nat) (args : List ExprId)
  | literal (value : Number) (type : NumType)
  | tuple (values : List ExprId)
  | record (fields : List (String × ExprId))
  | binary (kind : BinaryKind) (left right : ExprId)
  | unary (kind : UnaryKind) (operand : ExprId)
  | choose (declared : Shape) (cond : ExprId) (thenItems elseItems : List ExprId)
  | loop (init : List ExprId) (cond : ExprId) (step body : List ExprId)
  | raw (node : Node) (shape : Shape)
  | load (type : NumType) (addr : ExprId) (offset : Nat)
  | store (type : NumType) (addr value : ExprId) (offset : Nat)
  | memorySize
  | memoryGrow (delta : ExprId)

namespace Step

def handOut (step : BodyM ExprId) : BodyM (Option Operand) := do return some (.plain (← step))

/-- Takes the step. Steps that only add statements hand out nothing. -/
def run : Step → BodyM (Option Operand)
  | read name => some <$> Body.read name
  | write name value => handOut (Body.write name value)
  | assign pairs => handOut (Body.assign pairs)
  | field operand key => some <$> Body.field operand key
  | giveResult values => do Body.giveResult values; return none
  | exec values => do Body.exec values; return none
  | block values => some <$> Body.block values
  | call callable args => some <$> Body.call callable args
  | literal value type => handOut (Body.literal value type)
  | tuple values => some <$> Body.tuple values
  | record fields => some <$> Body.record fields
  | binary kind left right => handOut (Body.binary kind left right)
  | unary kind operand => handOut (Body.unary kind operand)
  | choose declared cond thenItems elseItems =>
    some <$> Body.choose declared cond thenItems elseItems
  | loop init cond step body => handOut (Body.loop init cond step body)
  | raw node shape => some <$> Body.raw node shape
  | load type addr offset => handOut (Body.load type addr offset)
  | store type addr value offset => handOut (Body.store type addr value offset)
  | memorySize => handOut Body.memorySize
  | memoryGrow delta => handOut (Body.memoryGrow delta)

end Step

end WasmBuilder.Body
