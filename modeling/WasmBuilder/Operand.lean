import WasmBuilder.Expr.Arena

/-!
Operands: expressions as builder steps hand them out, with access to the fields of composites.

A view is an expression together with a shape through which its fields are reached. A field becomes
an extract of its slots, and is again a view when it is composite.
-/

set_option autoImplicit false

namespace WasmBuilder

/-- Chooses a field: by position in a tuple, by name in a record. -/
inductive FieldKey where
  | index (index : Nat)
  | name (name : String)
  deriving DecidableEq

namespace FieldKey

def text : FieldKey → String
  | index i => toString i
  | name n => n

end FieldKey

namespace Shape

/-- The position and shape of the field that a key chooses. -/
def position (s : Shape) (key : FieldKey) : Except BuildError (Nat × Shape) :=
  match s, key with
  | .tuple fields, .index i =>
    match fields[i]? with
    | some field => .ok (i, field)
    | .none =>
      .error (.indexOutOfRange i (if fields.isEmpty then .none else some (fields.length - 1)))
  | .record fields, .name n =>
    match fields.findIdx? (·.1 = n) with
    | some i =>
      match fields[i]? with
      | some field => .ok (i, field.2)
      | .none => .error (.unknownField n)
    | .none => .error (.unknownField n)
  | .tuple _, key | .record _, key => .error (.unknownField key.text)
  | _, _ => .error .notIndexable

end Shape

/-- What a builder step hands out. -/
inductive Operand where
  | plain (id : ExprId)
  | view (id : ExprId) (shape : Shape)
  deriving DecidableEq

namespace Operand

def id : Operand → ExprId
  | plain id | view id _ => id

def ofShape (id : ExprId) (shape : Shape) : Operand :=
  if shape.isComposite then view id shape else plain id

def shape? : Operand → Option Shape
  | plain _ => none
  | view _ shape => some shape

@[simp] theorem id_ofShape (i : ExprId) (shape : Shape) : (ofShape i shape).id = i := by
  unfold ofShape
  split <;> rfl

end Operand

namespace Arena

def viewField (a : Arena) (composite : ExprId) (shape : Shape) (key : FieldKey) :
    Except BuildError (Operand × Arena) := do
  let (index, field) ← shape.position key
  let extract := Node.extract composite index (shape.fieldOffset index) field.width
  return (.ofShape a.size field, a.push extract (some field))

/-- Adds the extract of a field of an operand. A plain expression is seen through its label. -/
def field (a : Arena) (operand : Operand) (key : FieldKey) :
    Except BuildError (Operand × Arena) :=
  match operand with
  | .view id shape => a.viewField id shape key
  | .plain id => do a.viewField id (← a.label id) key

end Arena

end WasmBuilder
