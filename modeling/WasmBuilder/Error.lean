import WasmBuilder.Shape

/-!
Why a build step fails. Each cause carries what went wrong; `BuildError.message` words it.
-/

set_option autoImplicit false

namespace WasmBuilder

inductive BuildError where
  | unknownVariable (name : String)
  /-- The handle is not in the arena, or nothing is known about the shape of its value. -/
  | unknownExpression (id : Nat)
  | unknownField (field : String)
  | notIndexable
  /-- `last` is the greatest position, which an empty tuple lacks. -/
  | indexOutOfRange (index : Nat) (last : Option Nat)
  | assignmentMismatch (name : String) (expected actual : Shape)
  | resultMismatch (expected actual : Shape)
  | emptyResult
  | emptyBlock
  | literalShape (shape : Shape)
  | invalidModule
  | memoryLimits (maximum initial : Nat)
  | notPrimitive (shape : Shape)
  | operandMismatch (operation : String) (left right : NumType)
  | unsupportedOperation (operation : String) (type : NumType)
  | argumentCount (id : String) (expected actual : Nat)
  | unknownCallable (index : Nat)
  | duplicateId (id : String)
  | duplicateTableEntry (id : String)
  /-- An earlier step failed, and nothing can be made of this build any more. -/
  | aborted
  /-- The expression is its own operand, directly or through others. -/
  | endlessExpression (id : Nat)
  deriving DecidableEq

namespace BuildError

def message : BuildError → String
  | unknownVariable name => s!"unknown variable `{name}`"
  | unknownExpression id => s!"expression #{id} has no type information"
  | unknownField field => s!"could not find field `{field}` in record"
  | notIndexable => "cannot index a primitive value"
  | indexOutOfRange index last =>
    s!"tuple index {index} out of range, " ++
      match last with
      | some last => s!"max index is {last}"
      | none => "tuple is empty"
  | assignmentMismatch name expected actual =>
    s!"wrong assignment type for `{name}`: expected {expected.text}, got {actual.text}"
  | resultMismatch expected actual =>
    s!"wrong return type: expected {expected.text}, got {actual.text}"
  | emptyResult => "result requires at least one expression"
  | emptyBlock => "block requires at least one expression"
  | literalShape shape => s!"literals can only have primitive types, not {shape.text}"
  | invalidModule => "module validation failed"
  | memoryLimits maximum initial =>
    s!"module validation failed: memory maximum {maximum} is below its initial size {initial}"
  | notPrimitive shape => s!"{shape.text} has no single primitive representation"
  | operandMismatch operation left right =>
    s!"operands of `{operation}` disagree: {left.name} vs {right.name}"
  | unsupportedOperation operation type => s!"`{operation}` is not defined for {type.name}"
  | argumentCount id expected actual => s!"`{id}` takes {expected} argument(s), got {actual}"
  | unknownCallable index => s!"callable #{index} was not declared in this module"
  | duplicateId id => s!"function id `{id}` is already declared"
  | duplicateTableEntry id => s!"function `{id}` is already in the indirect table"
  | aborted => "module build aborted by an earlier error and cannot be compiled"
  | endlessExpression id => s!"expression #{id} contains itself"

end BuildError

def Shape.primitive (s : Shape) : Except BuildError NumType :=
  match s with
  | .num t => .ok t
  | other => .error (.notPrimitive other)

end WasmBuilder
