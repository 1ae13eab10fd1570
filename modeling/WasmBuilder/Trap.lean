/-!
Why execution stops short of a result.
-/

set_option autoImplicit false

namespace WasmBuilder

/-- The cause of an abnormal end. -/
inductive Trap where
  | unreachable
  | divideByZero
  | integerOverflow
  | invalidConversion
  | outOfBounds
  /-- An atomic access whose address is no multiple of its size. -/
  | unaligned
  /-- Waiting on memory that no other thread can reach. -/
  | notShared
  | undefinedElement
  | indirectTypeMismatch
  /-- A host function failed, or wrote results of the wrong types. -/
  | host
  | callDepth
  /-- Code that validation refuses: an operand or index is missing or has the wrong type. -/
  | illTyped
  deriving DecidableEq, Repr

end WasmBuilder
