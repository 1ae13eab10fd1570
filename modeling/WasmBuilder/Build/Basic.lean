import WasmBuilder.Body.Basic
import WasmBuilder.Host.Imports
import WasmBuilder.IndirectTable

/-!
The state of a module build.

A build owns the expressions of all bodies, the declared functions, the global variables, the
indirect table and the host items the finished module will ask for. Functions are numbered in
declaration order, and callables likewise: callable `i` is function `i` as callers see it.
-/

set_option autoImplicit false

namespace WasmBuilder

structure MemoryDecl where
  key : ImportKey := ⟨"namespace", "name"⟩
  initial : Nat := 10
  maximum : Nat := 100
  deriving DecidableEq, Repr

inductive FunctionKind where
  /-- Parameters, then locals, including names bound by assignment, and the statements. -/
  | defined (scope : Scope) (body : List ExprId)
  | imported (key : ImportKey)

structure Function where
  id : String
  params : List Shape
  result : Shape
  kind : FunctionKind

namespace Function

def isImported (f : Function) : Bool :=
  match f.kind with
  | .imported _ => true
  | .defined .. => false

def signature (f : Function) : Signature := ⟨f.params.flatMap Shape.flatten, f.result.flatten⟩

end Function

/-- Named callables that a library offers, in its own order. -/
structure Library where
  entries : List (String × Nat) := []
  deriving DecidableEq

namespace Library

def get? (l : Library) (name : String) : Option Nat := l.entries.lookup name

end Library

structure Build where
  arena : Arena := {}
  functions : Array Function := #[]
  callables : Array Callable := #[]
  globals : Scope := {}
  startBody : List ExprId := []
  table : IndirectTable := {}
  /-- Exported names with the functions behind them, in the order of export. -/
  exports : List (String × Nat) := []
  /-- Callables that were declared for export and are not exported yet. -/
  pending : List Nat := []
  memory : Option MemoryDecl := none
  imports : Imports := {}
  libraries : List (String × Library) := []
  failed : Bool := false

abbrev BuildM := EStateM BuildError Build

end WasmBuilder
