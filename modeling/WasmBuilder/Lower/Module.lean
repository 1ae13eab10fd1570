import WasmBuilder.Build.Basic
import WasmBuilder.Lower.Code

/-!
From a build to a module.

Imported functions come first in the index space of functions, then defined ones, both in
declaration order, and last the start function, which exists when there are start statements.
Function types stand in the order of first use.
-/

set_option autoImplicit false

namespace WasmBuilder

namespace Lower

open Wasm (Instr)

/-- The machine indices of functions: imported ones count from `nextImport`, defined ones from
`nextDefined`. -/
def funcIndicesFrom (nextImport nextDefined : Nat) : List Function → List Nat
  | [] => []
  | f :: rest =>
    if f.isImported then nextImport :: funcIndicesFrom (nextImport + 1) nextDefined rest
    else nextDefined :: funcIndicesFrom nextImport (nextDefined + 1) rest

def funcIndices (functions : List Function) : List Nat :=
  funcIndicesFrom 0 (functions.countP Function.isImported) functions

def moduleLayout (b : Build) : Layout where
  arena := b.arena
  localBases := #[]
  globalBases := (bases b.globals.shapes).toArray
  funcIndices := (funcIndices b.functions.toList).toArray
  scratchBase := 0

def Layout.withVariables (l : Layout) (shapes : List Shape) : Layout :=
  { l with
    localBases := (bases shapes).toArray
    scratchBase := (shapes.map Shape.width).sum }

/-- A function: its variables past the first `paramWidth` machine locals and then its scratch
locals, with the code of its statements. Scratch locals are not shared between functions. -/
def function (l : Layout) (typeIndex paramWidth : Nat) (shapes : List Shape)
    (body : List ExprId) : LowerM Wasm.Func := do
  modify fun s => { s with scratch := #[] }
  let code ← (l.withVariables shapes).body body
  let scratch := (← get).scratch.toList.map (·.type)
  let locals := (shapes.flatMap Shape.flatten).drop paramWidth ++ scratch
  return ⟨typeIndex, locals.map .num, code⟩

inductive Lowered where
  | imported (i : Wasm.Import)
  | defined (f : Wasm.Func)

def declaration (l : Layout) (f : Function) : LowerM Lowered := do
  let typeIndex ← intern f.signature
  match f.kind with
  | .imported key => return .imported ⟨key, .func typeIndex⟩
  | .defined scope body =>
    return .defined
      (← function l typeIndex f.signature.params.length scope.shapes body)

def Lowered.import? : Lowered → Option Wasm.Import
  | .imported i => some i
  | .defined _ => none

def Lowered.func? : Lowered → Option Wasm.Func
  | .imported _ => none
  | .defined f => some f

def startFunction (l : Layout) (startBody : List ExprId) : LowerM (Option Wasm.Func) := do
  if startBody.isEmpty then return none
  let typeIndex ← intern ⟨[], []⟩
  return some (← function l typeIndex 0 [] startBody)

def functions (l : Layout) (fs : List Function) (startBody : List ExprId) :
    LowerM (List Lowered × Option Wasm.Func) := do
  let lowered ← fs.mapM (declaration l)
  return (lowered, ← startFunction l startBody)

def memoryImport : Option MemoryDecl → Except BuildError (List Wasm.Import)
  | none => return []
  | some m =>
    if m.maximum < m.initial then throw (.memoryLimits m.maximum m.initial)
    else return [⟨m.key, .memory (.ofLimits ⟨m.initial, some m.maximum⟩)⟩]

def zeroGlobal (t : NumType) : Wasm.Global := ⟨⟨.num t, true⟩, [.const (.zero t)]⟩

def tableType (size : Nat) : Wasm.TableType := ⟨.func, .w32, ⟨size, some size⟩⟩

def funcExport (l : Layout) (e : String × Nat) : Except BuildError Wasm.Export := do
  return ⟨e.1, .func, ← l.funcIndex e.2⟩

/-- The module that is made of lowered functions. A table is there when functions are called through
it or when it is exported, and has exactly their number of entries. -/
def assembled (b : Build) (tableExport : Option String) (types : List Signature)
    (lowered : List Lowered) (start : Option Wasm.Func) (memory : List Wasm.Import)
    (table : List Nat) (exports : List Wasm.Export) : Wasm.Module where
  types := types.map Signature.funcType
  imports := lowered.filterMap Lowered.import? ++ memory
  funcs := lowered.filterMap Lowered.func? ++ start.toList
  tables := if !table.isEmpty || tableExport.isSome then [tableType table.length] else []
  globals := (b.globals.shapes.flatMap Shape.flatten).map zeroGlobal
  exports := exports ++ tableExport.toList.map fun name => ⟨name, .table, 0⟩
  start := start.map fun _ => b.functions.size
  elements := if table.isEmpty then []
    else [⟨.active 0 [.const (.i32 0)], .func, table.map .func⟩]

end Lower

def Build.lower (b : Build) (tableExport : Option String) : Except BuildError Wasm.Module := do
  let layout := Lower.moduleLayout b
  let ((lowered, start), state) ← (Lower.functions layout b.functions.toList b.startBody).run {}
  let memory ← Lower.memoryImport b.memory
  let table ← b.table.functions.mapM layout.funcIndex
  let exports ← b.exports.mapM (Lower.funcExport layout)
  return Lower.assembled b tableExport state.types.toList lowered start memory table exports

end WasmBuilder
