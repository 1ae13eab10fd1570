import WasmBuilder.Host.Imports
import WasmBuilder.Wasm.Atomic
import WasmBuilder.Wasm.Vector.Access

/-!
WebAssembly modules as syntax: structured instructions and the sections around them.

Control instructions hold their bodies, so every sequence is well nested by construction. A
conditional without a second arm is an instruction of its own, since it is written differently from
one whose second arm is empty.
-/

set_option autoImplicit false

namespace WasmBuilder.Wasm

def maxNameBytes : Nat := 100000

inductive BlockType where
  | empty
  | value (type : ValType)
  | index (typeIndex : Nat)
  deriving DecidableEq, Repr

/-- Where a memory access goes. Alignment is a binary logarithm, and only a hint. -/
structure MemArg where
  align : Nat
  offset : Nat
  memory : Nat := 0
  deriving DecidableEq, Repr

inductive Instr where
  | unreachable
  | nop
  | drop
  | select
  /-- A choice between values of a type that is written down. -/
  | selectTyped (type : ValType)
  | const (value : Value)
  | vecConst (bits : BitVec 128)
  | refNull (type : RefType)
  | refIsNull
  | refFunc (func : Nat)
  | binary (op : BinOp)
  | unary (op : UnOp)
  | machineBinary (op : MachineBinOp)
  | machineUnary (op : MachineUnOp)
  | localGet (index : Nat)
  | localSet (index : Nat)
  | localTee (index : Nat)
  | globalGet (index : Nat)
  | globalSet (index : Nat)
  | load (type : NumType) (arg : MemArg)
  | store (type : NumType) (arg : MemArg)
  /-- Loads a part of an integer, and fills it up with its sign or with zeros. -/
  | loadPart (width : Width) (part : Part) (isSigned : Bool) (arg : MemArg)
  | storePart (width : Width) (part : Part) (arg : MemArg)
  | memorySize (memory : Nat)
  | memoryGrow (memory : Nat)
  | memoryFill (memory : Nat)
  | memoryCopy (target source : Nat)
  | memoryInit (data memory : Nat)
  | dataDrop (data : Nat)
  | vector (op : Vector.Op)
  | vecAccess (access : Vector.Access) (arg : MemArg)
  | atomic (op : AtomicOp) (arg : MemArg)
  | atomicFence
  | tableGet (table : Nat)
  | tableSet (table : Nat)
  | tableSize (table : Nat)
  | tableGrow (table : Nat)
  | tableFill (table : Nat)
  | tableCopy (target source : Nat)
  | tableInit (element table : Nat)
  | elemDrop (element : Nat)
  | block (type : BlockType) (body : List Instr)
  | loop (type : BlockType) (body : List Instr)
  | ifThen (type : BlockType) (body : List Instr)
  | ifElse (type : BlockType) (thenBody elseBody : List Instr)
  | br (label : Nat)
  | brIf (label : Nat)
  | brTable (labels : List Nat) (otherwise : Nat)
  | ret
  | call (func : Nat)
  | callIndirect (typeIndex tableIndex : Nat)
  | tailCall (func : Nat)
  | tailCallIndirect (typeIndex tableIndex : Nat)

inductive ImportType where
  | func (typeIndex : Nat)
  | table (type : TableType)
  | memory (type : MemoryType)
  | global (type : GlobalType)
  deriving DecidableEq, Repr

namespace ImportType

def func? : ImportType → Option Nat
  | func t => some t
  | table _ | memory _ | global _ => none

def table? : ImportType → Option TableType
  | table t => some t
  | func _ | memory _ | global _ => none

def memory? : ImportType → Option MemoryType
  | memory t => some t
  | func _ | table _ | global _ => none

def global? : ImportType → Option GlobalType
  | global t => some t
  | func _ | table _ | memory _ => none

end ImportType

structure Import where
  key : ImportKey
  type : ImportType
  deriving DecidableEq, Repr

/-- A function of the module itself. Its first locals are its parameters, which are not listed. -/
structure Func where
  typeIndex : Nat
  locals : List ValType
  body : List Instr

structure Global where
  type : GlobalType
  init : List Instr

inductive ExportKind where
  | func
  | table
  | memory
  | global
  deriving DecidableEq, Repr

structure Export where
  name : String
  kind : ExportKind
  index : Nat
  deriving DecidableEq, Repr

inductive Placement where
  /-- On instantiation, into the table or memory of an index, from a constant offset on. -/
  | active (target : Nat) (offset : List Instr)
  | passive
  | declared

inductive Slot where
  | func (index : Nat)
  | null
  | global (index : Nat)
  deriving DecidableEq, Repr

def Slot.func? : Slot → Option Nat
  | .func f => some f
  | .null | .global _ => none

structure Element where
  placement : Placement
  type : RefType
  slots : List Slot

structure Data where
  placement : Placement
  bytes : List UInt8

structure Module where
  types : List FuncType := []
  imports : List Import := []
  funcs : List Func := []
  tables : List TableType := []
  memories : List MemoryType := []
  globals : List Global := []
  exports : List Export := []
  start : Option Nat := none
  elements : List Element := []
  data : List Data := []

namespace Module

def importedFuncs (m : Module) : List Nat := m.imports.filterMap (·.type.func?)

def importedTables (m : Module) : List TableType := m.imports.filterMap (·.type.table?)

def importedMemories (m : Module) : List MemoryType := m.imports.filterMap (·.type.memory?)

def importedGlobals (m : Module) : List GlobalType := m.imports.filterMap (·.type.global?)

end Module

end WasmBuilder.Wasm
