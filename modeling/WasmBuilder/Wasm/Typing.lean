import WasmBuilder.Wasm.Module

/-!
What instructions take from the stack and leave there.

Most instructions have a type of their own, once it is known what they refer to. The others take
whatever the stack holds, or never go on, or hold instructions themselves.
-/

set_option autoImplicit false

namespace WasmBuilder.Wasm

/-- What an instruction may refer to. -/
structure Context where
  types : Array FuncType
  funcs : Array FuncType
  globals : Array GlobalType
  /-- How many of the globals are imported; these come first. -/
  importedGlobals : Nat
  tables : Array TableType
  memories : Array MemoryType
  elements : Array RefType
  segments : Nat
  /-- The functions that code may make references to: those that are named outside of code. -/
  referable : List Nat
  locals : Array ValType := #[]
  /-- What a branch to each enclosing label passes on, the innermost first. -/
  labels : List (List ValType) := []
  results : List ValType := []

def require (b : Bool) : Option Unit := if b then some () else none

namespace Context

def blockType? (c : Context) : BlockType → Option FuncType
  | .empty => some ⟨[], []⟩
  | .value t => some ⟨[], [t]⟩
  | .index i => c.types[i]?

def withLabel (c : Context) (types : List ValType) : Context :=
  { c with labels := types :: c.labels }

/-- What the body of a function of a type may refer to, with the locals behind its parameters. A
branch out of the body returns. -/
def forBody (c : Context) (t : FuncType) (locals : List ValType) : Context :=
  { c with
    locals := (t.params ++ locals).toArray
    labels := [t.results]
    results := t.results }

def memoryAddress? (c : Context) (memory : Nat) : Option AddressType :=
  c.memories[memory]?.map (·.address)

def accessAddress? (c : Context) (arg : MemArg) : Option ValType := do
  let address ← c.memoryAddress? arg.memory
  require (arg.offset < 2 ^ address.bits)
  return address.valType

/-- The function type for a call through a table of functions; the slot comes behind the
arguments. -/
def indirectType? (c : Context) (typeIndex table : Nat) : Option (FuncType × ValType) := do
  let t ← c.tables[table]?
  require (t.element = .func)
  return (← c.types[typeIndex]?, t.address.valType)

end Context

namespace Instr

/-- The type of an instruction that has one whatever is on the stack. -/
def type? (c : Context) : Instr → Option FuncType
  | .nop => some ⟨[], []⟩
  | .selectTyped t => some ⟨[t, t, .i32], [t]⟩
  | .const v => some ⟨[], [.num v.type]⟩
  | .vecConst _ => some ⟨[], [.vec]⟩
  | .refNull t => some ⟨[], [.ref t]⟩
  | .refFunc f => do
    require (f < c.funcs.size && c.referable.contains f)
    return ⟨[], [.funcref]⟩
  | .binary op => some ⟨[.num op.operandType, .num op.operandType], [.num op.resultType]⟩
  | .unary op => some ⟨[.num op.operandType], [.num op.resultType]⟩
  | .machineBinary op => some ⟨[.num op.operandType, .num op.operandType], [.num op.resultType]⟩
  | .machineUnary op => some ⟨[.num op.operandType], [.num op.resultType]⟩
  | .localGet i => do return ⟨[], [← c.locals[i]?]⟩
  | .localSet i => do return ⟨[← c.locals[i]?], []⟩
  | .localTee i => do
    let t ← c.locals[i]?
    return ⟨[t], [t]⟩
  | .globalGet i => do return ⟨[], [(← c.globals[i]?).type]⟩
  | .globalSet i => do
    let g ← c.globals[i]?
    require g.isMutable
    return ⟨[g.type], []⟩
  | .load t arg => do
    require (arg.align ≤ t.alignLog2)
    return ⟨[← c.accessAddress? arg], [.num t]⟩
  | .store t arg => do
    require (arg.align ≤ t.alignLog2)
    return ⟨[← c.accessAddress? arg, .num t], []⟩
  | .loadPart w part _ arg => do
    require (part.isProper w && arg.align ≤ part.log2)
    return ⟨[← c.accessAddress? arg], [.num w.int]⟩
  | .storePart w part arg => do
    require (part.isProper w && arg.align ≤ part.log2)
    return ⟨[← c.accessAddress? arg, .num w.int], []⟩
  | .memorySize memory => do return ⟨[], [(← c.memoryAddress? memory).valType]⟩
  | .memoryGrow memory => do
    let t := (← c.memoryAddress? memory).valType
    return ⟨[t], [t]⟩
  | .memoryFill memory => do
    let t := (← c.memoryAddress? memory).valType
    return ⟨[t, .i32, t], []⟩
  | .memoryCopy target source => do
    let goal ← c.memoryAddress? target
    let origin ← c.memoryAddress? source
    return ⟨[goal.valType, origin.valType, (goal.narrower origin).valType], []⟩
  | .memoryInit data memory => do
    require (data < c.segments)
    return ⟨[(← c.memoryAddress? memory).valType, .i32, .i32], []⟩
  | .dataDrop data => do
    require (data < c.segments)
    return ⟨[], []⟩
  | .vector op => do
    require op.isProper
    return op.type
  | .vecAccess a arg => do
    require (a.isProper && arg.align ≤ a.log2)
    return ⟨(← c.accessAddress? arg) :: a.type.params, a.type.results⟩
  | .atomic op arg => do
    require (op.isProper && arg.align = op.log2)
    return ⟨(← c.accessAddress? arg) :: op.type.params, op.type.results⟩
  | .atomicFence => some ⟨[], []⟩
  | .tableGet table => do
    let t ← c.tables[table]?
    return ⟨[t.address.valType], [.ref t.element]⟩
  | .tableSet table => do
    let t ← c.tables[table]?
    return ⟨[t.address.valType, .ref t.element], []⟩
  | .tableSize table => do return ⟨[], [(← c.tables[table]?).address.valType]⟩
  | .tableGrow table => do
    let t ← c.tables[table]?
    return ⟨[.ref t.element, t.address.valType], [t.address.valType]⟩
  | .tableFill table => do
    let t ← c.tables[table]?
    return ⟨[t.address.valType, .ref t.element, t.address.valType], []⟩
  | .tableCopy target source => do
    let goal ← c.tables[target]?
    let origin ← c.tables[source]?
    require (goal.element = origin.element)
    return ⟨[goal.address.valType, origin.address.valType,
      (goal.address.narrower origin.address).valType], []⟩
  | .tableInit element table => do
    let t ← c.tables[table]?
    require ((← c.elements[element]?) = t.element)
    return ⟨[t.address.valType, .i32, .i32], []⟩
  | .elemDrop element => do
    require (element < c.elements.size)
    return ⟨[], []⟩
  | .call f => c.funcs[f]?
  | .callIndirect typeIndex table => do
    let (f, slot) ← c.indirectType? typeIndex table
    return ⟨f.params ++ [slot], f.results⟩
  | .unreachable | .drop | .select | .refIsNull | .block _ _ | .loop _ _ | .ifThen _ _
  | .ifElse _ _ _ | .br _ | .brIf _ | .brTable _ _ | .ret | .tailCall _ | .tailCallIndirect _ _ =>
    none

end Instr

end WasmBuilder.Wasm
