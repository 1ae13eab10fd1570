import WasmBuilder.Wasm.Typing

/-!
Validation of modules.

Instruction sequences are checked against a stack of operand types. Behind an instruction that
never goes on, the stack is polymorphic: it gives operands of every type.
-/

set_option autoImplicit false

namespace WasmBuilder.Wasm

/-- The operand types on the stack, the top first. An unknown type fits everywhere. -/
structure OpStack where
  known : List (Option ValType)
  isPolymorphic : Bool

namespace OpStack

def push (s : OpStack) (t : ValType) : OpStack := { s with known := some t :: s.known }

def pushAll (s : OpStack) (ts : List ValType) : OpStack :=
  { s with known := (ts.map some).reverse ++ s.known }

def popAny (s : OpStack) : Option (Option ValType × OpStack) :=
  match s.known with
  | t :: rest => some (t, { s with known := rest })
  | [] => if s.isPolymorphic then some (none, s) else none

def pop (s : OpStack) (t : ValType) : Option OpStack :=
  match s.popAny with
  | some (some u, s) => if u = t then some s else none
  | some (none, s) => some s
  | none => none

def popReversed (s : OpStack) : List ValType → Option OpStack
  | [] => some s
  | t :: rest => (s.pop t).bind (·.popReversed rest)

def popAll (s : OpStack) (ts : List ValType) : Option OpStack := s.popReversed ts.reverse

def afterJump : OpStack := ⟨[], true⟩

def leaves (s : OpStack) (ts : List ValType) : Bool :=
  match s.popAll ts with
  | some s => s.known.isEmpty
  | none => false

end OpStack

namespace Instr

mutual

/-- The stack behind an instruction, or nothing if the instruction is ill-typed. -/
def check : Instr → Context → OpStack → Option OpStack
  | .unreachable, _, _ => some .afterJump
  | .drop, _, s => s.popAny.map (·.2)
  | .select, _, s => do
    let s ← s.pop .i32
    let (t, s) ← s.popAny
    let (u, s) ← s.popAny
    require (!t.any (·.isRef) && !u.any (·.isRef))
    match t, u with
    | some t, some u => if t = u then some (s.push t) else none
    | some t, none | none, some t => some (s.push t)
    | none, none => some { s with known := none :: s.known }
  | .refIsNull, _, s => do
    let (t, s) ← s.popAny
    require (t.all (·.isRef))
    return s.push .i32
  | .block t body, c, s => do
    let f ← c.blockType? t
    let s ← s.popAll f.params
    let inner ← checkSeq body (c.withLabel f.results) ⟨(f.params.map some).reverse, false⟩
    require (inner.leaves f.results)
    return s.pushAll f.results
  | .loop t body, c, s => do
    let f ← c.blockType? t
    let s ← s.popAll f.params
    let inner ← checkSeq body (c.withLabel f.params) ⟨(f.params.map some).reverse, false⟩
    require (inner.leaves f.results)
    return s.pushAll f.results
  | .ifThen t body, c, s => do
    let f ← c.blockType? t
    let s ← s.pop .i32
    let s ← s.popAll f.params
    let inner ← checkSeq body (c.withLabel f.results) ⟨(f.params.map some).reverse, false⟩
    require (inner.leaves f.results && f.params == f.results)
    return s.pushAll f.results
  | .ifElse t thenBody elseBody, c, s => do
    let f ← c.blockType? t
    let s ← s.pop .i32
    let s ← s.popAll f.params
    let first ← checkSeq thenBody (c.withLabel f.results) ⟨(f.params.map some).reverse, false⟩
    require (first.leaves f.results)
    let second ← checkSeq elseBody (c.withLabel f.results) ⟨(f.params.map some).reverse, false⟩
    require (second.leaves f.results)
    return s.pushAll f.results
  | .br l, c, s => do
    let _ ← s.popAll (← c.labels[l]?)
    return .afterJump
  | .brIf l, c, s => do
    let ts ← c.labels[l]?
    let s ← s.pop .i32
    let s ← s.popAll ts
    return s.pushAll ts
  | .brTable ls l, c, s => do
    let ts ← c.labels[l]?
    let s ← s.pop .i32
    ls.forM fun l => do
      let us ← c.labels[l]?
      require (us.length == ts.length)
      let _ ← s.popAll us
    let _ ← s.popAll ts
    return .afterJump
  | .ret, c, s => do
    let _ ← s.popAll c.results
    return .afterJump
  | .tailCall f, c, s => do
    let f ← c.funcs[f]?
    require (f.results == c.results)
    let _ ← s.popAll f.params
    return .afterJump
  | .tailCallIndirect t table, c, s => do
    let (f, slot) ← c.indirectType? t table
    require (f.results == c.results)
    let s ← s.pop slot
    let _ ← s.popAll f.params
    return .afterJump
  | i, c, s => do
    let t ← i.type? c
    let s ← s.popAll t.params
    return s.pushAll t.results

def checkSeq : List Instr → Context → OpStack → Option OpStack
  | [], _, s => some s
  | i :: rest, c, s => (i.check c s).bind (checkSeq rest c)

end

def isTyped (body : List Instr) (c : Context) (results : List ValType) : Bool :=
  match checkSeq body c ⟨[], false⟩ with
  | some s => s.leaves results
  | none => false

/-- Whether an instruction may stand in a constant expression: constants, references, sums,
differences and products of integers, and imported globals that never change. -/
def mayBeConstant (c : Context) : Instr → Bool
  | .const _ | .vecConst _ | .refNull _ | .refFunc _ => true
  | .binary (.intArith _ op) => op = .add || op = .sub || op = .mul
  | .globalGet i => i < c.importedGlobals && (c.globals[i]?.any (!·.isMutable))
  | _ => false

def isConstant (c : Context) (t : ValType) (body : List Instr) : Bool :=
  body.all (mayBeConstant c) && isTyped body c [t]

def referredFuncs (body : List Instr) : List Nat :=
  body.filterMap fun i => match i with | .refFunc f => some f | _ => none

end Instr

structure Capacity where
  pages : Nat := 65536
  /-- The pages of memories that are addressed with 64 bits. -/
  widePages : Nat := 2 ^ 48
  parameters : Nat := 1000
  results : Nat := 1000
  locals : Nat := 50000
  globals : Nat := 1000000
  stores : Nat := 100

def capacity : Capacity := {}

def Limits.fits (l : Limits) (bound : Nat) : Bool :=
  l.minimum ≤ bound &&
    match l.maximum with
    | some m => l.minimum ≤ m && m ≤ bound
    | none => true

def TableType.isValid (t : TableType) : Bool := t.limits.fits (2 ^ t.address.bits - 1)

def MemoryType.isValid (t : MemoryType) : Bool :=
  t.limits.fits (if t.address = .w32 then capacity.pages else capacity.widePages) &&
    (!t.isShared || t.limits.maximum.isSome)

namespace Module

def funcTypes? (m : Module) : Option (List FuncType) :=
  (m.importedFuncs ++ m.funcs.map (·.typeIndex)).mapM fun t => m.types[t]?

def allTables (m : Module) : List TableType := m.importedTables ++ m.tables
def allMemories (m : Module) : List MemoryType := m.importedMemories ++ m.memories
def allGlobals (m : Module) : List GlobalType := m.importedGlobals ++ m.globals.map (·.type)

def referableFuncs (m : Module) : List Nat :=
  m.elements.flatMap (fun e => e.slots.filterMap Slot.func?) ++
  (m.exports.filter (·.kind == .func)).map (·.index) ++
  m.globals.flatMap fun g => Instr.referredFuncs g.init

def context? (m : Module) : Option Context := do
  return {
    types := m.types.toArray
    funcs := (← m.funcTypes?).toArray
    globals := m.allGlobals.toArray
    importedGlobals := m.importedGlobals.length
    tables := m.allTables.toArray
    memories := m.allMemories.toArray
    elements := (m.elements.map (·.type)).toArray
    segments := m.data.length
    referable := m.referableFuncs }

def checkFunc (c : Context) (f : Func) : Bool :=
  match c.types[f.typeIndex]? with
  | some t =>
    t.params.length + f.locals.length ≤ capacity.locals &&
      Instr.isTyped f.body (c.forBody t f.locals) t.results
  | none => false

def checkExport (c : Context) (e : Export) : Bool :=
  match e.kind with
  | .func => e.index < c.funcs.size
  | .table => e.index < c.tables.size
  | .memory => e.index < c.memories.size
  | .global => e.index < c.globals.size

def checkPlacement (c : Context) (address? : Nat → Option AddressType) : Placement → Bool
  | .active target offset => (address? target).any fun t => Instr.isConstant c t.valType offset
  | .passive | .declared => true

def checkSlot (c : Context) (type : RefType) : Slot → Bool
  | .func f => type = .func && f < c.funcs.size
  | .null => true
  | .global g => Instr.isConstant c (.ref type) [.globalGet g]

def tableAddress? (c : Context) (type : RefType) (table : Nat) : Option AddressType := do
  let t ← c.tables[table]?
  require (t.element = type)
  return t.address

def checkElement (c : Context) (e : Element) : Bool :=
  checkPlacement c (tableAddress? c e.type) e.placement && e.slots.all (checkSlot c e.type)

def checkStart (c : Context) : Option Nat → Bool
  | none => true
  | some f => c.funcs[f]? == some ⟨[], []⟩

def isValid (m : Module) : Bool :=
  match m.context? with
  | none => false
  | some c =>
    m.types.all (fun t =>
      t.params.length ≤ capacity.parameters && t.results.length ≤ capacity.results) &&
    m.imports.all (fun i =>
      i.key.space.utf8ByteSize ≤ maxNameBytes && i.key.name.utf8ByteSize ≤ maxNameBytes) &&
    c.tables.size ≤ capacity.stores && m.allTables.all TableType.isValid &&
    c.memories.size ≤ capacity.stores && m.allMemories.all MemoryType.isValid &&
    c.globals.size ≤ capacity.globals &&
    m.globals.all (fun g => Instr.isConstant c g.type.type g.init) &&
    m.exports.all (fun e => e.name.utf8ByteSize ≤ maxNameBytes && checkExport c e) &&
    (m.exports.map (·.name)).Nodup &&
    checkStart c m.start &&
    m.elements.all (checkElement c) &&
    m.data.all (fun d => checkPlacement c c.memoryAddress? d.placement) &&
    m.funcs.all (checkFunc c)

end Module

end WasmBuilder.Wasm
