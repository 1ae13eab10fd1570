import WasmBuilder.Wasm.Check
import WasmBuilder.Wasm.Decode
import WasmBuilder.Wasm.Frame
import WasmBuilder.Wasm.Program

/-!
Instances: modules joined with the items of a host, with their state.

Every memory that the host offers is made for each instance, whether the module imports it or not.
Element and data segments are put in place and the start function runs before an instance exists.
-/

set_option autoImplicit false

namespace WasmBuilder.Wasm

/-- Why a binary cannot be loaded, or an instance cannot do what it is asked. -/
inductive RunError where
  | unreadable
  | notInstantiable
  | noFunction (name : String)
  | unexpectedSignature (name : String)
  | trapped (name : String) (cause : Trap)
  | unfinished (name : String)
  | readOutside (count offset : Nat)
  | writeOutside (count offset : Nat)
  deriving DecidableEq

namespace RunError

def message : RunError → String
  | unreadable => "failed to compile WebAssembly binary"
  | notInstantiable => "failed to instantiate module"
  | noFunction name => s!"no exported function named `{name}`"
  | unexpectedSignature name => s!"export `{name}` has an unexpected signature"
  | trapped name _ => s!"call to `{name}` trapped"
  | unfinished name => s!"call to `{name}` did not end"
  | readOutside count offset => s!"memory read of {count} bytes at {offset}"
  | writeOutside count offset => s!"memory write of {count} bytes at {offset}"

end RunError

/-- How a step of a host ends that gives no answer: with an error that it returns, or with the end of
the program, as no error stands for sizes that memories cannot have. -/
inductive Halt where
  | failed (cause : RunError)
  | panicked
  deriving DecidableEq

/-- How far execution goes. -/
structure Bounds where
  /-- How often a loop is repeated each time it is entered. -/
  rounds : Nat := 2 ^ 60
  room : Nat := 32700

/-- A running module. -/
structure Instance where
  exports : List Export
  program : Program
  store : Store
  /-- The memories that the host offered, by their numbers in the store. -/
  memories : List (ImportKey × Nat)

def creatable (l : MemoryLimits) : Bool := Limits.fits ⟨l.initial, l.maximum⟩ capacity.pages

def offeredMemories (i : Imports) : List (ImportKey × MemoryLimits) :=
  i.entries.filterMap fun e => match e.2 with | .memory l => some (e.1, l) | .func _ => none

/-- Makes each offered memory. Its sizes are stated before it is made, and the program ends where
there are no such memories. -/
def createMemories : List (ImportKey × MemoryLimits) → Except Halt (List Memory)
  | [] => return []
  | (_, l) :: rest => do
    if !creatable l then throw .panicked
    return .ofLimits l :: (← createMemories rest)

def Memory.satisfies (m : Memory) (t : MemoryType) : Bool :=
  m.type.address = t.address && m.type.isShared = t.isShared && t.limits.minimum ≤ m.pages &&
    match t.limits.maximum, m.type.limits.maximum with
    | none, _ => true
    | some bound, some own => own ≤ bound
    | some _, none => false

def resolveFunc (host : Imports) (types : List FuncType) (key : ImportKey) (typeIndex : Nat) :
    Option FuncInstance :=
  match host.get? key, types[typeIndex]? with
  | some (.func f), some s => if f.signature.funcType = s then some (.host key f) else none
  | _, _ => none

/-- Finds the host's item for each import: functions, and the numbers of memories. The host has
neither tables nor globals. -/
def resolveImports (host : Imports) (types : List FuncType) (offered : List (ImportKey × Nat))
    (memories : Array Memory) : List Import → Option (List FuncInstance × List Nat)
  | [] => some ([], [])
  | i :: rest =>
    match i.type with
    | .func t => do
      let f ← resolveFunc host types i.key t
      let (fs, ms) ← resolveImports host types offered memories rest
      return (f :: fs, ms)
    | .memory t => do
      let n ← offered.lookup i.key
      let m ← memories[n]?
      if !m.satisfies t then failure
      let (fs, ms) ← resolveImports host types offered memories rest
      return (fs, n :: ms)
    | .table _ | .global _ => none

/-- Evaluates the instructions of a constant expression. No global has a value here, since the host
has none. -/
def evalConstant : List Datum → List Instr → Option Datum
  | [d], [] => some d
  | stack, .const v :: rest => evalConstant (.num v :: stack) rest
  | stack, .vecConst v :: rest => evalConstant (.vec v :: stack) rest
  | stack, .refNull t :: rest => evalConstant (.null t :: stack) rest
  | stack, .refFunc f :: rest => evalConstant (.func (some f) :: stack) rest
  | .num b :: .num a :: stack, .binary op :: rest =>
    match op.eval a b with
    | .ok v => evalConstant (.num v :: stack) rest
    | .error _ => none
  | _, _ => none

def constantValue? (body : List Instr) : Option Datum := evalConstant [] body

def constantOffset? (body : List Instr) : Option Nat := (constantValue? body).bind Datum.unsigned?

def Slot.datum? (type : RefType) : Slot → Option Datum
  | .func f => some (.func (some f))
  | .null => some (.null type)
  | .global _ => none

def Element.refs? (e : Element) : Option (List Datum) := e.slots.mapM (Slot.datum? e.type)

def placeElements (s : Store) : List Element → Option Store
  | [] => some s
  | e :: rest =>
    match e.placement with
    | .active target offset => do
      let slot ← constantOffset? offset
      let refs ← e.refs?
      if !s.holdsSlots target slot refs.length then failure
      placeElements (s.modifyTable target (·.poke slot refs)) rest
    | .passive | .declared => placeElements s rest

def placeData (memories : Array Nat) (s : Store) : List Data → Option Store
  | [] => some s
  | d :: rest =>
    match d.placement with
    | .active target offset => do
      let n ← memories[target]?
      let addr ← constantOffset? offset
      if !s.holds n addr d.bytes.length then failure
      placeData memories (s.poke n addr d.bytes) rest
    | .passive | .declared => placeData memories s rest

def Element.available? (e : Element) : Option (List Datum) :=
  match e.placement with
  | .passive => e.refs?
  | .active .. | .declared => some []

def Data.available (d : Data) : List UInt8 :=
  match d.placement with
  | .passive => d.bytes
  | .active .. | .declared => []

def MemoryType.isCreatable (t : MemoryType) : Bool := t.limits.minimum ≤ t.address.pageLimit

def TableType.isCreatable (t : TableType) : Bool := t.limits.minimum < 2 ^ 32

def frameSizes (m : Module) (c : Context) (hostFuncs : Nat) : List Nat :=
  List.replicate hostFuncs 1 ++ m.funcs.map fun f =>
    match c.types[f.typeIndex]? with
    | some t => Frame.size c t f.locals f.body
    | none => 1

/-- A module joined with its imports, before anything of it ran. -/
def link (m : Module) (host : Imports) (offered : List (ImportKey × Nat)) (made : List Memory)
    (journal : List HostCall) : Option Instance := do
  let context ← m.context?
  let (hostFuncs, hostMemories) ←
    resolveImports host m.types offered made.toArray m.imports
  if !(m.memories.all MemoryType.isCreatable && m.tables.all TableType.isCreatable) then failure
  let own := m.memories.map Memory.ofType
  let memories := (hostMemories ++ own.zipIdx.map fun p => made.length + p.2).toArray
  let codeFuncs ← m.funcs.mapM fun f => do
    return FuncInstance.code (← m.types[f.typeIndex]?) f.locals f.body
  let store : Store :=
    { globals := (← m.globals.mapM fun g => constantValue? g.init).toArray
      memories := (made ++ own).toArray
      tables := (m.tables.map Table.ofType).toArray
      segments := (m.data.map Data.available).toArray
      elements := (← m.elements.mapM Element.available?).toArray
      journal }
  let store ← placeElements store m.elements
  let store ← placeData memories store m.data
  return {
    exports := m.exports
    program := {
      types := m.types.toArray
      funcs := (hostFuncs ++ codeFuncs).toArray
      frames := (frameSizes m context hostFuncs.length).toArray
      memories }
    store
    memories := offered }

namespace Instance

def invoke (i : Instance) (bounds : Bounds) (func : Nat) (args : List Value) : CallOutcome :=
  i.program.invoke bounds.rounds bounds.room bounds.room func i.store (args.map .num)

end Instance

abbrev HostM := EStateM Halt (List HostCall)

/-- Makes an instance of a module: links it and runs its start function. -/
def instantiate (m : Module) (host : Imports) (bounds : Bounds) : HostM Instance := do
  let offers := offeredMemories host
  let offered := offers.zipIdx.map fun p => (p.1.1, p.2)
  match createMemories offers with
  | .error e => throw e
  | .ok made =>
    match link m host offered made (← get) with
    | none => throw (.failed .notInstantiable)
    | some i =>
      match m.start with
      | none => return i
      | some f =>
        match i.invoke bounds f [] with
        | .done _ store =>
          set store.journal
          return { i with store }
        | .trap _ store =>
          set store.journal
          throw (.failed .notInstantiable)
        | .exhausted => throw (.failed .notInstantiable)

def load (bytes : List UInt8) (host : Imports) (bounds : Bounds) : HostM Instance := do
  match Module.decode bytes with
  | none => throw (.failed .unreadable)
  | some m =>
    if !m.isValid then throw (.failed .unreadable)
    instantiate m host bounds

abbrev InstanceM := EStateM RunError Instance

namespace Instance

def exportNames (i : Instance) : List String := i.exports.map (·.name)

def exportedFunc? (i : Instance) (name : String) : Option Nat :=
  (i.exports.find? fun e => e.name = name && e.kind == .func).map (·.index)

def funcType? (i : Instance) (func : Nat) : Option FuncType := i.program.signatures[func]?

/-- Runs a function, and keeps what it did to the store. Its results are numbers. -/
def run (bounds : Bounds) (name : String) (func : Nat) (args : List Value) :
    InstanceM (List Value) := do
  match (← get).invoke bounds func args with
  | .done results store =>
    modify fun i => { i with store }
    return results.filterMap Datum.value?
  | .trap cause store =>
    modify fun i => { i with store }
    throw (.trapped name cause)
  | .exhausted => throw (.unfinished name)

/-- Calls an exported function; arguments that do not fit its parameters count as a trap. -/
def call (bounds : Bounds) (name : String) (args : List Value) : InstanceM (List Value) := do
  let i ← get
  match i.exportedFunc? name with
  | none => throw (.noFunction name)
  | some f =>
    if (i.funcType? f).any (·.params = args.map fun v => .num v.type) then run bounds name f args
    else throw (.trapped name .illTyped)

def callAs (bounds : Bounds) (signature : Signature) (name : String) (args : List Value) :
    InstanceM (List Value) := do
  let i ← get
  match i.exportedFunc? name with
  | none => throw (.unexpectedSignature name)
  | some f =>
    if i.funcType? f = some signature.funcType then run bounds name f args
    else throw (.unexpectedSignature name)

def memory? (i : Instance) (key : ImportKey) : Option (Nat × Memory) := do
  let n ← i.memories.lookup key
  return (n, ← i.store.memories[n]?)

def readMemory (i : Instance) (memory : Nat) (offset count : Nat) :
    Except RunError (List UInt8) :=
  match i.store.memories[memory]?.bind (·.read offset count) with
  | some bytes => .ok bytes
  | none => .error (.readOutside count offset)

def writeMemory (memory : Nat) (offset : Nat) (bytes : List UInt8) : InstanceM Unit := do
  match (← get).store.memories[memory]?.bind (·.write offset bytes) with
  | some m => modify fun i => { i with store := i.store.setMemory memory m }
  | none => throw (.writeOutside bytes.length offset)

end Instance

end WasmBuilder.Wasm
