import WasmBuilder.Operand
import WasmBuilder.Scope
import WasmBuilder.Op.Kind

/-!
The body of a function while it is built.

A body sees the expressions of the whole build, the functions declared so far, its own variables
and the global ones. Its steps run in `BodyM`: a step that fails says why, and what it did before
failing stays done.
-/

set_option autoImplicit false

namespace WasmBuilder

inductive CallKind where
  | direct
  | indirect (slot : Nat)
  | external
  deriving DecidableEq

/-- A declared function as callers see it. -/
structure Callable where
  id : String
  func : Nat
  kind : CallKind
  params : Bindings
  result : Shape
  deriving DecidableEq

def Callable.signature (c : Callable) : Signature := ⟨c.params.flatten, c.result.flatten⟩

/-- A function body under construction. -/
structure Body where
  arena : Arena
  globals : Scope
  callables : Array Callable
  locals : Scope
  /-- Where names live that are first bound by a write: local in functions, global in the
  initializer of globals. -/
  fresh : Storage
  statements : List ExprId := []
  /-- The result so far; `auto` until the first result fixes it. -/
  result : Shape

abbrev BodyM := EStateM BuildError Body

namespace Body

def ask {α : Type} (question : Body → Except BuildError α) : BodyM α := do
  match question (← get) with
  | .ok answer => return answer
  | .error e => throw e

def emit (node : Node) (shape : Shape) : BodyM ExprId :=
  modifyGet fun b => (b.arena.size, { b with arena := b.arena.push node (some shape) })

def emitOperand (node : Node) (shape : Shape) : BodyM Operand := do
  return .ofShape (← emit node shape) shape

def settle (id : ExprId) : BodyM Shape := ask fun b => b.arena.settle id

def primitiveOf (id : ExprId) : BodyM NumType :=
  ask fun b => do (← b.arena.infer id).primitive

def scope (b : Body) : Storage → Scope
  | .global => b.globals
  | .param | .local => b.locals

def setScope (b : Body) (storage : Storage) (s : Scope) : Body :=
  match storage with
  | .global => { b with globals := s }
  | .param | .local => { b with locals := s }

/-- The slot that a name means: the last local of that name, else the last global. -/
def resolve (b : Body) (name : String) : Option (Storage × Nat × Slot) :=
  match b.locals.lookup name with
  | some (index, slot) => some (.local, index, slot)
  | none =>
    match b.globals.lookup name with
    | some (index, slot) => some (.global, index, slot)
    | none => none

def readNode (storage : Storage) (index : Nat) (shape : Shape) : Node :=
  match storage with
  | .global => .globalGet index shape
  | .param | .local => .localGet index shape

def writeNode (storage : Storage) (index : Nat) (shape : Shape) (value : ExprId) : Node :=
  match storage with
  | .global => .globalSet index shape value
  | .param | .local => .localSet index shape value

/-- Reads a variable. One without a shape was never written, so there is nothing to read. -/
def read (name : String) : BodyM Operand := do
  match (← get).resolve name with
  | some (storage, index, slot) =>
    if slot.shape = .auto then throw (.unknownVariable name)
    else emitOperand (readNode storage index slot.shape) slot.shape
  | none => throw (.unknownVariable name)

def incoming (b : Body) (value : ExprId) : Shape :=
  match b.arena.infer value with
  | .ok shape => shape
  | .error _ => b.arena.labelOrNone value

/-- The slot a write goes to and its shape after the write. A slot without a shape takes the
value's, and an unbound name gets a new slot. -/
def bindTarget (name : String) (value : ExprId) : BodyM (Storage × Nat × Shape) := do
  match (← get).resolve name with
  | some (storage, index, slot) =>
    if slot.shape = .auto then
      let shape ← settle value
      modify fun b => b.setScope storage ((b.scope storage).fix index shape)
      return (storage, index, shape)
    else
      let _ ← ask fun b => b.arena.get value
      let actual := (← get).incoming value
      if actual.isOpen || actual.lowersLike slot.shape then return (storage, index, slot.shape)
      else throw (.assignmentMismatch name slot.shape actual)
  | none =>
    let shape ← settle value
    let storage := (← get).fresh
    let index := ((← get).scope storage).size
    modify fun b => b.setScope storage ((b.scope storage).declare name shape storage)
    return (storage, index, shape)

def write (name : String) (value : ExprId) : BodyM ExprId := do
  let (storage, index, shape) ← bindTarget name value
  emit (writeNode storage index shape value) .none

def assign (pairs : List (String × ExprId)) : BodyM ExprId := do
  let writes ← pairs.mapM fun p => write p.1 p.2
  emit (.block writes .auto) .auto

def field (operand : Operand) (key : FieldKey) : BodyM Operand := do
  let (result, arena) ← ask fun b => b.arena.field operand key
  modify fun b => { b with arena }
  return result

def append (items : List ExprId) : BodyM Unit :=
  modify fun b => { b with statements := b.statements ++ items }

/-- Runs all but the last value as statements and returns the last one. The first result of a
function whose result is open fixes it; later ones must occupy the same slots. -/
def giveResult (values : List ExprId) : BodyM Unit := do
  match values.getLast? with
  | none => throw .emptyResult
  | some last =>
    let actual ← settle last
    let expected := (← get).result
    if expected = .auto then
      let arena ← ask fun b => b.arena.relabel last actual
      modify fun b => { b with arena, result := actual }
    else if !actual.lowersLike expected then
      throw (.resultMismatch expected actual)
    append values.dropLast
    append [← emit (.ret (some last)) .none]

def exec (values : List ExprId) : BodyM Unit :=
  if values.isEmpty then throw .emptyBlock else append values

def block (values : List ExprId) : BodyM Operand := do
  match values.getLast? with
  | none => throw .emptyBlock
  | some last =>
    let shape ← settle last
    emitOperand (.block values shape) shape

def literal (value : Number) (type : NumType) : BodyM ExprId :=
  emit (.const (.ofNumber value type)) (.num type)

def i32 (value : Int) : BodyM ExprId := literal (.int (BitVec.ofInt 64 value)) .i32
def i64 (value : Int) : BodyM ExprId := literal (.int (BitVec.ofInt 64 value)) .i64

/-- Calls a declared function: through the table when it has a slot there, else directly. -/
def call (callable : Nat) (args : List ExprId) : BodyM Operand := do
  match (← get).callables[callable]? with
  | none => throw (.unknownCallable callable)
  | some c =>
    if args.length ≠ c.params.length then
      throw (.argumentCount c.id c.params.length args.length)
    match c.kind with
    | .indirect slot =>
      let index ← i32 slot
      emitOperand (.callIndirect index args c.signature) c.result
    | .direct | .external => emitOperand (.call c.func args c.signature) c.result

def tuple (values : List ExprId) : BodyM Operand := do
  let fields ← values.mapM settle
  emitOperand (.group values) (.tuple fields)

def record (fields : List (String × ExprId)) : BodyM Operand := do
  let shapes ← fields.mapM fun f => settle f.2
  emitOperand (.group (fields.map (·.2))) (.record ((fields.map (·.1)).zip shapes))

/-- An operation on two numbers of one type, chosen by that type. -/
def binary (kind : BinaryKind) (left right : ExprId) : BodyM ExprId := do
  let leftType ← primitiveOf left
  let rightType ← primitiveOf right
  if leftType ≠ rightType then throw (.operandMismatch kind.label leftType rightType)
  match kind.select leftType with
  | some op => emit (.binary op left right) (.num op.resultType)
  | none => throw (.unsupportedOperation kind.label leftType)

def unary (kind : UnaryKind) (operand : ExprId) : BodyM ExprId := do
  let type ← primitiveOf operand
  match kind.select type with
  | some op => emit (.unary op operand) (.num op.resultType)
  | none => throw (.unsupportedOperation kind.label type)

/-- The shape of a choice: as declared, or when open that of the last item of the first arm. -/
def chooseShape (declared : Shape) (thenItems : List ExprId) : BodyM Shape :=
  if declared = .auto then
    match thenItems.getLast? with
    | some last => settle last
    | none => return .none
  else return declared

def choose (declared : Shape) (cond : ExprId) (thenItems elseItems : List ExprId) :
    BodyM Operand := do
  let shape ← chooseShape declared thenItems
  emitOperand (.choose cond thenItems elseItems shape) shape

def loop (init : List ExprId) (cond : ExprId) (step body : List ExprId) : BodyM ExprId :=
  emit (.loop init cond step body) .none

def raw (node : Node) (shape : Shape) : BodyM Operand := emitOperand node shape

def load (type : NumType) (addr : ExprId) (offset : Nat) : BodyM ExprId :=
  emit (.load type addr offset) (.num type)

def store (type : NumType) (addr value : ExprId) (offset : Nat) : BodyM ExprId := do
  let actual ← primitiveOf value
  if actual ≠ type then throw (.operandMismatch "store" type actual)
  emit (.store type addr value offset) .none

def memorySize : BodyM ExprId := emit .memorySize .i32

def memoryGrow (delta : ExprId) : BodyM ExprId := emit (.memoryGrow delta) .i32

def finalResult (b : Body) : Shape :=
  match b.result with
  | .auto => .none
  | shape => shape

end Body

end WasmBuilder
