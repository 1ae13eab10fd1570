import WasmBuilder.Expr.Arena
import WasmBuilder.Trap
import WasmBuilder.Wasm.Machine

/-!
The direct meaning of expressions.

A value is the list of its numbers, in order, and a variable holds such a list. An expression is
evaluated in a state and leaves a value and another state, unless it returns from the function, traps,
or repeats a loop too often. There is neither a stack of operands here nor are there branches.
-/

set_option autoImplicit false

namespace WasmBuilder.Meaning

/-- What the functions of a module share while they run. -/
structure World where
  globals : List (List Value)
  /-- Memories, tables and calls of the host. The numbers of globals in it play no part. -/
  rest : Wasm.Store

structure State where
  slots : List (List Value)
  world : World

inductive Ending (α : Type) where
  | value (a : α) (s : State)
  | ret (results : List Value) (w : World)
  | trap (cause : Trap) (w : World)
  | exhausted

inductive Called where
  | done (results : List Value) (w : World)
  | trap (cause : Trap) (w : World)
  | exhausted

def Ending.andThen {α β : Type} (f : α → State → Ending β) : Ending α → Ending β
  | value a s => f a s
  | ret results w => .ret results w
  | trap cause w => .trap cause w
  | exhausted => .exhausted

theorem Ending.andThen_value {α : Type} (x : Ending α) : x.andThen .value = x := by
  cases x <;> rfl

def EvalM (α : Type) : Type := State → Ending α

instance : Monad EvalM where
  pure a := fun s => .value a s
  bind m f := fun s => (m s).andThen f

theorem bind_apply {α β : Type} (m : EvalM α) (f : α → EvalM β) (s : State) :
    (m >>= f) s = (m s).andThen f := rfl

/-- What expressions refer to besides the state. -/
structure Surroundings where
  arena : Arena
  signatures : List Signature
  table : List Nat
  memory : Option Nat
  rounds : Nat
  call : Nat → World → List Value → Called

section
variable {α : Type}

def trap (cause : Trap) : EvalM α := fun s => .trap cause s.world

def stuck : EvalM α := trap .illTyped

def exhausted : EvalM α := fun _ => .exhausted

def ofExcept : Except Trap α → EvalM α
  | .ok a => pure a
  | .error cause => trap cause

end

def readSlot (slot : Nat) : EvalM (List Value) := fun s =>
  match s.slots[slot]? with
  | some value => .value value s
  | none => .trap .illTyped s.world

def writeSlot (slot : Nat) (value : List Value) : EvalM Unit := fun s =>
  .value () { s with slots := s.slots.set slot value }

def readGlobal (global : Nat) : EvalM (List Value) := fun s =>
  match s.world.globals[global]? with
  | some value => .value value s
  | none => .trap .illTyped s.world

def writeGlobal (global : Nat) (value : List Value) : EvalM Unit := fun s =>
  .value () { s with world := { s.world with globals := s.world.globals.set global value } }

def single : List Value → EvalM Value
  | [v] => pure v
  | _ => stuck

def leave (results : List Value) : EvalM (List Value) := fun s => .ret results s.world

def condition : List Value → EvalM Bool
  | [.i32 c] => pure (c ≠ 0)
  | _ => stuck

namespace Surroundings

variable (Γ : Surroundings)

def callFunction (func : Nat) (args : List Value) : EvalM (List Value) := fun s =>
  match Γ.call func s.world args with
  | .done results world => .value results { s with world }
  | .trap cause world => .trap cause world
  | .exhausted => .exhausted

def callSlot (signature : Signature) (index : Value) (args : List Value) : EvalM (List Value) :=
  match index.unsigned? with
  | none => stuck
  | some slot =>
    match Γ.table[slot]? with
    | none => trap .undefinedElement
    | some func =>
      if Γ.signatures[func]? = some signature then Γ.callFunction func args
      else trap .indirectTypeMismatch

def memory? (w : World) : Option (Nat × Wasm.Memory) := do
  let n ← Γ.memory
  return (n, ← w.rest.memories[n]?)

def load (type : NumType) (offset : Nat) (addr : Value) : EvalM (List Value) := fun s =>
  match addr.unsigned?, Γ.memory? s.world with
  | some addr, some (_, memory) =>
    match memory.read (addr + offset) type.byteWidth with
    | some bytes => .value [.ofBytes type bytes] s
    | none => .trap .outOfBounds s.world
  | _, _ => .trap .illTyped s.world

def store (type : NumType) (offset : Nat) (addr v : Value) : EvalM (List Value) := fun s =>
  if v.type = type then
    match addr.unsigned?, Γ.memory with
    | some addr, some n =>
      if s.world.rest.holds n (addr + offset) v.bytes.length then
        .value [] { s with
          world := { s.world with rest := s.world.rest.poke n (addr + offset) v.bytes } }
      else .trap .outOfBounds s.world
    | _, _ => .trap .illTyped s.world
  else .trap .illTyped s.world

def memorySize : EvalM (List Value) := fun s =>
  match Γ.memory? s.world with
  | some (_, memory) => .value [memory.type.address.value memory.pages] s
  | none => .trap .illTyped s.world

/-- Leaves the size before growing, or minus one when the memory cannot grow by so much. -/
def memoryGrow (delta : Value) : EvalM (List Value) := fun s =>
  match delta.unsigned?, Γ.memory? s.world with
  | some delta, some (n, memory) =>
    match memory.grow delta with
    | some grown =>
      .value [memory.type.address.value memory.pages]
        { s with world := { s.world with rest := s.world.rest.setMemory n grown } }
    | none => .value [memory.type.address.value (-1)] s
  | _, _ => .trap .illTyped s.world

section
variable (eval : ExprId → EvalM (List Value))

def operands : List ExprId → EvalM (List Value)
  | [] => return []
  | id :: rest => do return (← eval id) ++ (← operands rest)

def statements : List ExprId → EvalM (List Value)
  | [] => return []
  | id :: rest => do
    let _ ← eval id
    statements rest

/-- Items in order, of which the last one has the value that is wanted. -/
def sequence (value : Bool) : List ExprId → EvalM (List Value)
  | [] => return []
  | [last] => do
    let result ← eval last
    return if value then result else []
  | id :: rest => do
    let _ ← eval id
    sequence value rest

def repeatWhile (test : EvalM Bool) (body : EvalM (List Value)) : (rounds : Nat) → EvalM (List Value)
  | 0 => exhausted
  | rounds + 1 => do
    if ← test then
      let _ ← body
      repeatWhile test body rounds
    else return []

def hasValue (id : ExprId) : Bool :=
  match Γ.arena.slots id with
  | .ok slots => !slots.isEmpty
  | .error _ => false

/-- The meaning of a node, given the meaning of its operands. -/
def node (id : ExprId) : Node → EvalM (List Value)
  | .const v => return [v]
  | .localGet slot _ => readSlot slot
  -- the whole value is there before any of it is stored
  | .localSet slot _ value => do
    writeSlot slot (← eval value)
    return []
  | .globalGet global _ => readGlobal global
  | .globalSet global _ value => do
    writeGlobal global (← eval value)
    return []
  | .binary op left right => do
    let a ← eval left
    let b ← eval right
    return [← ofExcept (op.eval (← single a) (← single b))]
  | .unary op operand => do return [← ofExcept (op.eval (← single (← eval operand)))]
  | .call func args _ => do Γ.callFunction func (← operands eval args)
  | .callIndirect index args signature => do
    let values ← operands eval args
    Γ.callSlot signature (← single (← eval index)) values
  | .block items _ => sequence eval (Γ.hasValue id) items
  | .group items => operands eval items
  | .extract composite _ offset width => do return ((← eval composite).drop offset).take width
  | .choose cond thenItems elseItems _ => do
    if ← condition (← eval cond) then sequence eval (Γ.hasValue id) thenItems
    else sequence eval (Γ.hasValue id) elseItems
  -- `rounds` bounds how often the body runs, as it does in the machine
  | .loop init cond step body => do
    let _ ← statements eval init
    repeatWhile (do condition (← eval cond)) (do
      let _ ← statements eval body
      statements eval step) Γ.rounds
  | .ret none => leave []
  | .ret (some value) => do leave (← eval value)
  | .load type addr offset => do Γ.load type offset (← single (← eval addr))
  | .store type addr value offset => do
    let place ← eval addr
    let stored ← eval value
    Γ.store type offset (← single place) (← single stored)
  | .memorySize => Γ.memorySize
  | .memoryGrow delta => do Γ.memoryGrow (← single (← eval delta))
  | .nop => return []

end

def evalWithin : (depth : Nat) → ExprId → EvalM (List Value)
  | 0, _ => stuck
  | depth + 1, id =>
    match Γ.arena.node id with
    | .ok node => Γ.node (evalWithin depth) id node
    | .error _ => stuck

def eval (id : ExprId) : EvalM (List Value) := Γ.evalWithin Γ.arena.pathBound id

def run (body : List ExprId) (slots : List (List Value)) (world : World) : Called :=
  match statements Γ.eval body ⟨slots, world⟩ with
  | .value _ s => .done [] s.world
  | .ret results w => .done results w
  | .trap cause w => .trap cause w
  | .exhausted => .exhausted

end Surroundings

/-- The values of variables, given the numbers of all of them in a row. -/
def split : List Shape → List Value → List (List Value)
  | [], _ => []
  | s :: rest, numbers => numbers.take s.width :: split rest (numbers.drop s.width)

def entrySlots (shapes : List Shape) (args : List Value) : List (List Value) :=
  split shapes (args ++ ((shapes.flatMap Shape.flatten).drop args.length).map .zero)

end WasmBuilder.Meaning
