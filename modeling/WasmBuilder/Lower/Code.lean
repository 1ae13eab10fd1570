import WasmBuilder.Expr.Arena
import WasmBuilder.Scope
import WasmBuilder.Wasm.Module

/-!
From expressions to instructions.

A variable takes one machine local or global for each of its slots, so a composite value is a run
of numbers on the stack. A field of a variable is read directly; a field of any other composite
spills the whole run into scratch locals and reloads the part. A statement drops what it leaves.
-/

set_option autoImplicit false

namespace WasmBuilder.Lower

open Wasm (Instr BlockType)

def basesFrom (next : Nat) : List Shape → List Nat
  | [] => []
  | s :: rest => next :: basesFrom (next + s.width) rest

def bases (shapes : List Shape) : List Nat := basesFrom 0 shapes

/-- Where variables and functions are in the finished module. -/
structure Layout where
  arena : Arena
  localBases : Array Nat
  globalBases : Array Nat
  funcIndices : Array Nat
  /-- The first scratch local: all variables lie before it. -/
  scratchBase : Nat

structure ScratchLocal where
  type : NumType
  busy : Bool
  deriving DecidableEq

/-- What lowering collects: function types in the order of first use, and scratch locals. -/
structure LowerState where
  types : Array Signature := #[]
  scratch : Array ScratchLocal := #[]

abbrev LowerM := StateT LowerState (Except BuildError)

def intern (signature : Signature) : LowerM Nat := fun s =>
  match s.types.findIdx? (· = signature) with
  | some i => .ok (i, s)
  | none => .ok (s.types.size, { s with types := s.types.push signature })

/-- Takes a free scratch local of a type, or a new one. Answers its number among scratch locals. -/
def acquire (t : NumType) : LowerM Nat := fun s =>
  match s.scratch.findIdx? (fun l => l.type = t ∧ l.busy = false) with
  | some i => .ok (i, { s with scratch := s.scratch.modify i fun l => { l with busy := true } })
  | none => .ok (s.scratch.size, { s with scratch := s.scratch.push ⟨t, true⟩ })

def release (i : Nat) : LowerM Unit :=
  modify fun s => { s with scratch := s.scratch.modify i fun l => { l with busy := false } }

/-- Scratch locals for a run of numbers, one for each. They are free again at once: the run is stored
and its part reloaded before other code gets to use them. -/
def spill (ts : List NumType) : LowerM (List Nat) := do
  let taken ← ts.mapM acquire
  taken.forM release
  return taken

def indexBound : Nat := 2 ^ 32

def blockType : List NumType → LowerM BlockType
  | [] => return .empty
  | [t] => return .value (.num t)
  | ts => return .index (← intern ⟨[], ts⟩)

namespace Layout

variable (l : Layout)

def localBase (slot : Nat) : Except BuildError Nat :=
  match l.localBases[slot]? with
  | some base => .ok base
  | none => .error (.unknownVariable s!"local slot {slot}")

def globalBase (global : Nat) : Except BuildError Nat :=
  match l.globalBases[global]? with
  | some base => .ok base
  | none => .error (.unknownVariable s!"global slot {global}")

def funcIndex (func : Nat) : Except BuildError Nat :=
  match l.funcIndices[func]? with
  | some index => .ok index
  | none => .error (.unknownCallable func)

def statement (lower : ExprId → LowerM (List Instr)) (id : ExprId) : LowerM (List Instr) := do
  let code ← lower id
  let slots ← l.arena.slots id
  return code ++ slots.map fun _ => .drop

def statements (lower : ExprId → LowerM (List Instr)) : List ExprId → LowerM (List Instr)
  | [] => return []
  | id :: rest => do return (← l.statement lower id) ++ (← statements lower rest)

/-- Code for items of which the last stays on the stack when a value is wanted. -/
def sequence (lower : ExprId → LowerM (List Instr)) (value : Bool) :
    List ExprId → LowerM (List Instr)
  | [] => return []
  | [last] => if value then lower last else l.statement lower last
  | id :: rest => do return (← l.statement lower id) ++ (← sequence lower value rest)

def operands (lower : ExprId → LowerM (List Instr)) : List ExprId → LowerM (List Instr)
  | [] => return []
  | id :: rest => do return (← lower id) ++ (← operands lower rest)

/-- The machine indices of part of a run that starts at `base`. All of these numbers wrap. -/
def slice (base offset width : Nat) : List Nat :=
  let first := offset % indexBound
  let last := (offset + width) % indexBound
  (List.range (last - first)).map fun i => (base + first + i) % indexBound

/-- Code that leaves slots `offset` to `offset + width` of a composite. -/
def extract (lower : ExprId → LowerM (List Instr)) (composite : ExprId) (offset width : Nat) :
    LowerM (List Instr) := do
  match ← l.arena.node composite with
  | .localGet slot _ => return (slice (← l.localBase slot) offset width).map .localGet
  | .globalGet global _ => return (slice (← l.globalBase global) offset width).map .globalGet
  | _ =>
    let all ← l.arena.slots composite
    if all.length < offset + width then throw (.unknownExpression composite)
    let code ← lower composite
    let locals := (← spill all).map (l.scratchBase + ·)
    return code ++ locals.reverse.map .localSet ++
      ((locals.drop offset).take width).map .localGet

def node (lower : ExprId → LowerM (List Instr)) (id : ExprId) : Node → LowerM (List Instr)
  | .const v => return [.const v]
  | .localGet slot shape => do
    let base ← l.localBase slot
    return (List.range shape.width).map fun i => .localGet (base + i)
  | .localSet slot shape value => do
    let base ← l.localBase slot
    let code ← lower value
    return code ++ (List.range shape.width).reverse.map fun i => .localSet (base + i)
  | .globalGet global shape => do
    let base ← l.globalBase global
    return (List.range shape.width).map fun i => .globalGet (base + i)
  | .globalSet global shape value => do
    let base ← l.globalBase global
    let code ← lower value
    return code ++ (List.range shape.width).reverse.map fun i => .globalSet (base + i)
  | .binary op left right => return (← lower left) ++ (← lower right) ++ [Instr.binary op]
  | .unary op operand => return (← lower operand) ++ [Instr.unary op]
  | .call func args _ => do
    let code ← operands lower args
    return code ++ [Instr.call (← l.funcIndex func)]
  | .callIndirect index args signature => do
    let code ← operands lower args
    let indexCode ← lower index
    return code ++ indexCode ++ [Instr.callIndirect (← intern signature) 0]
  | .block items _ => do
    let slots ← l.arena.slots id
    l.sequence lower (!slots.isEmpty) items
  | .group items => operands lower items
  | .extract composite _ offset width => l.extract lower composite offset width
  | .choose cond thenItems elseItems _ => do
    let slots ← l.arena.slots id
    let value := !slots.isEmpty
    let condCode ← lower cond
    let type ← blockType slots
    let thenCode ← l.sequence lower value thenItems
    if value || !elseItems.isEmpty then
      return condCode ++ [Instr.ifElse type thenCode (← l.sequence lower value elseItems)]
    else
      return condCode ++ [Instr.ifThen type thenCode]
  | .loop init cond step body => do
    let initCode ← l.statements lower init
    let condCode ← lower cond
    let bodyCode ← l.statements lower body
    let stepCode ← l.statements lower step
    return initCode ++ [Instr.block .empty [.loop .empty <|
      condCode ++ [Instr.unary (.eqz .w32), .brIf 1] ++ bodyCode ++ stepCode ++ [Instr.br 0]]]
  | .ret none => return [.ret]
  | .ret (some value) => return (← lower value) ++ [Instr.ret]
  | .load t addr offset => return (← lower addr) ++ [Instr.load t ⟨t.alignLog2, offset, 0⟩]
  | .store t addr value offset =>
    return (← lower addr) ++ (← lower value) ++ [Instr.store t ⟨t.alignLog2, offset, 0⟩]
  | .memorySize => return [.memorySize 0]
  | .memoryGrow delta => return (← lower delta) ++ [Instr.memoryGrow 0]
  | .nop => return []

def exprWithin : (depth : Nat) → ExprId → LowerM (List Instr)
  | 0, id => throw (.endlessExpression id)
  | depth + 1, id => do l.node (exprWithin depth) id (← l.arena.node id)

def expr (id : ExprId) : LowerM (List Instr) := l.exprWithin l.arena.pathBound id

def body (ids : List ExprId) : LowerM (List Instr) := l.statements l.expr ids

end Layout

end WasmBuilder.Lower
