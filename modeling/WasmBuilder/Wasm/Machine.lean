import WasmBuilder.Wasm.Memory
import WasmBuilder.Wasm.Module
import WasmBuilder.Wasm.Table

/-!
The store, which outlives a call: globals, memories, tables, and what is left of segments. And the
machine that runs a function body: its store, its locals and its stack of operands, with what each
step on them does and where control goes from there.

Only two things can go on for ever, and both have a bound of their own: a loop is repeated at most
`rounds` times each time it is entered, and so is a chain of calls in tail position.
-/

set_option autoImplicit false

namespace WasmBuilder.Wasm

structure Store where
  globals : Array Datum
  memories : Array Memory
  tables : Array Table := #[]
  /-- What can still be copied from each data segment. -/
  segments : Array (List UInt8) := #[]
  /-- What can still be copied from each element segment. -/
  elements : Array (List Datum) := #[]
  journal : List HostCall := []

namespace Store

def setMemory (s : Store) (i : Nat) (memory : Memory) : Store :=
  { s with memories := s.memories.setIfInBounds i memory }

def holds (s : Store) (i addr count : Nat) : Bool := s.memories[i]?.any (·.holds addr count)

def poke (s : Store) (i addr : Nat) (bytes : List UInt8) : Store :=
  { s with memories := s.memories.modify i (·.poke addr bytes) }

def modifyTable (s : Store) (i : Nat) (f : Table → Table) : Store :=
  { s with tables := s.tables.modify i f }

def holdsSlots (s : Store) (i slot count : Nat) : Bool := s.tables[i]?.any (·.holds slot count)

end Store

/-- A store with the locals of a function and its operands, the top first. -/
structure Machine where
  store : Store
  locals : Array Datum
  stack : List Datum

inductive Outcome where
  | next (m : Machine)
  | branch (label : Nat) (m : Machine)
  | ret (m : Machine)
  /-- To another function, whose results are those of the running one. -/
  | tail (func : Nat) (args : List Datum) (s : Store)
  | trap (cause : Trap) (s : Store)
  | exhausted

/-- How a call ends. -/
inductive CallOutcome where
  | done (results : List Datum) (s : Store)
  | trap (cause : Trap) (s : Store)
  | exhausted

/-- What instructions refer to besides the machine. -/
structure Env where
  types : Array FuncType
  signatures : Array FuncType
  memories : Array Nat
  rounds : Nat
  call : Nat → Store → List Datum → CallOutcome

def Env.blockType? (e : Env) : BlockType → Option FuncType
  | .empty => some ⟨[], []⟩
  | .value t => some ⟨[], [t]⟩
  | .index i => e.types[i]?

namespace Machine

def push (m : Machine) (d : Datum) : Machine := { m with stack := d :: m.stack }

def stuck (m : Machine) : Outcome := .trap .illTyped m.store

def trap (m : Machine) (cause : Trap) : Outcome := .trap cause m.store

def pushResult (m : Machine) : Except Trap Value → Outcome
  | .ok v => .next (m.push (.num v))
  | .error cause => m.trap cause

def binary (op : Value → Value → Except Trap Value) (m : Machine) : Outcome :=
  match m.stack with
  | .num b :: .num a :: rest => { m with stack := rest }.pushResult (op a b)
  | _ => m.stuck

def unary (op : Value → Except Trap Value) (m : Machine) : Outcome :=
  match m.stack with
  | .num a :: rest => { m with stack := rest }.pushResult (op a)
  | _ => m.stuck

def vector (op : Vector.Op) (m : Machine) : Outcome :=
  let n := op.type.params.length
  match op.eval (m.stack.take n).reverse with
  | some d => .next { m with stack := d :: m.stack.drop n }
  | none => m.stuck

def drop (m : Machine) : Outcome :=
  match m.stack with
  | _ :: rest => .next { m with stack := rest }
  | _ => m.stuck

def select (m : Machine) : Outcome :=
  match m.stack with
  | .i32 c :: b :: a :: rest => .next { m with stack := (if c = 0 then b else a) :: rest }
  | _ => m.stuck

def refIsNull (m : Machine) : Outcome :=
  match m.stack with
  | d :: rest => .next { m with stack := .ofBool d.isNull :: rest }
  | _ => m.stuck

def localGet (i : Nat) (m : Machine) : Outcome :=
  match m.locals[i]? with
  | some v => .next (m.push v)
  | none => m.stuck

def localSet (i : Nat) (m : Machine) : Outcome :=
  match m.stack with
  | v :: rest =>
    if i < m.locals.size then .next { m with locals := m.locals.setIfInBounds i v, stack := rest }
    else m.stuck
  | _ => m.stuck

def localTee (i : Nat) (m : Machine) : Outcome :=
  match m.stack with
  | v :: _ =>
    if i < m.locals.size then .next { m with locals := m.locals.setIfInBounds i v } else m.stuck
  | _ => m.stuck

def globalGet (i : Nat) (m : Machine) : Outcome :=
  match m.store.globals[i]? with
  | some v => .next (m.push v)
  | none => m.stuck

def globalSet (i : Nat) (m : Machine) : Outcome :=
  match m.stack with
  | v :: rest =>
    if i < m.store.globals.size then
      .next { m with
        store := { m.store with globals := m.store.globals.setIfInBounds i v }, stack := rest }
    else m.stuck
  | _ => m.stuck

def call (e : Env) (f : Nat) (m : Machine) : Outcome :=
  match e.signatures[f]? with
  | some t =>
    let n := t.params.length
    match e.call f m.store (m.stack.take n).reverse with
    | .done results store => .next { m with store, stack := results.reverse ++ m.stack.drop n }
    | .trap cause store => .trap cause store
    | .exhausted => .exhausted
  | none => m.stuck

def tailCall (e : Env) (f : Nat) (m : Machine) : Outcome :=
  match e.signatures[f]? with
  | some t => .tail f (m.stack.take t.params.length).reverse m.store
  | none => m.stuck

/-- Takes a slot off the stack, and does something with the function in this slot of a table. The
type of the function must be the one that is named. -/
def withSlot (e : Env) (typeIndex table : Nat) (f : Nat → Machine → Outcome) (m : Machine) :
    Outcome :=
  match m.stack with
  | d :: rest =>
    match d.unsigned?, e.types[typeIndex]?, m.store.tables[table]? with
    | some slot, some t, some slots =>
      match slots.get? slot with
      | some (.func (some g)) =>
        if e.signatures[g]? = some t then f g { m with stack := rest }
        else m.trap .indirectTypeMismatch
      | _ => m.trap .undefinedElement
    | _, _, _ => m.stuck
  | _ => m.stuck

/-- Runs a block's body on the operands it takes. A branch to the block's own label passes on
`arity` operands; what lies below the block's operands is kept. -/
def enter (params arity : Nat) (body : Machine → Outcome) (m : Machine) : Outcome :=
  let below := m.stack.drop params
  match body { m with stack := m.stack.take params } with
  | .next inner => .next { inner with stack := inner.stack ++ below }
  | .branch 0 inner => .next { inner with stack := inner.stack.take arity ++ below }
  | .branch (l + 1) inner => .branch l inner
  | o => o

/-- Repeats a loop's body while it branches to the loop's own label, at most `rounds` times. -/
def repeatLoop (params : Nat) (body : Machine → Outcome) : (rounds : Nat) → Machine → Outcome
  | 0, _ => .exhausted
  | rounds + 1, m =>
    match body m with
    | .branch 0 inner => repeatLoop params body rounds { inner with stack := inner.stack.take params }
    | .branch (l + 1) inner => .branch l inner
    | o => o

def enterLoop (rounds params : Nat) (body : Machine → Outcome) (m : Machine) : Outcome :=
  let below := m.stack.drop params
  match repeatLoop params body rounds { m with stack := m.stack.take params } with
  | .next inner => .next { inner with stack := inner.stack ++ below }
  | o => o

def popCondition (m : Machine) (f : Bool → Machine → Outcome) : Outcome :=
  match m.stack with
  | .i32 c :: rest => f (c ≠ 0) { m with stack := rest }
  | _ => m.stuck

def branchTable (labels : List Nat) (otherwise : Nat) (m : Machine) : Outcome :=
  match m.stack with
  | .i32 i :: rest => .branch (labels.getD i.toNat otherwise) { m with stack := rest }
  | _ => m.stuck

end Machine

end WasmBuilder.Wasm
