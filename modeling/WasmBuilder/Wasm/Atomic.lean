import WasmBuilder.Wasm.Datum
import WasmBuilder.Wasm.MachineOp

/-!
Atomic accesses to memory.

An access takes the whole of an integer or its lower part, always without a sign. Only one thread is
there, so that every step is atomic; what is left of waiting is that nobody wakes a waiter.
-/

set_option autoImplicit false

namespace WasmBuilder.Wasm

namespace Atomic

structure Extent where
  width : Width
  part : Option Part
  deriving DecidableEq, Repr

namespace Extent

def type (e : Extent) : NumType := e.width.int

def log2 (e : Extent) : Nat :=
  match e.part with
  | some p => p.log2
  | none => e.type.alignLog2

def bytes (e : Extent) : Nat := 2 ^ e.log2

def isProper (e : Extent) : Bool := e.part.all (·.isProper e.width)

def all : List Extent :=
  [⟨.w32, none⟩, ⟨.w64, none⟩, ⟨.w32, some .w8⟩, ⟨.w32, some .w16⟩, ⟨.w64, some .w8⟩,
    ⟨.w64, some .w16⟩, ⟨.w64, some .w32⟩]

def index (e : Extent) : Nat := all.idxOf e

def datum (e : Extent) (n : Nat) : Datum :=
  match e.width with
  | .w32 => .i32 (BitVec.ofNat 32 n)
  | .w64 => .i64 (BitVec.ofNat 64 n)

end Extent

inductive Update where
  | add
  | sub
  | and
  | or
  | xor
  | exchange
  deriving DecidableEq, Repr

namespace Update

def all : List Update := [add, sub, and, or, xor, exchange]

def index (u : Update) : Nat := all.idxOf u

/-- The new number of the old one and the operand, up to what fits. -/
def eval (u : Update) (old operand : BitVec 64) : BitVec 64 :=
  match u with
  | add => old + operand
  | sub => old - operand
  | and => old &&& operand
  | or => old ||| operand
  | xor => old ^^^ operand
  | exchange => operand

end Update

end Atomic

inductive AtomicOp where
  | notify
  | wait (width : Width)
  | load (extent : Atomic.Extent)
  | store (extent : Atomic.Extent)
  | update (op : Atomic.Update) (extent : Atomic.Extent)
  /-- Replaces a number if it is the expected one, and leaves the old one. -/
  | compareExchange (extent : Atomic.Extent)
  deriving DecidableEq, Repr

namespace AtomicOp

open Atomic (Extent Update)

/-- The binary logarithm of the number of bytes; the address must be a multiple of it. -/
def log2 : AtomicOp → Nat
  | notify => 2
  | wait w => w.int.alignLog2
  | load e | store e | update _ e | compareExchange e => e.log2

def bytes (op : AtomicOp) : Nat := 2 ^ op.log2

def isProper : AtomicOp → Bool
  | notify | wait _ => true
  | load e | store e | update _ e | compareExchange e => e.isProper

def type : AtomicOp → FuncType
  | notify => ⟨[.i32], [.i32]⟩
  | wait w => ⟨[.num w.int, .i64], [.i32]⟩
  | load e => ⟨[], [.num e.type]⟩
  | store e => ⟨[.num e.type], []⟩
  | update _ e => ⟨[.num e.type], [.num e.type]⟩
  | compareExchange e => ⟨[.num e.type, .num e.type], [.num e.type]⟩

def number : AtomicOp → Nat
  | notify => 0x00
  | wait .w32 => 0x01
  | wait .w64 => 0x02
  | load e => 0x10 + e.index
  | store e => 0x17 + e.index
  | update op e => 0x1e + 7 * op.index + e.index
  | compareExchange e => 0x48 + e.index

def all : List AtomicOp :=
  [notify, wait .w32, wait .w64] ++ Extent.all.flatMap fun e =>
    [load e, store e, compareExchange e] ++ Update.all.map fun op => update op e

def ofNumber? (n : Nat) : Option AtomicOp := all.find? (·.number = n)

end AtomicOp

end WasmBuilder.Wasm
