import Std.Data.HashMap
import WasmBuilder.Wasm.Datum

/-!
Tables: slots for references, which hold null until something is put there.
-/

set_option autoImplicit false

namespace WasmBuilder.Wasm

structure Table where
  type : TableType
  size : Nat
  filled : Std.HashMap Nat Datum := {}

namespace Table

def ofType (t : TableType) : Table := { type := t, size := t.limits.minimum }

def holds (t : Table) (slot count : Nat) : Bool := slot + count ≤ t.size

def peek (t : Table) (slot : Nat) : Datum := t.filled.getD slot (.null t.type.element)

def get? (t : Table) (slot : Nat) : Option Datum :=
  if slot < t.size then some (t.peek slot) else none

def read (t : Table) (slot count : Nat) : Option (List Datum) :=
  if t.holds slot count then some ((List.range count).map fun i => t.peek (slot + i)) else none

def poke (t : Table) (slot : Nat) : List Datum → Table
  | [] => t
  | d :: rest => poke { t with filled := t.filled.insert slot d } (slot + 1) rest

def fill (t : Table) (slot : Nat) (d : Datum) : (count : Nat) → Table
  | 0 => t
  | count + 1 => fill { t with filled := t.filled.insert slot d } (slot + 1) d count

def sizeLimit (t : Table) : Nat :=
  let bound := 2 ^ 32 - 1
  min bound (t.type.limits.maximum.getD bound)

def grow (t : Table) (delta : Nat) (d : Datum) : Table :=
  fill { t with size := t.size + delta } t.size d (if d.isNull then 0 else delta)

end Table

end WasmBuilder.Wasm
