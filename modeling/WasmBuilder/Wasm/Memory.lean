import Std.Data.HashMap
import WasmBuilder.Host.Imports
import WasmBuilder.Wasm.Encode

/-!
Linear memory: bytes that are zero until they are written, up to a size in pages.
-/

set_option autoImplicit false

namespace WasmBuilder

namespace Wasm

def pageSize : Nat := 65536

def AddressType.pageLimit : AddressType → Nat
  | w32 => 65536
  | w64 => 2 ^ 20

structure Memory where
  type : MemoryType
  pages : Nat
  /-- The bytes that were written; all others are zero. -/
  written : Std.HashMap Nat UInt8 := {}

namespace Memory

def ofType (t : MemoryType) : Memory := { type := t, pages := t.limits.minimum }

def ofLimits (l : MemoryLimits) : Memory := ofType (.ofLimits ⟨l.initial, l.maximum⟩)

def size (m : Memory) : Nat := m.pages * pageSize

def holds (m : Memory) (addr count : Nat) : Bool := addr + count ≤ m.size

def byte (m : Memory) (addr : Nat) : UInt8 := m.written.getD addr 0

def read (m : Memory) (addr count : Nat) : Option (List UInt8) :=
  if m.holds addr count then some ((List.range count).map fun i => m.byte (addr + i)) else none

def poke (m : Memory) (addr : Nat) : List UInt8 → Memory
  | [] => m
  | b :: rest => poke { m with written := m.written.insert addr b } (addr + 1) rest

def write (m : Memory) (addr : Nat) (bytes : List UInt8) : Option Memory :=
  if m.holds addr bytes.length then some (m.poke addr bytes) else none

def pageLimit (m : Memory) : Nat :=
  let bound := m.type.address.pageLimit
  min bound (m.type.limits.maximum.getD bound)

def grow (m : Memory) (delta : Nat) : Option Memory :=
  if m.pages + delta ≤ m.pageLimit then some { m with pages := m.pages + delta } else none

end Memory

def fromLittleEndian : List UInt8 → Nat
  | [] => 0
  | b :: rest => b.toNat + 256 * fromLittleEndian rest

theorem fromLittleEndian_littleEndian (count n : Nat) :
    fromLittleEndian (littleEndian count n) = n % 256 ^ count := by
  induction count generalizing n with
  | zero => simp [littleEndian, fromLittleEndian, Nat.mod_one]
  | succ count ih =>
    have split : n % 256 ^ (count + 1) = n % 256 + 256 * (n / 256 % 256 ^ count) := by
      rw [Nat.pow_succ', Nat.mod_mul]
    simp only [littleEndian, fromLittleEndian, ih, UInt8.toNat_ofNat', split]
    omega

end Wasm

def Value.ofBytes (t : NumType) (bytes : List UInt8) : Value :=
  let n := Wasm.fromLittleEndian bytes
  match t with
  | .i32 => .i32 (BitVec.ofNat 32 n)
  | .i64 => .i64 (BitVec.ofNat 64 n)
  | .f32 => .f32 (BitVec.ofNat 32 n)
  | .f64 => .f64 (BitVec.ofNat 64 n)

@[simp] theorem Value.type_ofBytes (t : NumType) (bytes : List UInt8) :
    (Value.ofBytes t bytes).type = t := by
  cases t <;> rfl

theorem Value.ofBytes_bytes (v : Value) : Value.ofBytes v.type v.bytes = v := by
  cases v with
  | i32 v | i64 v | f32 v | f64 v =>
    simp only [type, bytes, ofBytes, Wasm.fromLittleEndian_littleEndian]
    rw [Nat.mod_eq_of_lt v.isLt, BitVec.ofNat_toNat, BitVec.setWidth_eq]

/-- The integer whose lower part stands in memory, filled up with its sign or with zeros. -/
def Wasm.Part.fill (part : Part) (w : Width) (isSigned : Bool) (bytes : List UInt8) : Value :=
  let n := Wasm.fromLittleEndian bytes
  let wide (v : Nat) : BitVec v :=
    if isSigned then (BitVec.ofNat part.bits n).signExtend v else BitVec.ofNat v n
  match w with
  | .w32 => .i32 (wide 32)
  | .w64 => .i64 (wide 64)

end WasmBuilder
