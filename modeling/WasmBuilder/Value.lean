import WasmBuilder.NumType
import WasmBuilder.Numeric.Decimal

/-!
Values of the machine. The same type holds constants of a program and values at run time.

Integers are bit vectors that operations read as signed or unsigned, and floats are their bit
patterns, so that values are equal when their bits are.
-/

set_option autoImplicit false

namespace WasmBuilder

open Numeric (FloatLayout FloatClass)

/-- A number as a caller writes it, before it takes a machine type. Floats are doubles. -/
inductive Number where
  | int (value : BitVec 64)
  | float (bits : BitVec 64)
  deriving DecidableEq

inductive Value where
  | i32 (bits : BitVec 32)
  | i64 (bits : BitVec 64)
  | f32 (bits : BitVec 32)
  | f64 (bits : BitVec 64)
  deriving DecidableEq

def floatClass (x : BitVec 64) : FloatClass := FloatLayout.binary64.decode x.toNat

def floatClass32 (x : BitVec 32) : FloatClass := FloatLayout.binary32.decode x.toNat

namespace Number

def ofSingle (bits : BitVec 32) : Number :=
  .float (.ofNat 64 (FloatLayout.binary32.convert .binary64 bits.toNat))

def toInt64 : Number → BitVec 64
  | .int v => v
  | .float v => BitVec.ofInt 64 ((floatClass v).saturate 64)

end Number

namespace Value

def type : Value → NumType
  | .i32 _ => .i32
  | .i64 _ => .i64
  | .f32 _ => .f32
  | .f64 _ => .f64

def zero : NumType → Value
  | .i32 => .i32 0
  | .i64 => .i64 0
  | .f32 => .f32 0
  | .f64 => .f64 0

@[simp] theorem type_zero (t : NumType) : (zero t).type = t := by cases t <;> rfl

/-- The number as a constant of a type: integers keep their low bits, floats are truncated and
clamped on the way to an integer, and all else rounds to nearest. -/
def ofNumber : Number → NumType → Value
  | .int v, .i32 => .i32 (v.setWidth 32)
  | .int v, .i64 => .i64 v
  | .int v, .f32 => .f32 (.ofNat 32 (FloatLayout.binary32.ofInt v.toInt))
  | .int v, .f64 => .f64 (.ofNat 64 (FloatLayout.binary64.ofInt v.toInt))
  | .float v, .i32 => .i32 (BitVec.ofInt 32 ((floatClass v).saturate 32))
  | .float v, .i64 => .i64 (BitVec.ofInt 64 ((floatClass v).saturate 64))
  | .float v, .f32 => .f32 (.ofNat 32 (FloatLayout.binary64.convert .binary32 v.toNat))
  | .float v, .f64 => .f64 v

@[simp] theorem type_ofNumber (n : Number) (t : NumType) : (ofNumber n t).type = t := by
  cases n <;> cases t <;> rfl

def ofBool (b : Bool) : Value := .i32 (if b then 1 else 0)

def unsigned? : Value → Option Nat
  | .i32 v => some v.toNat
  | .i64 v => some v.toNat
  | .f32 _ | .f64 _ => none

def numeral : Value → String
  | .i32 v => toString v.toInt
  | .i64 v => toString v.toInt
  | .f32 v => FloatLayout.binary32.text v.toNat
  | .f64 v => FloatLayout.binary64.text v.toNat

def text (v : Value) : String := v.numeral ++ v.type.name

def read? (s : String) : NumType → Option Value
  | .i32 => do
    let n ← Numeric.readInteger? s.toList
    if -(2 ^ 31) ≤ n ∧ n < 2 ^ 31 then some (.i32 (BitVec.ofInt 32 n)) else none
  | .i64 => do
    let n ← Numeric.readInteger? s.toList
    if -(2 ^ 63) ≤ n ∧ n < 2 ^ 63 then some (.i64 (BitVec.ofInt 64 n)) else none
  | .f32 => (Numeric.Numeral.read? s).map fun n => .f32 (.ofNat 32 (n.bits .binary32))
  | .f64 => (Numeric.Numeral.read? s).map fun n => .f64 (.ofNat 64 (n.bits .binary64))

end Value

def Number.read? (s : String) : Option Number :=
  match Value.read? s .i64 with
  | some (.i64 v) => some (.int v)
  | _ => (Numeric.Numeral.read? s).map fun n => .float (.ofNat 64 (n.bits .binary64))

end WasmBuilder
