import WasmBuilder.Value
import WasmBuilder.Wasm.Type

/-!
What the machine works on: numbers, vectors and references.

A reference to a function is its index. Hosts here have nothing to refer to, so that a reference to
something of the host is always null.
-/

set_option autoImplicit false

namespace WasmBuilder.Wasm

inductive Datum where
  | num (value : Value)
  | vec (bits : BitVec 128)
  | func (index : Option Nat)
  | external
  deriving DecidableEq

namespace Datum

@[match_pattern] abbrev i32 (bits : BitVec 32) : Datum := num (.i32 bits)
@[match_pattern] abbrev i64 (bits : BitVec 64) : Datum := num (.i64 bits)

def type : Datum → ValType
  | num v => .num v.type
  | vec _ => .vec
  | func _ => .funcref
  | external => .externref

def null : RefType → Datum
  | .func => func none
  | .external => external

def zero : ValType → Datum
  | .num t => num (.zero t)
  | .vec => vec 0
  | .ref t => null t

@[simp] theorem type_null (t : RefType) : (null t).type = .ref t := by cases t <;> rfl

@[simp] theorem type_zero (t : ValType) : (zero t).type = t := by
  cases t with
  | num t => simp [zero, type]
  | vec => rfl
  | ref t => exact type_null t

def value? : Datum → Option Value
  | num v => some v
  | _ => none

@[simp] theorem value?_num (v : Value) : (num v).value? = some v := rfl

def unsigned? : Datum → Option Nat
  | num v => v.unsigned?
  | vec _ | func _ | external => none

def isNull : Datum → Bool
  | func none | external => true
  | func (some _) | num _ | vec _ => false

def ofBool (b : Bool) : Datum := num (.ofBool b)

end Datum

def AddressType.value (t : AddressType) (n : Int) : Value :=
  match t with
  | w32 => .i32 (BitVec.ofInt 32 n)
  | w64 => .i64 (BitVec.ofInt 64 n)

def AddressType.datum (t : AddressType) (n : Int) : Datum := .num (t.value n)

@[simp] theorem AddressType.type_datum (t : AddressType) (n : Int) : (t.datum n).type = t.valType := by
  cases t <;> rfl

end WasmBuilder.Wasm
