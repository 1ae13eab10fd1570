import WasmBuilder.Wasm.Datum
import WasmBuilder.Wasm.MachineOp

/-!
Vectors of 128 bits as lists of lanes.

A vector is cut into lanes of equal width, of which the first holds the lowest bits. Operations on
vectors are maps over these lists, put together again by `ofLanes`.
-/

set_option autoImplicit false

namespace WasmBuilder

namespace Width

def bits : Width → Nat
  | w32 => 32
  | w64 => 64

def layout : Width → Numeric.FloatLayout
  | w32 => .binary32
  | w64 => .binary64

end Width

namespace Wasm.Vector

def lanes (w : Nat) (v : BitVec 128) : List (BitVec w) :=
  (List.range (128 / w)).map fun i => (v >>> (i * w)).setWidth w

def ofLanes {w : Nat} (xs : List (BitVec w)) : BitVec 128 :=
  xs.foldr (fun x rest => rest <<< w ||| x.setWidth 128) 0

def mapLanes (w : Nat) (f : BitVec w → BitVec w) (v : BitVec 128) : BitVec 128 :=
  ofLanes ((lanes w v).map f)

def zipLanes (w : Nat) (f : BitVec w → BitVec w → BitVec w) (u v : BitVec 128) : BitVec 128 :=
  ofLanes ((lanes w u).zipWith f (lanes w v))

def truth (w : Nat) (b : Bool) : BitVec w := if b then BitVec.allOnes w else 0

def pairUp {α β : Type} (f : α → α → β) : List α → List β
  | a :: b :: rest => f a b :: pairUp f rest
  | _ => []

inductive Lane where
  | i8
  | i16
  | i32
  | i64
  deriving DecidableEq, Repr

namespace Lane

def all : List Lane := [i8, i16, i32, i64]

def log2 : Lane → Nat
  | i8 => 0
  | i16 => 1
  | i32 => 2
  | i64 => 3

def bytes (l : Lane) : Nat := 2 ^ l.log2

def bits (l : Lane) : Nat := 8 * l.bytes

def count (l : Lane) : Nat := 16 / l.bytes

def half? : Lane → Option Lane
  | i8 => none
  | i16 => some i8
  | i32 => some i16
  | i64 => some i32

def valType : Lane → ValType
  | i8 | i16 | i32 => .i32
  | i64 => .i64

def ofDatum? (l : Lane) : Datum → Option (BitVec l.bits)
  | .i32 v | .i64 v => some (v.setWidth l.bits)
  | _ => none

def datum (l : Lane) (isSigned : Bool) (x : BitVec l.bits) : Datum :=
  match l with
  | i64 => .i64 x
  | _ => .i32 (if isSigned then x.signExtend 32 else x.setWidth 32)

end Lane

def clampSigned (w : Nat) (z : Int) : BitVec w :=
  BitVec.ofInt w (max (-(2 ^ (w - 1))) (min (2 ^ (w - 1) - 1) z))

def clampUnsigned (w : Nat) (z : Int) : BitVec w := BitVec.ofInt w (max 0 (min (2 ^ w - 1) z))

def clamp (isSigned : Bool) (w : Nat) (z : Int) : BitVec w :=
  if isSigned then clampSigned w z else clampUnsigned w z

def valueOf {w : Nat} (isSigned : Bool) (x : BitVec w) : Int :=
  if isSigned then x.toInt else x.toNat

def widen {w : Nat} (isSigned : Bool) (target : Nat) (x : BitVec w) : BitVec target :=
  if isSigned then x.signExtend target else x.setWidth target

end Wasm.Vector

end WasmBuilder
