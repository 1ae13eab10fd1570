import WasmBuilder.Op.Basic

/-!
Operations that are carried out on constants while a program is built.

The tables list what is evaluated early. Operations that may trap are not among them, and neither
are a few that would be safe: unsigned comparisons, wide shifts and comparisons, float quotients.
-/

set_option autoImplicit false

namespace WasmBuilder

open Numeric (FloatLayout)

/-- Carries out an operation on two constants, if it is one that is evaluated early. -/
def BinOp.constant? : BinOp → Value → Value → Option Value
  | .intArith .w32 op, .i32 a, .i32 b =>
    match op with
    | .add => some (.i32 (a + b))
    | .sub => some (.i32 (a - b))
    | .mul => some (.i32 (a * b))
    | .and => some (.i32 (a &&& b))
    | .or => some (.i32 (a ||| b))
    | .xor => some (.i32 (a ^^^ b))
    | .shl => some (.i32 (a <<< (b.toNat % 32)))
    | .shrS => some (.i32 (a.sshiftRight (b.toNat % 32)))
    | .shrU => some (.i32 (a >>> (b.toNat % 32)))
    | .divS | .divU | .remS | .remU => none
  | .intRel .w32 op, .i32 a, .i32 b =>
    match op with
    | .eq => some (.ofBool (a = b))
    | .ne => some (.ofBool (a ≠ b))
    | .ltS => some (.ofBool (a.toInt < b.toInt))
    | .gtS => some (.ofBool (a.toInt > b.toInt))
    | .leS => some (.ofBool (a.toInt ≤ b.toInt))
    | .geS => some (.ofBool (a.toInt ≥ b.toInt))
    | .ltU | .gtU | .leU | .geU => none
  | .intArith .w64 op, .i64 a, .i64 b =>
    match op with
    | .add => some (.i64 (a + b))
    | .sub => some (.i64 (a - b))
    | .mul => some (.i64 (a * b))
    | .and => some (.i64 (a &&& b))
    | .or => some (.i64 (a ||| b))
    | .xor => some (.i64 (a ^^^ b))
    | .divS | .divU | .remS | .remU | .shl | .shrS | .shrU => none
  | .intRel .w64 op, .i64 a, .i64 b =>
    match op with
    | .eq => some (.ofBool (a = b))
    | .ne => some (.ofBool (a ≠ b))
    | _ => none
  | .floatArith .w32 op, .f32 a, .f32 b =>
    match op with
    | .add => some (.f32 (onWords (FloatLayout.add .binary32) a b))
    | .sub => some (.f32 (onWords (FloatLayout.sub .binary32) a b))
    | .mul => some (.f32 (onWords (FloatLayout.mul .binary32) a b))
    | .div | .min | .max => none
  | .floatArith .w64 op, .f64 a, .f64 b =>
    match op with
    | .add => some (.f64 (onWords (FloatLayout.add .binary64) a b))
    | .sub => some (.f64 (onWords (FloatLayout.sub .binary64) a b))
    | .mul => some (.f64 (onWords (FloatLayout.mul .binary64) a b))
    | .div | .min | .max => none
  | _, _, _ => none

/-- Carries out an operation on one constant, if it is one that is evaluated early. -/
def UnOp.constant? : UnOp → Value → Option Value
  | .eqz .w32, .i32 a => some (.ofBool (a = 0))
  | .eqz .w64, .i64 a => some (.ofBool (a = 0))
  | .neg .w32, .f32 a => some (.f32 (onWord 32 (FloatLayout.neg .binary32) a))
  | .neg .w64, .f64 a => some (.f64 (onWord 64 (FloatLayout.neg .binary64) a))
  | .abs .w32, .f32 a => some (.f32 (onWord 32 (FloatLayout.abs .binary32) a))
  | .abs .w64, .f64 a => some (.f64 (onWord 64 (FloatLayout.abs .binary64) a))
  | .wrap, .i64 a => some (.i32 (BitVec.ofInt 32 a.toInt))
  | .extendS, .i32 a => some (.i64 (BitVec.ofInt 64 a.toInt))
  | .extendU, .i32 a => some (.i64 (BitVec.ofNat 64 a.toNat))
  | .convert .w32 .w32, .i32 a => some (.f32 (.ofNat 32 (FloatLayout.binary32.ofInt a.toInt)))
  | .convert .w64 .w32, .i32 a => some (.f64 (.ofNat 64 (FloatLayout.binary64.ofInt a.toInt)))
  | .convert .w32 .w64, .i64 a => some (.f32 (.ofNat 32 (FloatLayout.binary32.ofInt a.toInt)))
  | .convert .w64 .w64, .i64 a => some (.f64 (.ofNat 64 (FloatLayout.binary64.ofInt a.toInt)))
  | .promote, .f32 a => some (.f64 (onWord 64 (FloatLayout.convert .binary32 .binary64) a))
  | .demote, .f64 a => some (.f32 (onWord 32 (FloatLayout.convert .binary64 .binary32) a))
  | _, _ => none

end WasmBuilder
