import WasmBuilder.Value
import WasmBuilder.Trap

/-!
Operations on numbers.

An operation is an integer or float operation at a width, so its operand and result types can be
read off its form: comparisons leave an `i32`, and all else leaves what it takes.
`BinOp.eval` and `UnOp.eval` are what executing the operation does, traps included.
-/

set_option autoImplicit false

namespace WasmBuilder

open Numeric (FloatLayout)

inductive Width where
  | w32
  | w64
  deriving DecidableEq, Repr

namespace Width

def int : Width → NumType
  | .w32 => .i32
  | .w64 => .i64

def float : Width → NumType
  | .w32 => .f32
  | .w64 => .f64

end Width

inductive IntArith where
  | add | sub | mul | divS | divU | remS | remU | and | or | xor | shl | shrS | shrU
  deriving DecidableEq, Repr

inductive IntRel where
  | eq | ne | ltS | ltU | gtS | gtU | leS | leU | geS | geU
  deriving DecidableEq, Repr

inductive FloatArith where
  | add | sub | mul | div | min | max
  deriving DecidableEq, Repr

inductive FloatRel where
  | eq | ne | lt | gt | le | ge
  deriving DecidableEq, Repr

/-- An operation on two numbers of one type. -/
inductive BinOp where
  | intArith (width : Width) (op : IntArith)
  | intRel (width : Width) (op : IntRel)
  | floatArith (width : Width) (op : FloatArith)
  | floatRel (width : Width) (op : FloatRel)
  deriving DecidableEq, Repr

/-- An operation on one number. Conversions name the width they lead to and then the one they
start from. -/
inductive UnOp where
  | eqz (width : Width)
  | neg (width : Width)
  | abs (width : Width)
  | sqrt (width : Width)
  | wrap
  | extendS
  | extendU
  | convert (target source : Width)
  | trunc (target source : Width)
  | demote
  | promote
  deriving DecidableEq, Repr

namespace BinOp

def operandType : BinOp → NumType
  | intArith w _ | intRel w _ => w.int
  | floatArith w _ | floatRel w _ => w.float

def isComparison : BinOp → Bool
  | intRel .. | floatRel .. => true
  | intArith .. | floatArith .. => false

def resultType (op : BinOp) : NumType := if op.isComparison then .i32 else op.operandType

end BinOp

namespace UnOp

def operandType : UnOp → NumType
  | eqz w => w.int
  | neg w | abs w | sqrt w => w.float
  | wrap => .i64
  | extendS | extendU => .i32
  | convert _ source => source.int
  | trunc _ source => source.float
  | demote => .f64
  | promote => .f32

def resultType : UnOp → NumType
  | eqz _ => .i32
  | neg w | abs w | sqrt w => w.float
  | wrap => .i32
  | extendS | extendU => .i64
  | convert target _ => target.float
  | trunc target _ => target.int
  | demote => .f32
  | promote => .f64

end UnOp

def shiftAmount {w : Nat} (b : BitVec w) : Nat := b.toNat % w

namespace IntArith

/-- Wrapping arithmetic. Division traps on zero and, signed, on the one quotient that is too
large; the signed remainder of that pair is zero. -/
def eval {w : Nat} (op : IntArith) (a b : BitVec w) : Except Trap (BitVec w) :=
  match op with
  | add => .ok (a + b)
  | sub => .ok (a - b)
  | mul => .ok (a * b)
  | divS =>
    if b = 0 then .error .divideByZero
    else if a = BitVec.intMin w ∧ b = -1 then .error .integerOverflow
    else .ok (a.sdiv b)
  | divU => if b = 0 then .error .divideByZero else .ok (a.udiv b)
  | remS => if b = 0 then .error .divideByZero else .ok (a.srem b)
  | remU => if b = 0 then .error .divideByZero else .ok (a.umod b)
  | and => .ok (a &&& b)
  | or => .ok (a ||| b)
  | xor => .ok (a ^^^ b)
  | shl => .ok (a <<< shiftAmount b)
  | shrS => .ok (a.sshiftRight (shiftAmount b))
  | shrU => .ok (a >>> shiftAmount b)

end IntArith

namespace IntRel

def eval {w : Nat} (op : IntRel) (a b : BitVec w) : Bool :=
  match op with
  | eq => a == b
  | ne => a != b
  | ltS => a.slt b
  | ltU => a.ult b
  | gtS => b.slt a
  | gtU => b.ult a
  | leS => a.sle b
  | leU => a.ule b
  | geS => b.sle a
  | geU => b.ule a

end IntRel

def onWord {v : Nat} (w : Nat) (op : Nat → Nat) (a : BitVec v) : BitVec w := .ofNat w (op a.toNat)

def onWords {w : Nat} (op : Nat → Nat → Nat) (a b : BitVec w) : BitVec w :=
  .ofNat w (op a.toNat b.toNat)

namespace FloatArith

def eval (op : FloatArith) (f : FloatLayout) : Nat → Nat → Nat :=
  match op with
  | add => f.add
  | sub => f.sub
  | mul => f.mul
  | div => f.div
  | min => f.minimum
  | max => f.maximum

end FloatArith

namespace FloatRel

/-- What a comparison says of the order of its operands. Not-a-number has no order: all comparisons
with it are false, except that it is unequal to everything. -/
def holds (op : FloatRel) (order : Option Ordering) : Bool :=
  match op with
  | eq => order = some .eq
  | ne => order ≠ some .eq
  | lt => order = some .lt
  | gt => order = some .gt
  | le => order = some .lt ∨ order = some .eq
  | ge => order = some .gt ∨ order = some .eq

def eval {w : Nat} (op : FloatRel) (f : FloatLayout) (a b : BitVec w) : Bool :=
  op.holds (f.compare? a.toNat b.toNat)

end FloatRel

namespace BinOp

def eval : BinOp → Value → Value → Except Trap Value
  | intArith .w32 op, .i32 a, .i32 b => (op.eval a b).map .i32
  | intArith .w64 op, .i64 a, .i64 b => (op.eval a b).map .i64
  | intRel .w32 op, .i32 a, .i32 b => .ok (.ofBool (op.eval a b))
  | intRel .w64 op, .i64 a, .i64 b => .ok (.ofBool (op.eval a b))
  | floatArith .w32 op, .f32 a, .f32 b => .ok (.f32 (onWords (op.eval .binary32) a b))
  | floatArith .w64 op, .f64 a, .f64 b => .ok (.f64 (onWords (op.eval .binary64) a b))
  | floatRel .w32 op, .f32 a, .f32 b => .ok (.ofBool (op.eval .binary32 a b))
  | floatRel .w64 op, .f64 a, .f64 b => .ok (.ofBool (op.eval .binary64 a b))
  | _, _, _ => .error .illTyped

end BinOp

/-- Truncation into the signed integers of `bits` bits. It traps on not-a-number, and on values
outside the range. -/
def truncateFloat (bits : Nat) (c : Numeric.FloatClass) : Except Trap (BitVec bits) :=
  match c, c.truncate? bits with
  | .notANumber, _ => .error .invalidConversion
  | _, some n => .ok (BitVec.ofInt bits n)
  | _, none => .error .integerOverflow

namespace UnOp

def eval : UnOp → Value → Except Trap Value
  | eqz .w32, .i32 a => .ok (.ofBool (a == 0))
  | eqz .w64, .i64 a => .ok (.ofBool (a == 0))
  | neg .w32, .f32 a => .ok (.f32 (onWord 32 (FloatLayout.neg .binary32) a))
  | neg .w64, .f64 a => .ok (.f64 (onWord 64 (FloatLayout.neg .binary64) a))
  | abs .w32, .f32 a => .ok (.f32 (onWord 32 (FloatLayout.abs .binary32) a))
  | abs .w64, .f64 a => .ok (.f64 (onWord 64 (FloatLayout.abs .binary64) a))
  | sqrt .w32, .f32 a => .ok (.f32 (onWord 32 (FloatLayout.sqrt .binary32) a))
  | sqrt .w64, .f64 a => .ok (.f64 (onWord 64 (FloatLayout.sqrt .binary64) a))
  | wrap, .i64 a => .ok (.i32 (a.setWidth 32))
  | extendS, .i32 a => .ok (.i64 (a.signExtend 64))
  | extendU, .i32 a => .ok (.i64 (a.setWidth 64))
  | convert .w32 .w32, .i32 a => .ok (.f32 (.ofNat 32 (FloatLayout.binary32.ofInt a.toInt)))
  | convert .w32 .w64, .i64 a => .ok (.f32 (.ofNat 32 (FloatLayout.binary32.ofInt a.toInt)))
  | convert .w64 .w32, .i32 a => .ok (.f64 (.ofNat 64 (FloatLayout.binary64.ofInt a.toInt)))
  | convert .w64 .w64, .i64 a => .ok (.f64 (.ofNat 64 (FloatLayout.binary64.ofInt a.toInt)))
  | trunc .w32 .w32, .f32 a => (truncateFloat 32 (floatClass32 a)).map .i32
  | trunc .w32 .w64, .f64 a => (truncateFloat 32 (floatClass a)).map .i32
  | trunc .w64 .w32, .f32 a => (truncateFloat 64 (floatClass32 a)).map .i64
  | trunc .w64 .w64, .f64 a => (truncateFloat 64 (floatClass a)).map .i64
  | demote, .f64 a => .ok (.f32 (onWord 32 (FloatLayout.convert .binary64 .binary32) a))
  | promote, .f32 a => .ok (.f64 (onWord 64 (FloatLayout.convert .binary32 .binary64) a))
  | _, _ => .error .illTyped

end UnOp

end WasmBuilder
