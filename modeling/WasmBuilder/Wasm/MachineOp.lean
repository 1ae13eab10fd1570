import WasmBuilder.Op.Basic

/-!
Operations on numbers that the machine has beyond those that programs are built from.

Finished binaries may use all of them. Each has its operand and result types, its code in the binary
form, and what executing it does.
-/

set_option autoImplicit false

namespace WasmBuilder.Wasm

open Numeric (FloatLayout FloatClass IntegralRounding)

/-- The lower part of an integer, of which memory accesses and sign extension may take one. -/
inductive Part where
  | w8
  | w16
  | w32
  deriving DecidableEq, Repr

namespace Part

def bytes : Part → Nat
  | w8 => 1
  | w16 => 2
  | w32 => 4

def log2 : Part → Nat
  | w8 => 0
  | w16 => 1
  | w32 => 2

def bits (p : Part) : Nat := 8 * p.bytes

def all : List Part := [w8, w16, w32]

def isProper (p : Part) : Width → Bool
  | .w32 => p ≠ w32
  | .w64 => true

end Part

inductive BitCount where
  | leadingZeros
  | trailingZeros
  | ones
  deriving DecidableEq, Repr

/-- An operation on one number. Conversions name the width they lead to and then the one they
start from. -/
inductive MachineUnOp where
  | count (width : Width) (op : BitCount)
  | signExtend (width : Width) (part : Part)
  | integral (width : Width) (mode : IntegralRounding)
  | truncU (target source : Width)
  | truncSat (isSigned : Bool) (target source : Width)
  | convertU (target source : Width)
  | toBits (width : Width)
  | ofBits (width : Width)
  deriving DecidableEq, Repr

inductive MachineBinOp where
  | rotateLeft (width : Width)
  | rotateRight (width : Width)
  | copySign (width : Width)
  deriving DecidableEq, Repr

namespace BitCount

def eval {w : Nat} (op : BitCount) (a : BitVec w) : BitVec w :=
  match op with
  | leadingZeros => a.clz
  | trailingZeros => a.ctz
  | ones => a.cpop

end BitCount

/-- Truncation into the unsigned integers of `bits` bits. It traps on not-a-number, and on values
outside the range. -/
def truncateUnsigned (bits : Nat) (c : FloatClass) : Except Trap (BitVec bits) :=
  match c with
  | .notANumber => .error .invalidConversion
  | .infinite _ => .error .integerOverflow
  | .finite x =>
    let n := x.truncate
    if 0 ≤ n ∧ n < 2 ^ bits then .ok (BitVec.ofInt bits n) else .error .integerOverflow

/-- Truncation into the unsigned integers of `bits` bits that clamps to the nearest end of the range,
and reads not-a-number as zero. -/
def saturateUnsigned (bits : Nat) (c : FloatClass) : BitVec bits :=
  match c with
  | .notANumber => 0
  | .infinite negative => if negative then 0 else BitVec.allOnes bits
  | .finite x => BitVec.ofInt bits (max 0 (min (2 ^ bits - 1) x.truncate))

def saturateTo (isSigned : Bool) (bits : Nat) (c : FloatClass) : BitVec bits :=
  if isSigned then BitVec.ofInt bits (c.saturate bits) else saturateUnsigned bits c

def extendFrom {w : Nat} (bits : Nat) (a : BitVec w) : BitVec w := (a.setWidth bits).signExtend w

namespace MachineUnOp

def operandType : MachineUnOp → NumType
  | count w _ | signExtend w _ => w.int
  | integral w _ => w.float
  | truncU _ source | truncSat _ _ source => source.float
  | convertU _ source => source.int
  | toBits w => w.float
  | ofBits w => w.int

def resultType : MachineUnOp → NumType
  | count w _ | signExtend w _ => w.int
  | integral w _ => w.float
  | truncU target _ | truncSat _ target _ => target.int
  | convertU target _ => target.float
  | toBits w => w.int
  | ofBits w => w.float

def eval : MachineUnOp → Value → Except Trap Value
  | count .w32 op, .i32 a => .ok (.i32 (op.eval a))
  | count .w64 op, .i64 a => .ok (.i64 (op.eval a))
  | signExtend .w32 part, .i32 a => .ok (.i32 (extendFrom part.bits a))
  | signExtend .w64 part, .i64 a => .ok (.i64 (extendFrom part.bits a))
  | integral .w32 mode, .f32 a => .ok (.f32 (onWord 32 (FloatLayout.toIntegral .binary32 mode) a))
  | integral .w64 mode, .f64 a => .ok (.f64 (onWord 64 (FloatLayout.toIntegral .binary64 mode) a))
  | truncU .w32 .w32, .f32 a => (truncateUnsigned 32 (floatClass32 a)).map .i32
  | truncU .w32 .w64, .f64 a => (truncateUnsigned 32 (floatClass a)).map .i32
  | truncU .w64 .w32, .f32 a => (truncateUnsigned 64 (floatClass32 a)).map .i64
  | truncU .w64 .w64, .f64 a => (truncateUnsigned 64 (floatClass a)).map .i64
  | truncSat s .w32 .w32, .f32 a => .ok (.i32 (saturateTo s 32 (floatClass32 a)))
  | truncSat s .w32 .w64, .f64 a => .ok (.i32 (saturateTo s 32 (floatClass a)))
  | truncSat s .w64 .w32, .f32 a => .ok (.i64 (saturateTo s 64 (floatClass32 a)))
  | truncSat s .w64 .w64, .f64 a => .ok (.i64 (saturateTo s 64 (floatClass a)))
  | convertU .w32 .w32, .i32 a => .ok (.f32 (.ofNat 32 (FloatLayout.binary32.ofInt a.toNat)))
  | convertU .w32 .w64, .i64 a => .ok (.f32 (.ofNat 32 (FloatLayout.binary32.ofInt a.toNat)))
  | convertU .w64 .w32, .i32 a => .ok (.f64 (.ofNat 64 (FloatLayout.binary64.ofInt a.toNat)))
  | convertU .w64 .w64, .i64 a => .ok (.f64 (.ofNat 64 (FloatLayout.binary64.ofInt a.toNat)))
  | toBits .w32, .f32 a => .ok (.i32 a)
  | toBits .w64, .f64 a => .ok (.i64 a)
  | ofBits .w32, .i32 a => .ok (.f32 a)
  | ofBits .w64, .i64 a => .ok (.f64 a)
  | _, _ => .error .illTyped

/-- Every operation; none extends an integer by the whole of it. -/
def all : List MachineUnOp :=
  let widths := [Width.w32, .w64]
  let pairs := widths.flatMap fun t => widths.map fun s => (t, s)
  widths.flatMap (fun w =>
    [BitCount.leadingZeros, .trailingZeros, .ones].map (count w) ++
    (Part.all.filter (·.isProper w)).map (signExtend w) ++
    [IntegralRounding.up, .down, .towardZero, .toNearest].map (integral w) ++
    [toBits w, ofBits w]) ++
  pairs.flatMap fun p =>
    [truncU p.1 p.2, truncSat true p.1 p.2, truncSat false p.1 p.2, convertU p.1 p.2]

end MachineUnOp

namespace MachineBinOp

def operandType : MachineBinOp → NumType
  | rotateLeft w | rotateRight w => w.int
  | copySign w => w.float

def resultType : MachineBinOp → NumType := operandType

def eval : MachineBinOp → Value → Value → Except Trap Value
  | rotateLeft .w32, .i32 a, .i32 b => .ok (.i32 (a.rotateLeft b.toNat))
  | rotateLeft .w64, .i64 a, .i64 b => .ok (.i64 (a.rotateLeft b.toNat))
  | rotateRight .w32, .i32 a, .i32 b => .ok (.i32 (a.rotateRight b.toNat))
  | rotateRight .w64, .i64 a, .i64 b => .ok (.i64 (a.rotateRight b.toNat))
  | copySign .w32, .f32 a, .f32 b => .ok (.f32 (onWords (FloatLayout.copySign .binary32) a b))
  | copySign .w64, .f64 a, .f64 b => .ok (.f64 (onWords (FloatLayout.copySign .binary64) a b))
  | _, _, _ => .error .illTyped

def all : List MachineBinOp :=
  [Width.w32, .w64].flatMap fun w => [rotateLeft w, rotateRight w, copySign w]

end MachineBinOp

/-- The code of an operation: one byte, or a number behind a byte that many operations share. -/
inductive OpCode where
  | plain (code : UInt8)
  | shared (number : Nat)
  deriving DecidableEq, Repr

def sharedByte : UInt8 := 0xfc

def MachineUnOp.code : MachineUnOp → OpCode
  | count .w32 op => .plain (0x67 + countIndex op)
  | count .w64 op => .plain (0x79 + countIndex op)
  | integral .w32 mode => .plain (0x8d + modeIndex mode)
  | integral .w64 mode => .plain (0x9b + modeIndex mode)
  | truncU .w32 .w32 => .plain 0xa9
  | truncU .w32 .w64 => .plain 0xab
  | truncU .w64 .w32 => .plain 0xaf
  | truncU .w64 .w64 => .plain 0xb1
  | convertU .w32 .w32 => .plain 0xb3
  | convertU .w32 .w64 => .plain 0xb5
  | convertU .w64 .w32 => .plain 0xb8
  | convertU .w64 .w64 => .plain 0xba
  | toBits .w32 => .plain 0xbc
  | toBits .w64 => .plain 0xbd
  | ofBits .w32 => .plain 0xbe
  | ofBits .w64 => .plain 0xbf
  | signExtend .w32 part => .plain (0xc0 + UInt8.ofNat part.log2)
  | signExtend .w64 part => .plain (0xc2 + UInt8.ofNat part.log2)
  | truncSat isSigned target source =>
    .shared ((if target = .w32 then 0 else 4) + (if source = .w32 then 0 else 2) +
      if isSigned then 0 else 1)
where
  countIndex : BitCount → UInt8
    | .leadingZeros => 0 | .trailingZeros => 1 | .ones => 2
  modeIndex : IntegralRounding → UInt8
    | .up => 0 | .down => 1 | .towardZero => 2 | .toNearest => 3

def MachineBinOp.code : MachineBinOp → UInt8
  | rotateLeft .w32 => 0x77
  | rotateRight .w32 => 0x78
  | rotateLeft .w64 => 0x89
  | rotateRight .w64 => 0x8a
  | copySign .w32 => 0x98
  | copySign .w64 => 0xa6

end WasmBuilder.Wasm
