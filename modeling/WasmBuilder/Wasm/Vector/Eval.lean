import WasmBuilder.Wasm.Vector.Op

/-!
What operations on vectors do.

Each is a map over lanes. Float lanes obey the same arithmetic as single floats, but of operands
that are no numbers a minimum or maximum keeps only what the machine's instructions leave.
-/

set_option autoImplicit false

namespace WasmBuilder.Wasm.Vector

open Numeric (FloatLayout FloatClass IntegralRounding)

namespace BitsOp

def eval (op : BitsOp) (u v : BitVec 128) : BitVec 128 :=
  match op with
  | and => u &&& v
  | andNot => u &&& ~~~v
  | or => u ||| v
  | xor => u ^^^ v

end BitsOp

def selectBits {w : Nat} (u v mask : BitVec w) : BitVec w := u &&& mask ||| v &&& ~~~mask

namespace IntUnary

def eval {w : Nat} (op : IntUnary) (a : BitVec w) : BitVec w :=
  match op with
  | abs => if a.msb then -a else a
  | neg => -a
  | ones => a.cpop

end IntUnary

def fractionProduct {w : Nat} (a b : BitVec w) : Int :=
  (a.toInt * b.toInt + 2 ^ (w - 2)) / 2 ^ (w - 1)

namespace IntBinary

def eval {w : Nat} (op : IntBinary) (a b : BitVec w) : BitVec w :=
  match op with
  | add => a + b
  | addSat s => clamp s w (valueOf s a + valueOf s b)
  | sub => a - b
  | subSat s => clamp s w (valueOf s a - valueOf s b)
  | mul => a * b
  | min s => if valueOf s a ≤ valueOf s b then a else b
  | max s => if valueOf s a ≤ valueOf s b then b else a
  | average => BitVec.ofNat w ((a.toNat + b.toNat + 1) / 2)
  | mulFraction => clampSigned w (fractionProduct a b)

end IntBinary

namespace Shift

def eval {w : Nat} (op : Shift) (amount : Nat) (a : BitVec w) : BitVec w :=
  match op with
  | left => a <<< (amount % w)
  | right true => a.sshiftRight (amount % w)
  | right false => a >>> (amount % w)

end Shift

namespace FloatUnary

def eval (op : FloatUnary) (f : FloatLayout) : Nat → Nat :=
  match op with
  | abs => f.abs
  | neg => f.neg
  | sqrt => f.sqrt
  | integral mode => f.toIntegral mode

end FloatUnary

def preferSecond (f : FloatLayout) (order : Ordering) (a b : Nat) : Nat :=
  if f.compare? b a = some order then b else a

def laneMin (f : FloatLayout) (a b : Nat) : Nat :=
  if f.isNaN a || f.isNaN b then f.invalid else f.minimum a b

/-- The greater lane. An operand that is no number leaves not-a-number with the sign of either
operand. -/
def laneMax (f : FloatLayout) (a b : Nat) : Nat :=
  if f.isNaN a || f.isNaN b then f.plainNaN (f.signBits ≤ a || f.signBits ≤ b) else f.maximum a b

namespace FloatBinary

def eval (op : FloatBinary) (f : FloatLayout) : Nat → Nat → Nat :=
  match op with
  | add => f.add
  | sub => f.sub
  | mul => f.mul
  | div => f.div
  | min => laneMin f
  | max => laneMax f
  | pseudoMin => preferSecond f .lt
  | pseudoMax => preferSecond f .gt

end FloatBinary

def mulAddClass (f : FloatLayout) : FloatClass → FloatClass → FloatClass → Nat
  | .finite x, .finite y, .finite z => f.ofScaled ((x.mul y).add z)
  | .finite _, .finite _, .infinite s => f.infinity s
  | x, y, z =>
    let product := f.mulClass x y
    f.addClass (f.decode product) z

/-- The product of two floats, negated or not, plus a third one, rounded once. An operand that is no
number is the answer, the second factor before the first one. -/
def fusedMulAdd (f : FloatLayout) (negated : Bool) (a b c : Nat) : Nat :=
  if f.isNaN b then f.quiet b
  else if f.isNaN a then f.quiet a
  else if f.isNaN c then f.quiet c
  else mulAddClass f (f.decode (if negated then f.neg a else a)) (f.decode b) (f.decode c)

def truncOrLeast (c : FloatClass) : BitVec 32 :=
  match c.truncate? 32 with
  | some n => BitVec.ofInt 32 n
  | none => BitVec.intMin 32

/-- The float lanes of a vector, truncated to integers of 32 bits. Where there are only two, zeros
follow. -/
def truncLanes (w : Width) (f : FloatClass → BitVec 32) (v : BitVec 128) : BitVec 128 :=
  ofLanes ((lanes w.bits v).map fun a => f (w.layout.decode a.toNat))

def convertLanes (w : Width) (isSigned : Bool) (v : BitVec 128) : BitVec 128 :=
  ofLanes (((lanes 32 v).take (128 / w.bits)).map fun a =>
    BitVec.ofNat w.bits (w.layout.ofInt (valueOf isSigned a)))

def halfLanes (w : Nat) (fromHigh : Bool) (v : BitVec 128) : List (BitVec w) :=
  let half := 128 / w / 2
  if fromHigh then (lanes w v).drop half else (lanes w v).take half

def extendMulLanes (w : Nat) (fromHigh isSigned : Bool) (u v : BitVec 128) : BitVec 128 :=
  ofLanes ((halfLanes w fromHigh u).zipWith
    (fun a b => widen isSigned (2 * w) a * widen isSigned (2 * w) b) (halfLanes w fromHigh v))

def extendAddLanes (w : Nat) (isSigned : Bool) (v : BitVec 128) : BitVec 128 :=
  ofLanes (pairUp (fun a b => widen isSigned (2 * w) a + widen isSigned (2 * w) b) (lanes w v))

def dotLanes (w : Nat) (u v : BitVec 128) : BitVec 128 :=
  let products := (lanes w u).zipWith
    (fun a b => a.signExtend (2 * w) * b.signExtend (2 * w)) (lanes w v)
  ofLanes (pairUp (· + ·) products)

def mixedDot (u v : BitVec 128) : BitVec 128 :=
  let products := (lanes 8 u).zipWith (fun a b => a.toInt * (b.toNat : Int)) (lanes 8 v)
  ofLanes (pairUp (fun x y => clampSigned 16 (x + y)) products)

def narrowLanes (target : Nat) (isSigned : Bool) (u v : BitVec 128) : BitVec 128 :=
  ofLanes ((lanes (2 * target) u ++ lanes (2 * target) v).map fun a =>
    clamp isSigned target a.toInt)

def pickBytes (bytes : List (BitVec 8)) (places : List Nat) : BitVec 128 :=
  ofLanes (places.map fun i => bytes.getD i 0)

namespace Relaxed

def swizzleLow (v places : BitVec 128) : BitVec 128 :=
  pickBytes (lanes 8 v) ((lanes 8 places).map fun i =>
    if i.msb then 16 else i.toNat % 16)

def selectLanes (lane : Lane) (u v mask : BitVec 128) : BitVec 128 :=
  if lane = .i16 then selectBits u v mask
  else
    let widened := mapLanes lane.bits (fun m => truth lane.bits m.msb) mask
    selectBits u v widened

def eval : Relaxed → List (BitVec 128) → Option (BitVec 128)
  | swizzle, [u, v] => some (swizzleLow u v)
  | trunc .w32 true, [v] => some (truncLanes .w32 truncOrLeast v)
  | trunc w s, [v] => some (truncLanes w (saturateTo s 32) v)
  | mulAdd w negated, [u, v, x] =>
    let join (a b c : BitVec w.bits) : BitVec w.bits :=
      .ofNat w.bits (fusedMulAdd w.layout negated a.toNat b.toNat c.toNat)
    let factors := (lanes w.bits u).zip (lanes w.bits v)
    some (ofLanes (factors.zipWith (fun p c => join p.1 p.2 c) (lanes w.bits x)))
  | laneSelect lane, [u, v, mask] => some (selectLanes lane u v mask)
  | min w, [u, v] =>
    some (zipLanes w.bits (onWords fun a b => preferSecond w.layout .lt b a) u v)
  | max w, [u, v] =>
    some (zipLanes w.bits (onWords fun a b => preferSecond w.layout .gt b a) u v)
  | mulFraction, [u, v] =>
    some (zipLanes 16 (fun a b => BitVec.ofInt 16 (fractionProduct a b)) u v)
  | dot, [u, v] => some (mixedDot u v)
  | dotAdd, [u, v, x] =>
    some (zipLanes 32 (· + ·) (extendAddLanes 16 true (mixedDot u v)) x)
  | _, _ => none

end Relaxed

namespace Op

def evalVectors : Op → List (BitVec 128) → Option (BitVec 128)
  | shuffle places, [u, v] => some (pickBytes (lanes 8 u ++ lanes 8 v) places)
  | swizzle, [u, v] => some (pickBytes (lanes 8 u) ((lanes 8 v).map BitVec.toNat))
  | bitwise op, [u, v] => some (op.eval u v)
  | not, [v] => some (~~~v)
  | bitSelect, [u, v, mask] => some (selectBits u v mask)
  | intUnary lane op, [v] => some (mapLanes lane.bits op.eval v)
  | intBinary lane op, [u, v] => some (zipLanes lane.bits op.eval u v)
  | intRel lane op, [u, v] =>
    some (zipLanes lane.bits (fun a b => truth lane.bits (op.eval a b)) u v)
  | narrow lane s, [u, v] => some (narrowLanes lane.bits s u v)
  | extend lane fromHigh s, [v] =>
    lane.half?.map fun half =>
      ofLanes ((halfLanes half.bits fromHigh v).map (widen s lane.bits))
  | extendMul lane fromHigh s, [u, v] =>
    lane.half?.map fun half => extendMulLanes half.bits fromHigh s u v
  | extendAdd lane s, [v] => lane.half?.map fun half => extendAddLanes half.bits s v
  | dot, [u, v] => some (dotLanes 16 u v)
  | floatUnary w op, [v] => some (mapLanes w.bits (onWord w.bits (op.eval w.layout)) v)
  | floatBinary w op, [u, v] => some (zipLanes w.bits (onWords (op.eval w.layout)) u v)
  | floatRel w op, [u, v] =>
    some (zipLanes w.bits (fun a b => truth w.bits (op.eval w.layout a b)) u v)
  | trunc w s, [v] => some (truncLanes w (saturateTo s 32) v)
  | convert w s, [v] => some (convertLanes w s v)
  | demote, [v] =>
    some (ofLanes ((lanes 64 v).map (onWord 32 (FloatLayout.convert .binary64 .binary32))))
  | promote, [v] =>
    some (ofLanes (((lanes 32 v).take 2).map (onWord 64 (FloatLayout.convert .binary32 .binary64))))
  | relaxed op, vs => op.eval vs
  | _, _ => none

def floatDatum : (w : Width) → BitVec w.bits → Datum
  | .w32, x => .num (.f32 x)
  | .w64, x => .num (.f64 x)

def floatBits? : (w : Width) → Datum → Option (BitVec w.bits)
  | .w32, .num (.f32 x) => some x
  | .w64, .num (.f64 x) => some x
  | _, _ => none

def replaceLane {w : Nat} (v : BitVec 128) (index : Nat) (x : BitVec w) : BitVec 128 :=
  ofLanes ((lanes w v).set index x)

/-- What an operation leaves of its operands, the first one first. -/
def eval : Op → List Datum → Option Datum
  | splat lane, [d] => do
    return .vec (ofLanes (List.replicate lane.count (← lane.ofDatum? d)))
  | splatFloat w, [d] => do
    return .vec (ofLanes (List.replicate (128 / w.bits) (← floatBits? w d)))
  | extract lane s index, [.vec v] => do
    return lane.datum s (← (lanes lane.bits v)[index]?)
  | extractFloat w index, [.vec v] => do return floatDatum w (← (lanes w.bits v)[index]?)
  | replace lane index, [.vec v, d] => do return .vec (replaceLane v index (← lane.ofDatum? d))
  | replaceFloat w index, [.vec v, d] => do return .vec (replaceLane v index (← floatBits? w d))
  | anyTrue, [.vec v] => some (.ofBool (v != 0))
  | allTrue lane, [.vec v] => some (.ofBool ((lanes lane.bits v).all (· != 0)))
  | bitmask lane, [.vec v] =>
    some (.i32 ((lanes lane.bits v).foldr (fun a rest => rest <<< 1 ||| if a.msb then 1 else 0) 0))
  | shift lane op, [.vec v, .i32 amount] =>
    some (.vec (mapLanes lane.bits (op.eval amount.toNat) v))
  | op, operands => do
    let vs ← operands.mapM fun d => match d with | .vec v => some v | _ => none
    return .vec (← op.evalVectors vs)

end Op

end WasmBuilder.Wasm.Vector
