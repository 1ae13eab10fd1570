import WasmBuilder.Numeric.Rounding

/-!
Arithmetic on floating-point bit patterns.

An operation decodes its operands, computes the exact result and rounds it once. An operand that is
not a number is the answer, made quiet; of two such operands the first one. An operation on numbers
that has no answer leaves one certain pattern of not-a-number.
-/

set_option autoImplicit false

namespace WasmBuilder.Numeric

namespace Scaled

def multipleOf (x : Scaled) (e : Int) : Int :=
  let magnitude := x.significand * 2 ^ (x.exponent - e).toNat
  if x.negative then -(magnitude : Int) else magnitude

def negate (x : Scaled) : Scaled := { x with negative := !x.negative }

/-- The exact sum. A sum of zero is negative only when both operands are. -/
def add (x y : Scaled) : Scaled :=
  let e := min x.exponent y.exponent
  let sum := x.multipleOf e + y.multipleOf e
  { negative := if sum = 0 then x.negative && y.negative else sum < 0
    significand := sum.natAbs
    exponent := e }

def mul (x y : Scaled) : Scaled :=
  { negative := x.negative ^^ y.negative
    significand := x.significand * y.significand
    exponent := x.exponent + y.exponent }

def compare (x y : Scaled) : Ordering :=
  let e := min x.exponent y.exponent
  Ord.compare (x.multipleOf e) (y.multipleOf e)

end Scaled

namespace FloatClass

def negate : FloatClass → FloatClass
  | notANumber => notANumber
  | infinite negative => infinite (!negative)
  | finite x => finite x.negate

def compare? : FloatClass → FloatClass → Option Ordering
  | finite x, finite y => some (x.compare y)
  | infinite s, infinite t => some (if s = t then .eq else if s then .lt else .gt)
  | infinite s, finite _ => some (if s then .lt else .gt)
  | finite _, infinite t => some (if t then .gt else .lt)
  | _, _ => none

end FloatClass

def floorSqrt (n : Nat) : Nat :=
  if n = 0 then 0
  else
    let doubled := 2 * floorSqrt (n / 4)
    if (doubled + 1) * (doubled + 1) ≤ n then doubled + 1 else doubled
termination_by n
decreasing_by omega

inductive IntegralRounding where
  | up
  | down
  | towardZero
  | toNearest
  deriving DecidableEq, Repr

/-- The magnitude of `n / d`, under a sign, as a rounded integer. -/
def IntegralRounding.apply (mode : IntegralRounding) (negative : Bool) (n d : Nat) : Nat :=
  let outward := if n % d = 0 then n / d else n / d + 1
  match mode with
  | up => if negative then n / d else outward
  | down => if negative then outward else n / d
  | towardZero => n / d
  | toNearest => roundQuotient n d

namespace FloatLayout

variable (f : FloatLayout)

def isNaN (bits : Nat) : Bool := f.decode bits = .notANumber

def quiet (bits : Nat) : Nat := bits ||| 2 ^ (f.fractionBits - 1)

def plainNaN (negative : Bool) : Nat := f.signed negative (f.quiet f.infinityBits)

def invalid : Nat := f.plainNaN true

def infinity (negative : Bool) : Nat := f.signed negative f.infinityBits

def lift (op : FloatClass → Nat) (a : Nat) : Nat :=
  if f.isNaN a then f.quiet a else op (f.decode a)

def lift₂ (op : FloatClass → FloatClass → Nat) (a b : Nat) : Nat :=
  if f.isNaN a then f.quiet a
  else if f.isNaN b then f.quiet b
  else op (f.decode a) (f.decode b)

def addClass : FloatClass → FloatClass → Nat
  | .finite x, .finite y => f.ofScaled (x.add y)
  | .infinite s, .infinite t => if s = t then f.infinity s else f.invalid
  | .infinite s, .finite _ | .finite _, .infinite s => f.infinity s
  | _, _ => f.invalid

def mulClass : FloatClass → FloatClass → Nat
  | .finite x, .finite y => f.ofScaled (x.mul y)
  | .infinite s, .infinite t => f.infinity (s ^^ t)
  | .infinite s, .finite x | .finite x, .infinite s =>
    if x.significand = 0 then f.invalid else f.infinity (s ^^ x.negative)
  | _, _ => f.invalid

def divClass : FloatClass → FloatClass → Nat
  | .finite x, .finite y =>
    let negative := x.negative ^^ y.negative
    if y.significand = 0 then
      if x.significand = 0 then f.invalid else f.infinity negative
    else
      f.ofRatio negative (x.significand * 2 ^ (x.exponent - y.exponent).toNat)
        (y.significand * 2 ^ (y.exponent - x.exponent).toNat)
  | .infinite s, .finite y => f.infinity (s ^^ y.negative)
  | .finite x, .infinite t => f.signed (x.negative ^^ t) 0
  | _, _ => f.invalid

def add (a b : Nat) : Nat := f.lift₂ f.addClass a b
def sub (a b : Nat) : Nat := f.lift₂ (fun x y => f.addClass x y.negate) a b
def mul (a b : Nat) : Nat := f.lift₂ f.mulClass a b
def div (a b : Nat) : Nat := f.lift₂ f.divClass a b

/-- The square root of a positive value: an integer root of the scaled significand, with two
places more than the format has. A remainder counts as half of the last of them, so that it is not
taken for a tie. -/
def sqrtScaled (x : Scaled) : Scaled :=
  let places := f.fractionBits + 2
  let odd := x.exponent % 2
  let scaled := x.significand * 2 ^ odd.toNat * 4 ^ places
  let root := floorSqrt scaled
  { negative := false
    significand := 2 * root + if root * root = scaled then 0 else 1
    exponent := (x.exponent - odd) / 2 - places - 1 }

def sqrtClass : FloatClass → Nat
  | .finite x =>
    if x.significand = 0 then f.signed x.negative 0
    else if x.negative then f.invalid
    else f.ofScaled (f.sqrtScaled x)
  | .infinite false => f.infinity false
  | _ => f.invalid

def sqrt (a : Nat) : Nat := f.lift f.sqrtClass a

def integralClass (mode : IntegralRounding) : FloatClass → Nat
  | .finite x =>
    let n := x.significand * 2 ^ x.exponent.toNat
    let d := 2 ^ (-x.exponent).toNat
    f.ofRatio x.negative (mode.apply x.negative n d) 1
  | .infinite s => f.infinity s
  | .notANumber => f.invalid

def toIntegral (mode : IntegralRounding) (a : Nat) : Nat := f.lift (f.integralClass mode) a

def neg (a : Nat) : Nat := a ^^^ f.signBits

def abs (a : Nat) : Nat := a % f.signBits

def copySign (a b : Nat) : Nat := a % f.signBits + b / f.signBits * f.signBits

def compare? (a b : Nat) : Option Ordering := (f.decode a).compare? (f.decode b)

/-- The lesser operand; negative zero is below zero. Not-a-number wins, the second operand first. -/
def minimum (a b : Nat) : Nat :=
  if f.isNaN b then f.quiet b
  else if f.isNaN a then f.quiet a
  else match f.compare? a b with
    | some .lt => a
    | some .gt => b
    | _ => a ||| b

/-- The greater operand; zero is above negative zero. Not-a-number wins, the second operand
first. -/
def maximum (a b : Nat) : Nat :=
  if f.isNaN b then f.quiet b
  else if f.isNaN a then f.quiet a
  else match f.compare? a b with
    | some .lt => b
    | some .gt => a
    | _ => a &&& b

/-- The nearest pattern of another format. Of a pattern of not-a-number the sign and the leading
bits of the fraction are kept, and it is made quiet. -/
def convert (source target : FloatLayout) (bits : Nat) : Nat :=
  match source.decode bits with
  | .finite x => target.ofScaled x
  | .infinite s => target.infinity s
  | .notANumber =>
    let fraction := bits % 2 ^ source.fractionBits * 2 ^ target.fractionBits / 2 ^ source.fractionBits
    target.quiet (target.signed (source.signBits ≤ bits) (target.infinityBits + fraction))

end FloatLayout

end WasmBuilder.Numeric
