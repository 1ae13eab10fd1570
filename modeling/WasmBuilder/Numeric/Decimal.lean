import WasmBuilder.Numeric.Arithmetic

/-!
Decimal text of floating-point numbers.

A number is written with the fewest digits that read back as the same number, the nearest such
digits when there is a choice, and never with an exponent. Reading accepts an optional sign, digits
with at most one point and an optional exponent, and the words for infinity and not-a-number.
-/

set_option autoImplicit false

namespace WasmBuilder.Numeric

structure Decimal where
  digits : Nat
  exponent : Int
  deriving DecidableEq, Repr

/-- The reals that round to a positive number, as ends of an interval in units of
`2 ^ (exponent - 2)`. The number itself stands at `4 · significand`. -/
structure RoundingInterval where
  low : Nat
  value : Nat
  high : Nat
  closed : Bool
  exponent : Int

namespace FloatLayout

/-- A power of two is nearer to its lower neighbour than to its upper one. An even significand
wins the ties at both ends. -/
def roundingInterval (f : FloatLayout) (x : Scaled) : RoundingInterval :=
  let m := x.significand
  let isPowerOfTwo := m = 2 ^ f.fractionBits ∧ f.leastExponent < x.exponent
  { low := 4 * m - (if isPowerOfTwo then 1 else 2)
    value := 4 * m
    high := 4 * m + 2
    closed := m % 2 = 0
    exponent := x.exponent - 2 }

end FloatLayout

namespace RoundingInterval

/-- The point of the grid of multiples of `10 ^ k` that lies in the interval, if one does. Of the
two neighbours of the value the nearer is taken, and the upper one when they are equally near. -/
def gridPoint? (i : RoundingInterval) (k : Int) : Option Decimal :=
  let unit := 2 ^ i.exponent.toNat * 10 ^ (-k).toNat
  let step := 10 ^ k.toNat * 2 ^ (-i.exponent).toNat
  let inside (n : Nat) : Bool :=
    let point := n * step
    if i.closed then i.low * unit ≤ point && point ≤ i.high * unit
    else i.low * unit < point && point < i.high * unit
  let below := i.value * unit / step
  let above := if below * step = i.value * unit then below else below + 1
  if inside below && inside above then
    if i.value * unit - below * step < above * step - i.value * unit then some ⟨below, k⟩
    else some ⟨above, k⟩
  else if inside below then some ⟨below, k⟩
  else if inside above then some ⟨above, k⟩
  else none

/-- The exponents of the grids that are tried, from coarse to fine. Above the first lie no finite
numbers, and the last is finer than the smallest distance of two numbers. -/
def gridExponents : List Int := (List.range 640).map fun (i : Nat) => 310 - (i : Int)

def shortest (i : RoundingInterval) : Decimal :=
  (gridExponents.findSome? i.gridPoint?).getD ⟨0, 0⟩

end RoundingInterval

namespace Decimal

/-- Positional text, with a point only where there are places behind it. -/
def text (d : Decimal) : String :=
  let digits := (Nat.toDigits 10 d.digits)
  match d.exponent with
  | .ofNat e => String.ofList (digits ++ List.replicate e '0')
  | .negSucc e =>
    let places := e + 1
    if places < digits.length then
      String.ofList (digits.take (digits.length - places) ++ '.' ::
        digits.drop (digits.length - places))
    else
      "0." ++ String.ofList (List.replicate (places - digits.length) '0' ++ digits)

end Decimal

def FloatLayout.text (f : FloatLayout) (bits : Nat) : String :=
  match f.decode bits with
  | .notANumber => "NaN"
  | .infinite negative => if negative then "-inf" else "inf"
  | .finite x =>
    let sign := if x.negative then "-" else ""
    if x.significand = 0 then sign ++ "0"
    else sign ++ (f.roundingInterval x).shortest.text

inductive Numeral where
  | notANumber (negative : Bool)
  | infinite (negative : Bool)
  | finite (negative : Bool) (value : Decimal)
  deriving DecidableEq, Repr

def splitSign : List Char → Bool × List Char
  | '-' :: rest => (true, rest)
  | '+' :: rest => (false, rest)
  | rest => (false, rest)

def digitsValue (cs : List Char) : Nat := cs.foldl (fun n c => 10 * n + (c.toNat - '0'.toNat)) 0

def readInteger? (cs : List Char) : Option Int :=
  let (negative, digits) := splitSign cs
  if digits.isEmpty || !digits.all Char.isDigit then none
  else some (if negative then -(digitsValue digits : Int) else digitsValue digits)

def readExponent? : List Char → Option Int
  | [] => some 0
  | c :: rest => if c = 'e' ∨ c = 'E' then readInteger? rest else none

def Numeral.read? (s : String) : Option Numeral :=
  let (negative, body) := splitSign s.toList
  let word := String.ofList (body.map Char.toLower)
  if word = "nan" then some (.notANumber negative)
  else if word = "inf" ∨ word = "infinity" then some (.infinite negative)
  else
    let whole := body.takeWhile Char.isDigit
    let rest := body.dropWhile Char.isDigit
    let (fraction, tail) :=
      match rest with
      | '.' :: rest => (rest.takeWhile Char.isDigit, rest.dropWhile Char.isDigit)
      | rest => ([], rest)
    if whole.isEmpty && fraction.isEmpty then none
    else
      (readExponent? tail).map fun e =>
        .finite negative ⟨digitsValue (whole ++ fraction), e - fraction.length⟩

namespace Decimal

def hugeMagnitude : Int := 400

def magnitude (d : Decimal) : Int := (Nat.toDigits 10 d.digits).length + d.exponent

/-- The pattern nearest to the number in a format. Numbers far outside the range are decided by
their magnitude, before any power of ten is formed. -/
def bits (f : FloatLayout) (d : Decimal) : Nat :=
  if d.digits = 0 ∨ d.magnitude < -hugeMagnitude then 0
  else if hugeMagnitude < d.magnitude then f.infinityBits
  else f.nearest (d.digits * 10 ^ d.exponent.toNat) (10 ^ (-d.exponent).toNat)

end Decimal

def Numeral.bits (f : FloatLayout) : Numeral → Nat
  | .notANumber negative => f.plainNaN negative
  | .infinite negative => f.infinity negative
  | .finite negative d => f.signed negative (d.bits f)

end WasmBuilder.Numeric
