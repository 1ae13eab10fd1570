import WasmBuilder.Numeric.Instances

/-!
Floating-point numbers as exact values.

`FloatLayout.decode` reads a bit pattern as not-a-number, an infinity, or a sign with a significand
scaled by a power of two. Truncation to an integer is exact from there; the two truncations differ
in what they do outside the range, where one saturates and the other has no answer.
-/

set_option autoImplicit false

namespace WasmBuilder.Numeric

structure Scaled where
  negative : Bool
  significand : Nat
  exponent : Int
  deriving DecidableEq, Repr

inductive FloatClass where
  | notANumber
  | infinite (negative : Bool)
  | finite (value : Scaled)
  deriving DecidableEq, Repr

/-- An interchange format, by the widths of its two lower fields. -/
structure FloatLayout where
  fractionBits : Nat
  exponentBits : Nat

namespace FloatLayout

def binary32 : FloatLayout := ⟨23, 8⟩
def binary64 : FloatLayout := ⟨52, 11⟩

def leastExponent (f : FloatLayout) : Int := 2 - 2 ^ (f.exponentBits - 1) - f.fractionBits

def decode (f : FloatLayout) (bits : Nat) : FloatClass :=
  let fraction := bits % 2 ^ f.fractionBits
  let biased := bits / 2 ^ f.fractionBits % 2 ^ f.exponentBits
  let negative := bits / 2 ^ (f.fractionBits + f.exponentBits) % 2 = 1
  if biased = 2 ^ f.exponentBits - 1 then
    if fraction = 0 then .infinite negative else .notANumber
  else if biased = 0 then
    .finite ⟨negative, fraction, f.leastExponent⟩
  else
    .finite ⟨negative, 2 ^ f.fractionBits + fraction, f.leastExponent + (biased - 1)⟩

end FloatLayout

namespace Scaled

def truncate (x : Scaled) : Int :=
  let magnitude : Nat :=
    match x.exponent with
    | .ofNat e => x.significand * 2 ^ e
    | .negSucc e => x.significand / 2 ^ (e + 1)
  if x.negative then -(magnitude : Int) else magnitude

end Scaled

namespace FloatClass

def truncate? (bits : Nat) : FloatClass → Option Int
  | .finite x =>
    let n := x.truncate
    if -(2 ^ (bits - 1) : Int) ≤ n ∧ n < 2 ^ (bits - 1) then some n else none
  | _ => none

def saturate (bits : Nat) : FloatClass → Int
  | .notANumber => 0
  | .infinite negative => if negative then -(2 ^ (bits - 1)) else 2 ^ (bits - 1) - 1
  | .finite x => max (-(2 ^ (bits - 1))) (min (2 ^ (bits - 1) - 1) x.truncate)

end FloatClass

end WasmBuilder.Numeric
