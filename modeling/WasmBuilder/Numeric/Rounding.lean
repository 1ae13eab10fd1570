import WasmBuilder.Numeric.Scaled

/-!
Rounding to a floating-point format.

`FloatLayout.nearest` takes an exact ratio to the bit pattern of the nearest number of a format. Of
two equally near ones it takes the even one, and ratios past the largest number become infinite.
Whatever has a ratio as its exact answer is rounded by it, once.
-/

set_option autoImplicit false

namespace WasmBuilder.Numeric

def roundQuotient (n d : Nat) : Nat :=
  if 2 * (n % d) < d ∨ 2 * (n % d) = d ∧ n / d % 2 = 0 then n / d else n / d + 1

namespace FloatLayout

def infinityBits (f : FloatLayout) : Nat := (2 ^ f.exponentBits - 1) * 2 ^ f.fractionBits

def signBits (f : FloatLayout) : Nat := 2 ^ (f.fractionBits + f.exponentBits)

def signed (f : FloatLayout) (negative : Bool) (magnitude : Nat) : Nat :=
  if negative then f.signBits + magnitude else magnitude

def binaryLog (n d : Nat) : Int :=
  let upper : Int := (n.log2 : Int) - d.log2
  if d * 2 ^ upper.toNat ≤ n * 2 ^ (-upper).toNat then upper else upper - 1

def lastPlace (f : FloatLayout) (n d : Nat) : Int :=
  max f.leastExponent (binaryLog n d - f.fractionBits)

/-- The pattern of the number nearest to `n / d`. A significand that rounds up to a power of two
carries into the exponent, and past the greatest one into infinity. -/
def nearest (f : FloatLayout) (n d : Nat) : Nat :=
  if n = 0 then 0
  else
    let e := f.lastPlace n d
    let significand := roundQuotient (n * 2 ^ (-e).toNat) (d * 2 ^ e.toNat)
    min f.infinityBits ((e - f.leastExponent).toNat * 2 ^ f.fractionBits + significand)

def ofRatio (f : FloatLayout) (negative : Bool) (n d : Nat) : Nat := f.signed negative (f.nearest n d)

def ofScaled (f : FloatLayout) (x : Scaled) : Nat :=
  f.ofRatio x.negative (x.significand * 2 ^ x.exponent.toNat) (2 ^ (-x.exponent).toNat)

def ofInt (f : FloatLayout) (z : Int) : Nat := f.ofRatio (z < 0) z.natAbs 1

end FloatLayout

end WasmBuilder.Numeric
