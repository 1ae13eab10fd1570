import WasmBuilder.Numeric.Instances

/-!
Variable-length integers: seven bits to a byte, the lowest first, and the high bit set on all bytes
but the last. Writing uses the shortest form; reading accepts padding up to the length that the
width of the integer allows.
-/

set_option autoImplicit false

namespace WasmBuilder.Wasm.Leb128

def continued (n : Nat) : UInt8 := UInt8.ofNat (n % 128 + 128)

def unsigned (n : Nat) : List UInt8 :=
  if n < 128 then [UInt8.ofNat n] else continued n :: unsigned (n / 128)
termination_by n
decreasing_by omega

/-- The shortest form of an integer; bit six of the last byte is the sign. -/
def signed (z : Int) : List UInt8 :=
  if -64 ≤ z ∧ z < 64 then [UInt8.ofNat (z.emod 128).toNat]
  else continued (z.emod 128).toNat :: signed (z / 128)
termination_by z.natAbs
decreasing_by omega

def readUnsigned (bits : Nat) : List UInt8 → Option (Nat × List UInt8)
  | [] => none
  | b :: rest =>
    let low := b.toNat % 128
    if 2 ^ bits ≤ low then none
    else if b.toNat < 128 then some (low, rest)
    else if bits ≤ 7 then none
    else (readUnsigned (bits - 7) rest).map fun (n, rest) => (low + 128 * n, rest)

def readSigned (bits : Nat) : List UInt8 → Option (Int × List UInt8)
  | [] => none
  | b :: rest =>
    let low := b.toNat % 128
    if b.toNat < 128 then
      let value : Int := if low < 64 then low else low - 128
      if -(2 ^ (bits - 1)) ≤ value ∧ value < 2 ^ (bits - 1) then some (value, rest) else none
    else if bits ≤ 7 then none
    else (readSigned (bits - 7) rest).map fun (n, rest) => (low + 128 * n, rest)

theorem readUnsigned_unsigned (bits n : Nat) (rest : List UInt8) (h : n < 2 ^ bits) :
    readUnsigned bits (unsigned n ++ rest) = some (n, rest) := by
  -- on the number, of which each byte takes seven bits
  induction n using Nat.strongRecOn generalizing bits with
  | ind n ih =>
    rw [unsigned]
    by_cases small : n < 128
    · have byte : (UInt8.ofNat n).toNat = n := by
        simp only [UInt8.toNat_ofNat']
        omega
      have low : n % 128 = n := Nat.mod_eq_of_lt small
      simp [small, readUnsigned, byte, low, Nat.not_le.mpr h]
    · have byte : (continued n).toNat = n % 128 + 128 := by
        simp only [continued, UInt8.toNat_ofNat']
        omega
      have low : (n % 128 + 128) % 128 = n % 128 := by omega
      have wide : 7 < bits := by
        by_cases wide : 7 < bits
        · exact wide
        · have : 2 ^ bits ≤ 2 ^ 7 := Nat.pow_le_pow_right (by decide) (by omega)
          omega
      have split : 2 ^ bits = 128 * 2 ^ (bits - 7) := by
        have : (2 : Nat) ^ bits = 2 ^ (7 + (bits - 7)) := by congr 1; omega
        rw [this, Nat.pow_add]
      have inside : n / 128 < 2 ^ (bits - 7) := by
        rw [Nat.div_lt_iff_lt_mul (by decide), Nat.mul_comm, ← split]
        exact h
      have fits : ¬ 2 ^ bits ≤ n % 128 :=
        Nat.not_le.mpr (Nat.lt_of_le_of_lt (Nat.mod_le _ _) h)
      have more : ¬ n % 128 + 128 < 128 := by omega
      simp only [small, ↓reduceIte, List.cons_append, readUnsigned, byte, low, fits, more,
        Nat.not_le.mpr wide, ih (n / 128) (by omega) (bits - 7) inside, Option.map_some,
        Option.some.injEq, Prod.mk.injEq, and_true]
      omega

end WasmBuilder.Wasm.Leb128
