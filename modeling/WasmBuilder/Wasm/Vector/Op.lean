import WasmBuilder.Wasm.Opcode
import WasmBuilder.Wasm.Vector.Lane

/-!
Operations on vectors, with their types and their numbers in the binary form.

Most operations come once for each width of lanes, and their numbers lie at the same distance from
the number at which the operations of that width start. Not every operation exists at every width:
`Op.isProper` says which do, and `Op.all` lists those that are told by their number alone.
-/

set_option autoImplicit false

namespace WasmBuilder.Wasm.Vector

open Numeric (IntegralRounding)

inductive BitsOp where
  | and
  /-- The first operand where the second one has no bit. -/
  | andNot
  | or
  | xor
  deriving DecidableEq, Repr

inductive IntUnary where
  | abs
  | neg
  | ones
  deriving DecidableEq, Repr

inductive IntBinary where
  | add
  | addSat (isSigned : Bool)
  | sub
  | subSat (isSigned : Bool)
  | mul
  | min (isSigned : Bool)
  | max (isSigned : Bool)
  | average
  /-- The product of two fractions of 15 bits, rounded and clamped. -/
  | mulFraction
  deriving DecidableEq, Repr

inductive Shift where
  | left
  | right (isSigned : Bool)
  deriving DecidableEq, Repr

inductive FloatUnary where
  | abs
  | neg
  | sqrt
  | integral (mode : IntegralRounding)
  deriving DecidableEq, Repr

inductive FloatBinary where
  | add
  | sub
  | mul
  | div
  | min
  | max
  /-- The second operand where it is less, else the first. -/
  | pseudoMin
  /-- The second operand where it is greater, else the first. -/
  | pseudoMax
  deriving DecidableEq, Repr

/-- Operations whose results may depend on the machine in odd cases. -/
inductive Relaxed where
  | swizzle
  | trunc (source : Width) (isSigned : Bool)
  /-- The product of two operands, negated or not, plus the third one. -/
  | mulAdd (width : Width) (negated : Bool)
  | laneSelect (lane : Lane)
  | min (width : Width)
  | max (width : Width)
  | mulFraction
  | dot
  | dotAdd
  deriving DecidableEq, Repr

inductive Op where
  | splat (lane : Lane)
  | splatFloat (width : Width)
  | extract (lane : Lane) (isSigned : Bool) (index : Nat)
  | extractFloat (width : Width) (index : Nat)
  | replace (lane : Lane) (index : Nat)
  | replaceFloat (width : Width) (index : Nat)
  | shuffle (places : List Nat)
  /-- Picks bytes of one vector by the bytes of another. -/
  | swizzle
  | bitwise (op : BitsOp)
  | not
  /-- Bits of the first operand where the third one has ones, else of the second. -/
  | bitSelect
  | anyTrue
  | allTrue (lane : Lane)
  | bitmask (lane : Lane)
  | intUnary (lane : Lane) (op : IntUnary)
  | intBinary (lane : Lane) (op : IntBinary)
  | intRel (lane : Lane) (op : IntRel)
  | shift (lane : Lane) (op : Shift)
  /-- The lanes of two vectors, clamped to half their width. -/
  | narrow (target : Lane) (isSigned : Bool)
  /-- One half of the lanes, at twice their width. -/
  | extend (target : Lane) (fromHigh isSigned : Bool)
  | extendMul (target : Lane) (fromHigh isSigned : Bool)
  | extendAdd (target : Lane) (isSigned : Bool)
  /-- The sums of neighbouring products, at twice the width. -/
  | dot
  | floatUnary (width : Width) (op : FloatUnary)
  | floatBinary (width : Width) (op : FloatBinary)
  | floatRel (width : Width) (op : FloatRel)
  | trunc (source : Width) (isSigned : Bool)
  | convert (target : Width) (isSigned : Bool)
  | demote
  | promote
  | relaxed (op : Relaxed)
  deriving DecidableEq, Repr

namespace IntUnary

def existsFor (lane : Lane) : IntUnary → Bool
  | abs | neg => true
  | ones => lane = .i8

end IntUnary

namespace IntBinary

def existsFor (lane : Lane) : IntBinary → Bool
  | add | sub => true
  | addSat _ | subSat _ | average => lane = .i8 || lane = .i16
  | mul => lane ≠ .i8
  | min _ | max _ => lane ≠ .i64
  | mulFraction => lane = .i16

end IntBinary

namespace Op

def isProper : Op → Bool
  | extract lane isSigned index =>
    index < lane.count && (isSigned || lane = .i8 || lane = .i16)
  | replace lane index => index < lane.count
  | extractFloat w index | replaceFloat w index => index < 128 / w.bits
  | shuffle places => places.length = 16 && places.all (· < 32)
  | intUnary lane op => op.existsFor lane
  | intBinary lane op => op.existsFor lane
  | intRel .i64 op => op ∉ [.ltU, .gtU, .leU, .geU]
  | narrow target _ => target = .i8 || target = .i16
  | extend target _ _ | extendMul target _ _ => target ≠ .i8
  | extendAdd target _ => target = .i16 || target = .i32
  | _ => true

def type : Op → FuncType
  | splat lane => ⟨[lane.valType], [.vec]⟩
  | splatFloat w => ⟨[.num w.float], [.vec]⟩
  | extract lane _ _ => ⟨[.vec], [lane.valType]⟩
  | extractFloat w _ => ⟨[.vec], [.num w.float]⟩
  | replace lane _ => ⟨[.vec, lane.valType], [.vec]⟩
  | replaceFloat w _ => ⟨[.vec, .num w.float], [.vec]⟩
  | anyTrue | allTrue _ | bitmask _ => ⟨[.vec], [.i32]⟩
  | shift _ _ => ⟨[.vec, .i32], [.vec]⟩
  | not | intUnary _ _ | extend _ _ _ | extendAdd _ _ | floatUnary _ _ | trunc _ _ | convert _ _
  | demote | promote | relaxed (.trunc _ _) => ⟨[.vec], [.vec]⟩
  | bitSelect | relaxed (.mulAdd _ _) | relaxed (.laneSelect _) | relaxed .dotAdd =>
    ⟨[.vec, .vec, .vec], [.vec]⟩
  | shuffle _ | swizzle | bitwise _ | intBinary _ _ | intRel _ _ | narrow _ _ | extendMul _ _ _
  | dot | floatBinary _ _ | floatRel _ _ | relaxed _ => ⟨[.vec, .vec], [.vec]⟩

end Op

def Lane.base : Lane → Nat
  | i8 => 96
  | i16 => 128
  | i32 => 160
  | i64 => 192

def floatBase : Width → Nat
  | .w32 => 224
  | .w64 => 236

def signOffset (isSigned : Bool) : Nat := if isSigned then 0 else 1

namespace BitsOp

def index : BitsOp → Nat
  | and => 0
  | andNot => 1
  | or => 2
  | xor => 3

end BitsOp

namespace IntUnary

def index : IntUnary → Nat
  | abs => 0
  | neg => 1
  | ones => 2

end IntUnary

namespace IntBinary

def index : IntBinary → Nat
  | mulFraction => 2
  | add => 14
  | addSat s => 15 + signOffset s
  | sub => 17
  | subSat s => 18 + signOffset s
  | mul => 21
  | min s => 22 + signOffset s
  | max s => 24 + signOffset s
  | average => 27

end IntBinary

namespace FloatBinary

def index : FloatBinary → Nat
  | add => 4
  | sub => 5
  | mul => 6
  | div => 7
  | min => 8
  | max => 9
  | pseudoMin => 10
  | pseudoMax => 11

end FloatBinary

def signedRelIndex : IntRel → Nat
  | .eq => 0
  | .ne => 1
  | .ltS | .ltU => 2
  | .gtS | .gtU => 3
  | .leS | .leU => 4
  | .geS | .geU => 5

def integralNumber : Width → IntegralRounding → Nat
  | .w32, .up => 103
  | .w32, .down => 104
  | .w32, .towardZero => 105
  | .w32, .toNearest => 106
  | .w64, .up => 116
  | .w64, .down => 117
  | .w64, .towardZero => 122
  | .w64, .toNearest => 148

def widthOffset : Width → Nat
  | .w32 => 0
  | .w64 => 1

namespace Relaxed

def number : Relaxed → Nat
  | swizzle => 256
  | trunc w s => 257 + 2 * widthOffset w + signOffset s
  | mulAdd w negated => 261 + 2 * widthOffset w + if negated then 1 else 0
  | laneSelect lane => 265 + lane.log2
  | min w => 269 + 2 * widthOffset w
  | max w => 270 + 2 * widthOffset w
  | mulFraction => 273
  | dot => 274
  | dotAdd => 275

end Relaxed

namespace Op

def number : Op → Nat
  | shuffle _ => 13
  | swizzle => 14
  | splat lane => 15 + lane.log2
  | splatFloat w => 19 + widthOffset w
  | extract .i8 s _ => 21 + signOffset s
  | replace .i8 _ => 23
  | extract .i16 s _ => 24 + signOffset s
  | replace .i16 _ => 26
  | extract .i32 _ _ => 27
  | replace .i32 _ => 28
  | extract .i64 _ _ => 29
  | replace .i64 _ => 30
  | extractFloat w _ => 31 + 2 * widthOffset w
  | replaceFloat w _ => 32 + 2 * widthOffset w
  | intRel .i8 op => 35 + op.index
  | intRel .i16 op => 45 + op.index
  | intRel .i32 op => 55 + op.index
  | intRel .i64 op => 214 + signedRelIndex op
  | floatRel w op => 65 + 6 * widthOffset w + op.index
  | not => 77
  | bitwise op => 78 + op.index
  | bitSelect => 82
  | anyTrue => 83
  | demote => 94
  | promote => 95
  | intUnary lane op => lane.base + op.index
  | allTrue lane => lane.base + 3
  | bitmask lane => lane.base + 4
  | narrow lane s => lane.base + 5 + signOffset s
  | extend lane fromHigh s => lane.base + 7 + (if fromHigh then 1 else 0) + 2 * signOffset s
  | shift lane .left => lane.base + 11
  | shift lane (.right s) => lane.base + 12 + signOffset s
  | intBinary lane op => lane.base + op.index
  | dot => 186
  | extendMul lane fromHigh s => lane.base + 28 + (if fromHigh then 1 else 0) + 2 * signOffset s
  | extendAdd lane s => 124 + 2 * (lane.log2 - 1) + signOffset s
  | floatUnary w (.integral mode) => integralNumber w mode
  | floatUnary w .abs => floatBase w
  | floatUnary w .neg => floatBase w + 1
  | floatUnary w .sqrt => floatBase w + 3
  | floatBinary w op => floatBase w + op.index
  | trunc w s => 248 + 4 * widthOffset w + signOffset s
  | convert w s => 250 + 4 * widthOffset w + signOffset s
  | relaxed op => op.number

/-- Every operation that is told by its number alone. -/
def all : List Op :=
  let widths := [Width.w32, .w64]
  let signs := [true, false]
  let perLane (l : Lane) : List Op :=
    [splat l, allTrue l, bitmask l, shift l .left, shift l (.right true), shift l (.right false)] ++
    [IntUnary.abs, .neg, .ones].map (intUnary l) ++
    [IntBinary.add, .sub, .mul, .average, .mulFraction].map (intBinary l) ++
    signs.flatMap (fun s =>
      [intBinary l (.addSat s), intBinary l (.subSat s), intBinary l (.min s), intBinary l (.max s),
        narrow l s, extendAdd l s, extend l false s, extend l true s, extendMul l false s,
        extendMul l true s]) ++
    [IntRel.eq, .ne, .ltS, .ltU, .gtS, .gtU, .leS, .leU, .geS, .geU].map (intRel l) ++
    [relaxed (.laneSelect l)]
  let perWidth (w : Width) : List Op :=
    [splatFloat w, relaxed (.min w), relaxed (.max w), relaxed (.mulAdd w false),
      relaxed (.mulAdd w true)] ++
    [FloatUnary.abs, .neg, .sqrt, .integral .up, .integral .down, .integral .towardZero,
      .integral .toNearest].map (floatUnary w) ++
    [FloatBinary.add, .sub, .mul, .div, .min, .max, .pseudoMin, .pseudoMax].map (floatBinary w) ++
    [FloatRel.eq, .ne, .lt, .gt, .le, .ge].map (floatRel w) ++
    signs.flatMap fun s => [trunc w s, convert w s, relaxed (.trunc w s)]
  ([swizzle, not, bitSelect, anyTrue, dot, demote, promote, relaxed .swizzle, relaxed .mulFraction,
      relaxed .dot, relaxed .dotAdd] ++
    [BitsOp.and, .andNot, .or, .xor].map bitwise ++
    Lane.all.flatMap perLane ++ widths.flatMap perWidth).filter isProper

def ofNumber? (n : Nat) : Option Op := all.find? (·.number = n)

def onLane? (n index : Nat) : Option Op :=
  let candidates : List Op :=
    Lane.all.flatMap (fun l => [extract l true index, extract l false index, replace l index]) ++
    [Width.w32, .w64].flatMap fun w => [extractFloat w index, replaceFloat w index]
  candidates.find? fun op => op.number = n && op.isProper

end Op

end WasmBuilder.Wasm.Vector
