import WasmBuilder.Op.Basic

/-!
Operations as a caller writes them, before the operand type is known.

`BinaryKind.select` and `UnaryKind.select` pick the operation for an operand type. What they pick
takes operands of exactly that type.
-/

set_option autoImplicit false

namespace WasmBuilder

/-- An operation on two numbers whose type the operands decide. A trailing `U` reads integers as
unsigned. -/
inductive BinaryKind where
  | add | sub | mul | div | divU | rem | remU | and | or | xor | shl | shr | shrU
  | eq | ne | lt | ltU | le | leU | gt | gtU | ge | geU
  | min | max
  deriving DecidableEq, Repr

/-- An operation on one number. Conversions between integers and floats name their target. -/
inductive UnaryKind where
  | eqz | neg | abs | sqrt | wrap | extend | extendU
  | convert (target : NumType)
  | trunc (target : NumType)
  | promote | demote
  deriving DecidableEq, Repr

namespace BinaryKind

def label : BinaryKind → String
  | add => "add" | sub => "sub" | mul => "mul" | div => "div" | divU => "divu"
  | rem => "rem" | remU => "remu" | and => "and" | or => "or" | xor => "xor"
  | shl => "shl" | shr => "shr" | shrU => "shru"
  | eq => "eq" | ne => "ne" | lt => "lt" | ltU => "ltu" | le => "le" | leU => "leu"
  | gt => "gt" | gtU => "gtu" | ge => "ge" | geU => "geu"
  | min => "min" | max => "max"

def all : List BinaryKind :=
  [add, sub, mul, div, divU, rem, remU, and, or, xor, shl, shr, shrU,
    eq, ne, lt, ltU, le, leU, gt, gtU, ge, geU, min, max]

def ofLabel? (s : String) : Option BinaryKind := all.find? (·.label = s)

def selectInt (w : Width) : BinaryKind → Option BinOp
  | add => some (.intArith w .add)
  | sub => some (.intArith w .sub)
  | mul => some (.intArith w .mul)
  | div => some (.intArith w .divS)
  | divU => some (.intArith w .divU)
  | rem => some (.intArith w .remS)
  | remU => some (.intArith w .remU)
  | and => some (.intArith w .and)
  | or => some (.intArith w .or)
  | xor => some (.intArith w .xor)
  | shl => some (.intArith w .shl)
  | shr => some (.intArith w .shrS)
  | shrU => some (.intArith w .shrU)
  | eq => some (.intRel w .eq)
  | ne => some (.intRel w .ne)
  | lt => some (.intRel w .ltS)
  | ltU => some (.intRel w .ltU)
  | le => some (.intRel w .leS)
  | leU => some (.intRel w .leU)
  | gt => some (.intRel w .gtS)
  | gtU => some (.intRel w .gtU)
  | ge => some (.intRel w .geS)
  | geU => some (.intRel w .geU)
  | min | max => none

def selectFloat (w : Width) : BinaryKind → Option BinOp
  | add => some (.floatArith w .add)
  | sub => some (.floatArith w .sub)
  | mul => some (.floatArith w .mul)
  | div => some (.floatArith w .div)
  | min => some (.floatArith w .min)
  | max => some (.floatArith w .max)
  | eq => some (.floatRel w .eq)
  | ne => some (.floatRel w .ne)
  | lt => some (.floatRel w .lt)
  | le => some (.floatRel w .le)
  | gt => some (.floatRel w .gt)
  | ge => some (.floatRel w .ge)
  | divU | rem | remU | and | or | xor | shl | shr | shrU | ltU | leU | gtU | geU => none

/-- The operation for operands of a type, if the kind is defined there. -/
def select (kind : BinaryKind) : NumType → Option BinOp
  | .i32 => kind.selectInt .w32
  | .i64 => kind.selectInt .w64
  | .f32 => kind.selectFloat .w32
  | .f64 => kind.selectFloat .w64

theorem operandType_of_select {kind : BinaryKind} {t : NumType} {op : BinOp}
    (h : kind.select t = some op) : op.operandType = t := by
  cases t <;> cases kind <;> simp [select, selectInt, selectFloat] at h <;> subst h <;> rfl

end BinaryKind

namespace UnaryKind

def label : UnaryKind → String
  | eqz => "eqz" | neg => "neg" | abs => "abs" | sqrt => "sqrt"
  | wrap => "wrap" | extend => "extend" | extendU => "extendu"
  | convert target => "convert to " ++ target.name
  | trunc target => "trunc to " ++ target.name
  | promote => "promote" | demote => "demote"

def all (target : NumType) : List UnaryKind :=
  [eqz, neg, abs, sqrt, wrap, extend, extendU, convert target, trunc target, promote, demote]

/-- The operation for an operand of a type, if the kind is defined there. -/
def select : UnaryKind → NumType → Option UnOp
  | eqz, .i32 => some (.eqz .w32)
  | eqz, .i64 => some (.eqz .w64)
  | neg, .f32 => some (.neg .w32)
  | neg, .f64 => some (.neg .w64)
  | abs, .f32 => some (.abs .w32)
  | abs, .f64 => some (.abs .w64)
  | sqrt, .f32 => some (.sqrt .w32)
  | sqrt, .f64 => some (.sqrt .w64)
  | wrap, .i64 => some .wrap
  | extend, .i32 => some .extendS
  | extendU, .i32 => some .extendU
  | convert .f32, .i32 => some (.convert .w32 .w32)
  | convert .f32, .i64 => some (.convert .w32 .w64)
  | convert .f64, .i32 => some (.convert .w64 .w32)
  | convert .f64, .i64 => some (.convert .w64 .w64)
  | trunc .i32, .f32 => some (.trunc .w32 .w32)
  | trunc .i32, .f64 => some (.trunc .w32 .w64)
  | trunc .i64, .f32 => some (.trunc .w64 .w32)
  | trunc .i64, .f64 => some (.trunc .w64 .w64)
  | promote, .f32 => some .promote
  | demote, .f64 => some .demote
  | _, _ => none

theorem operandType_of_select {kind : UnaryKind} {t : NumType} {op : UnOp}
    (h : kind.select t = some op) : op.operandType = t := by
  unfold select at h
  split at h <;> simp_all <;> subst h <;> rfl

end UnaryKind

end WasmBuilder
