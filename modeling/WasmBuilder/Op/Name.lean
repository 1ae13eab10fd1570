import WasmBuilder.Op.Basic

/-!
Names of operations, and the way back from a name.
-/

set_option autoImplicit false

namespace WasmBuilder

def IntArith.name : IntArith → String
  | add => "Add" | sub => "Sub" | mul => "Mul"
  | divS => "DivS" | divU => "DivU" | remS => "RemS" | remU => "RemU"
  | and => "And" | or => "Or" | xor => "Xor"
  | shl => "Shl" | shrS => "ShrS" | shrU => "ShrU"

def IntRel.name : IntRel → String
  | eq => "Eq" | ne => "Ne"
  | ltS => "LtS" | ltU => "LtU" | gtS => "GtS" | gtU => "GtU"
  | leS => "LeS" | leU => "LeU" | geS => "GeS" | geU => "GeU"

def FloatArith.name : FloatArith → String
  | add => "Add" | sub => "Sub" | mul => "Mul" | div => "Div" | min => "Min" | max => "Max"

def FloatRel.name : FloatRel → String
  | eq => "Eq" | ne => "Ne" | lt => "Lt" | gt => "Gt" | le => "Le" | ge => "Ge"

def Width.intName : Width → String
  | w32 => "I32"
  | w64 => "I64"

def Width.floatName : Width → String
  | w32 => "F32"
  | w64 => "F64"

def Width.all : List Width := [w32, w64]

namespace BinOp

def name : BinOp → String
  | intArith w op => w.intName ++ op.name
  | intRel w op => w.intName ++ op.name
  | floatArith w op => w.floatName ++ op.name
  | floatRel w op => w.floatName ++ op.name

/-- The operation in messages: dotted for sums, differences and products, else its name. -/
def label (op : BinOp) : String :=
  match op with
  | intArith _ .add | floatArith _ .add => op.operandType.name ++ ".add"
  | intArith _ .sub | floatArith _ .sub => op.operandType.name ++ ".sub"
  | intArith _ .mul | floatArith _ .mul => op.operandType.name ++ ".mul"
  | _ => op.name

def all : List BinOp := Width.all.flatMap fun w =>
  [IntArith.add, .sub, .mul, .divS, .divU, .remS, .remU, .and, .or, .xor, .shl, .shrS, .shrU].map
      (intArith w) ++
  [IntRel.eq, .ne, .ltS, .ltU, .gtS, .gtU, .leS, .leU, .geS, .geU].map (intRel w) ++
  [FloatArith.add, .sub, .mul, .div, .min, .max].map (floatArith w) ++
  [FloatRel.eq, .ne, .lt, .gt, .le, .ge].map (floatRel w)

def ofName? (s : String) : Option BinOp := all.find? (·.name = s)

end BinOp

namespace UnOp

/-- The operation's name; conversions name the result type first and then the operand type. -/
def name : UnOp → String
  | eqz w => w.intName ++ "Eqz"
  | neg w => w.floatName ++ "Neg"
  | abs w => w.floatName ++ "Abs"
  | sqrt w => w.floatName ++ "Sqrt"
  | wrap => "I32WrapI64"
  | extendS => "I64ExtendI32S"
  | extendU => "I64ExtendI32U"
  | convert target source => target.floatName ++ "Convert" ++ source.intName ++ "S"
  | trunc target source => target.intName ++ "Trunc" ++ source.floatName ++ "S"
  | demote => "F32DemoteF64"
  | promote => "F64PromoteF32"

def all : List UnOp :=
  Width.all.flatMap (fun w => [eqz w, neg w, abs w, sqrt w]) ++
  [wrap, extendS, extendU, demote, promote] ++
  Width.all.flatMap fun target =>
    Width.all.flatMap fun source => [convert target source, trunc target source]

def ofName? (s : String) : Option UnOp := all.find? (·.name = s)

end UnOp

end WasmBuilder
