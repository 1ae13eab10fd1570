import WasmBuilder.Wasm.Type
import WasmBuilder.Wasm.MachineOp

/-!
The bytes that stand for types and operations in a binary module.
-/

set_option autoImplicit false

namespace WasmBuilder

def NumType.code : NumType → UInt8
  | .i32 => 0x7f
  | .i64 => 0x7e
  | .f32 => 0x7d
  | .f64 => 0x7c

def NumType.ofCode? (b : UInt8) : Option NumType :=
  [NumType.i32, .i64, .f32, .f64].find? (·.code = b)

theorem NumType.ofCode?_code (t : NumType) : ofCode? t.code = some t := by
  cases t <;> rfl

namespace Wasm

/-- The byte of a reference type, which is also that of null references of the type. -/
def RefType.code : RefType → UInt8
  | func => 0x70
  | external => 0x6f

def RefType.ofCode? (b : UInt8) : Option RefType := all.find? (·.code = b)

def ValType.code : ValType → UInt8
  | num t => t.code
  | vec => 0x7b
  | ref t => t.code

def nullableByte : UInt8 := 0x63

def ValType.ofCode? (b : UInt8) : Option ValType := all.find? (·.code = b)

theorem ValType.ofCode?_code (t : ValType) : ofCode? t.code = some t := by
  cases t with
  | num t => cases t <;> rfl
  | vec => rfl
  | ref t => cases t <;> rfl

end Wasm

def IntArith.index : IntArith → Nat
  | add => 0 | sub => 1 | mul => 2 | divS => 3 | divU => 4 | remS => 5 | remU => 6
  | and => 7 | or => 8 | xor => 9 | shl => 10 | shrS => 11 | shrU => 12

def IntRel.index : IntRel → Nat
  | eq => 0 | ne => 1 | ltS => 2 | ltU => 3 | gtS => 4 | gtU => 5
  | leS => 6 | leU => 7 | geS => 8 | geU => 9

def FloatArith.index : FloatArith → Nat
  | add => 0 | sub => 1 | mul => 2 | div => 3 | min => 4 | max => 5

def FloatRel.index : FloatRel → Nat
  | eq => 0 | ne => 1 | lt => 2 | gt => 3 | le => 4 | ge => 5

namespace BinOp

def code (op : BinOp) : UInt8 :=
  UInt8.ofNat <| match op with
  | intRel .w32 op => 0x46 + op.index
  | intRel .w64 op => 0x51 + op.index
  | floatRel .w32 op => 0x5b + op.index
  | floatRel .w64 op => 0x61 + op.index
  | intArith .w32 op => 0x6a + op.index
  | intArith .w64 op => 0x7c + op.index
  | floatArith .w32 op => 0x92 + op.index
  | floatArith .w64 op => 0xa0 + op.index

end BinOp

namespace UnOp

def code : UnOp → UInt8
  | eqz .w32 => 0x45
  | eqz .w64 => 0x50
  | abs .w32 => 0x8b
  | neg .w32 => 0x8c
  | sqrt .w32 => 0x91
  | abs .w64 => 0x99
  | neg .w64 => 0x9a
  | sqrt .w64 => 0x9f
  | wrap => 0xa7
  | trunc .w32 .w32 => 0xa8
  | trunc .w32 .w64 => 0xaa
  | extendS => 0xac
  | extendU => 0xad
  | trunc .w64 .w32 => 0xae
  | trunc .w64 .w64 => 0xb0
  | convert .w32 .w32 => 0xb2
  | convert .w32 .w64 => 0xb4
  | demote => 0xb6
  | convert .w64 .w32 => 0xb7
  | convert .w64 .w64 => 0xb9
  | promote => 0xbb

end UnOp

def NumType.loadCode : NumType → UInt8
  | .i32 => 0x28
  | .i64 => 0x29
  | .f32 => 0x2a
  | .f64 => 0x2b

def NumType.storeCode : NumType → UInt8
  | .i32 => 0x36
  | .i64 => 0x37
  | .f32 => 0x38
  | .f64 => 0x39

namespace Wasm

def loadPartCode (w : Width) (part : Part) (isSigned : Bool) : UInt8 :=
  (if w = .w32 then 0x2c else 0x30) + UInt8.ofNat (2 * part.log2) + if isSigned then 0 else 1

def storePartCode (w : Width) (part : Part) : UInt8 :=
  (if w = .w32 then 0x3a else 0x3c) + UInt8.ofNat part.log2

def partAccesses : List (Width × Part) :=
  [Width.w32, .w64].flatMap fun w => (Part.all.filter (·.isProper w)).map fun p => (w, p)

end Wasm

end WasmBuilder
