import WasmBuilder.Numeric.Instances

/-!
The four number types of the machine, and call signatures over them.
-/

set_option autoImplicit false

namespace WasmBuilder

/-- A value type of the machine. -/
inductive NumType where
  | i32
  | i64
  | f32
  | f64
  deriving DecidableEq, Repr

namespace NumType

def name : NumType → String
  | .i32 => "i32"
  | .i64 => "i64"
  | .f32 => "f32"
  | .f64 => "f64"

def all : List NumType := [.i32, .i64, .f32, .f64]

def ofName? (s : String) : Option NumType := all.find? (·.name = s)

def isFloat : NumType → Bool
  | .i32 | .i64 => false
  | .f32 | .f64 => true

/-- The natural alignment of a memory access, as the binary logarithm of its width in bytes. -/
def alignLog2 : NumType → Nat
  | .i32 | .f32 => 2
  | .i64 | .f64 => 3

def byteWidth (t : NumType) : Nat := 2 ^ t.alignLog2

end NumType

/-- The flattened type of a function: what it takes from the stack and what it leaves there. -/
structure Signature where
  params : List NumType
  results : List NumType
  deriving DecidableEq, Repr

end WasmBuilder
