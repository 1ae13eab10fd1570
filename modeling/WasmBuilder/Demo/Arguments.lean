import WasmBuilder.Value

/-!
Arguments that a library is mounted with.
-/

set_option autoImplicit false

namespace WasmBuilder.Demo

/-- Named numbers. Of several under one name the last counts. -/
abbrev Arguments := List (String × Number)

def Arguments.integer (args : Arguments) (name : String) (default : BitVec 64) : BitVec 64 :=
  match args.reverse.lookup name with
  | some n => n.toInt64
  | none => default

end WasmBuilder.Demo
