import WasmBuilder.Build.Declare
import WasmBuilder.Lower.Module
import WasmBuilder.Simplify.Build
import WasmBuilder.Wasm.Check
import WasmBuilder.Wasm.Encode
import WasmBuilder.Wasm.Instance

/-!
From a build to a finished binary, and to a running instance.
-/

set_option autoImplicit false

namespace WasmBuilder

structure CompileOptions where
  optimize : Bool := true
  validate : Bool := true
  /-- A memory to import, in place of the one the build has. -/
  memory : Option MemoryDecl := none
  /-- The name under which the function table is exported. -/
  tableExport : Option String := none

namespace Build

def requireUsable : BuildM Unit := do
  if (← get).failed then throw .aborted

def importMemory : Option MemoryDecl → BuildM Unit
  | none => return
  | some decl => do if (← get).memory ≠ some decl then useMemory decl

def simplifyIf (wanted : Bool) : BuildM Unit := do
  if wanted then let _ ← simplify

def lowered (options : CompileOptions) : BuildM Wasm.Module := do
  match (← get).lower options.tableExport with
  | .error e => throw e
  | .ok m => if options.validate && !m.isValid then throw .invalidModule else return m

def assemble (options : CompileOptions) : BuildM Wasm.Module := do
  requireUsable
  importMemory options.memory
  simplifyIf options.optimize
  lowered options

def compile (options : CompileOptions) : BuildM (List UInt8) := do
  return (← assemble options).encode

def load (b : Build) (bytes : List UInt8) (bounds : Wasm.Bounds) : Wasm.HostM Wasm.Instance :=
  Wasm.load bytes b.imports bounds

def loadWith (b : Build) (bytes : List UInt8) (extra : Imports) (bounds : Wasm.Bounds) :
    Wasm.HostM Wasm.Instance :=
  Wasm.load bytes (b.imports.merge extra) bounds

inductive StartError where
  | build (cause : BuildError)
  | load (cause : Wasm.Halt)

/-- Compiles the build and loads the binary. The calls of the host go on in the journal, whether the
start succeeds or not. -/
def start (options : CompileOptions) (bounds : Wasm.Bounds) :
    EStateM StartError (Build × List HostCall) Wasm.Instance := fun s =>
  match compile options s.1 with
  | .error e b => .error (.build e) (b, s.2)
  | .ok bytes b =>
    match b.load bytes bounds s.2 with
    | .error e journal => .error (.load e) (b, journal)
    | .ok i journal => .ok i (b, journal)

end Build

end WasmBuilder
