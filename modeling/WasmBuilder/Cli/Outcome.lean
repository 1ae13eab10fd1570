import WasmBuilder.Build.Compile
import WasmBuilder.Cli.Request
import WasmBuilder.Demo.Catalog
import WasmBuilder.Text.SnakeCase
import WasmBuilder.Wasm.Instance

/-!
What a request on the command line comes to.
-/

set_option autoImplicit false

namespace WasmBuilder

def Build.after {α : Type} (build : Build) (step : BuildM α) : Except BuildError (α × Build) :=
  match step.run build with
  | .ok a b => .ok (a, b)
  | .error e _ => .error e

namespace Cli

inductive Failure where
  | unknownLibrary (name : String)
  | refused (cause : BuildError)
  | notCompiled (library : String)
  | notWritten (path : String)
  | noExport (library exported : String)
  | argumentCount (exported : String) (expected actual : Nat)
  | notANumber (text : String) (type : NumType)
  | stopped (cause : Wasm.RunError)

namespace Failure

def message : Failure → String
  | unknownLibrary name =>
    s!"unknown library `{name}`, expected one of: " ++
      ", ".intercalate (Demo.Name.all.map Demo.Name.text)
  | refused cause => cause.message
  | notCompiled library => s!"failed to compile `{library}`"
  | notWritten path => s!"failed to write {path}"
  | noExport library exported => s!"`{library}` has no export `{exported}`"
  | argumentCount exported expected actual =>
    s!"`{exported}` takes {expected} argument(s), got {actual}"
  | notANumber text type => s!"`{text}` is not a valid {type.name}"
  | stopped cause => cause.message

end Failure

/-- A fresh build with a demo library in it. The library may be named in any case style. -/
def mounted (library : String) (arguments : Demo.Arguments) : Except Failure (Library × Build) :=
  let name := Text.snakeCase library
  match Demo.Name.ofText? name with
  | none => .error (.unknownLibrary name)
  | some n => (Build.after {} (Demo.mount n arguments)).mapError .refused

namespace BuildRequest

def path (r : BuildRequest) : String := r.output.getD (Text.snakeCase r.library ++ ".wasm")

def binary (r : BuildRequest) : Except Failure (List UInt8) := do
  let (_, build) ← mounted r.library r.arguments
  match build.after (Build.compile { optimize := r.optimize, validate := r.validate }) with
  | .ok (bytes, _) => return bytes
  | .error _ => throw (.notCompiled r.library)

end BuildRequest

namespace RunRequest

def readValues : List String → List NumType → Except Failure (List Value)
  | text :: texts, type :: types => do
    match Value.read? text type with
    | some v => return v :: (← readValues texts types)
    | none => throw (.notANumber text type)
  | _, _ => return []

def arguments? (r : RunRequest) (library : Library) (build : Build) : Except Failure (List Value) := do
  let some callable := library.get? r.exported | throw (.noExport r.library r.exported)
  let some function := build.functions[callable]? | throw (.noExport r.library r.exported)
  let params := function.signature.params
  if params.length ≠ r.values.length then
    throw (.argumentCount r.exported params.length r.values.length)
  readValues r.values params

def results (r : RunRequest) : ExceptT Failure Option (List Value) := do
  let (library, build) ← MonadExcept.ofExcept (mounted r.library r.arguments)
  let arguments ← MonadExcept.ofExcept (r.arguments? library build)
  match (Build.start {} {}).run (build, []) with
  | .error (.build cause) _ => throw (.refused cause)
  | .error (.load (.failed cause)) _ => throw (.stopped cause)
  | .error (.load .panicked) _ => ExceptT.mk none
  | .ok running _ =>
    match (Wasm.Instance.call {} r.exported arguments).run running with
    | .ok results _ => return results
    | .error cause _ => throw (.stopped cause)

end RunRequest

inductive Outcome where
  | failed (cause : Failure)
  | printed (line : String)
  | binary (path : String) (bytes : List UInt8)
  | panicked

def panicExit : Nat := 101

def Request.perform : Request → Outcome
  | .build r =>
    match r.binary with
    | .ok bytes => .binary r.path bytes
    | .error cause => .failed cause
  | .run r =>
    match r.results.run with
    | none => .panicked
    | some (.ok values) => .printed (" ".intercalate (values.map Value.numeral))
    | some (.error cause) => .failed cause

end Cli

end WasmBuilder
