import WasmBuilder.Cli.Outcome

/-!
The command line program.
-/

set_option autoImplicit false

namespace WasmBuilder

def usageText : String := "Usage:
  build LIBRARY [-o FILE] [--no-optimize] [--no-validate] [--arg NAME=NUMBER]...
  run LIBRARY EXPORT [VALUE]... [--arg NAME=NUMBER]...
"

def versionText : String := "0.1.0"

def reportFailure (cause : Cli.Failure) : IO UInt32 := do
  IO.eprintln s!"Error: {cause.message}"
  return 1

end WasmBuilder

open WasmBuilder in
def main (words : List String) : IO UInt32 := do
  match Cli.Request.ofWords words with
  | .error .help => IO.print usageText; return 0
  | .error .version => IO.println versionText; return 0
  | .error .usage => IO.eprint usageText; return 2
  | .ok request =>
    match request.perform with
    | .failed cause => reportFailure cause
    | .panicked => return Cli.panicExit.toUInt32
    | .printed line => IO.println line; return 0
    | .binary path bytes =>
      try
        IO.FS.writeBinFile path ⟨bytes.toArray⟩
        return 0
      catch _ => reportFailure (.notWritten path)
