import WasmBuilder.Cli.Outcome

/-!
Command lines in a directory without subdirectories, whose files are kept as data.
-/

set_option autoImplicit false

namespace WasmBuilder.Cli

structure Directory where
  files : List (String × List UInt8) := []

namespace Directory

def longestName : Nat := 255

def longestPath : Nat := 4095

def sinks : List String := ["null", "zero", "random", "urandom"]

def isSink : List String → Bool
  | ["", "dev", name] => sinks.contains name
  | _ => false

/-- The steps of a path without those that stay where they are: empty ones and points, except at
the end. What comes first is kept if it is empty, since the path then starts at the root. -/
def steps : List String → List String
  | [] => []
  | first :: rest => if first = "." then later rest else first :: later rest
where
  later : List String → List String
    | [] => []
    | [last] => [last]
    | step :: rest => if step = "" ∨ step = "." then later rest else step :: later rest

def fileName? : List String → Option String
  | [name] =>
    if name = "" ∨ name = "." ∨ name = ".." ∨ longestName < name.utf8ByteSize then none
    else some name
  | _ => none

def write? (d : Directory) (path : String) (bytes : List UInt8) : Option Directory :=
  let way := steps (path.splitOn "/")
  if longestPath < path.utf8ByteSize then none
  else if isSink way then some d
  else (fileName? way).map fun name => ⟨d.files.filter (·.1 ≠ name) ++ [(name, bytes)]⟩

end Directory

structure Report where
  exit : Nat
  output : String := ""
  errors : String := ""
  directory : Directory

/-- What a command line does in a directory. Texts on usage and version belong to the terminal. -/
def report (d : Directory) (words : List String) : Report :=
  let failed (cause : Failure) : Report :=
    { exit := 1, errors := s!"Error: {cause.message}", directory := d }
  match Request.ofWords words with
  | .error .help | .error .version => { exit := 0, directory := d }
  | .error .usage => { exit := 2, directory := d }
  | .ok request =>
    match request.perform with
    | .failed cause => failed cause
    | .panicked => { exit := panicExit, directory := d }
    | .printed line => { exit := 0, output := line ++ "\n", directory := d }
    | .binary path bytes =>
      match d.write? path bytes with
      | some d => { exit := 0, directory := d }
      | none => failed (.notWritten path)

end WasmBuilder.Cli
