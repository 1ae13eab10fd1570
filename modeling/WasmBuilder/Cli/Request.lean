import WasmBuilder.Demo.Arguments

/-!
What a command line asks for.

A line starts with a subcommand. Options may stand before, between and after its positional
arguments, until `--` ends them.
-/

set_option autoImplicit false

namespace WasmBuilder.Cli

structure BuildRequest where
  library : String
  /-- Where the binary goes; the library's name decides if nothing is given. -/
  output : Option String
  optimize : Bool
  validate : Bool
  arguments : Demo.Arguments

structure RunRequest where
  library : String
  exported : String
  values : List String
  arguments : Demo.Arguments

inductive Request where
  | build (request : BuildRequest)
  | run (request : RunRequest)

inductive Refusal where
  | help
  | version
  /-- The line breaks a rule of the command line. -/
  | usage
  deriving DecidableEq, Repr

inductive Subcommand where
  | build
  | run
  deriving DecidableEq, Repr

inductive Flag where
  | noOptimize
  | noValidate
  deriving DecidableEq, Repr

inductive Setting where
  | output
  | argument
  deriving DecidableEq, Repr

/-- How one word of a line reads. -/
inductive Word where
  | positional
  | separator
  | flag (flag : Flag)
  /-- A setting with the value that is written in the same word. -/
  | setting (setting : Setting) (value : Option String)
  | help
  | unknown
  deriving DecidableEq, Repr

def Word.ofLong (s : Subcommand) (name : List Char) (value : Option String) : Word :=
  match s, String.ofList name, value with
  | _, "arg", v => .setting .argument v
  | .build, "output", v => .setting .output v
  | .build, "no-optimize", none => .flag .noOptimize
  | .build, "no-validate", none => .flag .noValidate
  | _, "help", none => .help
  | _, _, _ => .unknown

def Word.ofShort (s : Subcommand) : List Char → Word
  | 'h' :: _ => .help
  | 'o' :: value =>
    if s = .build then
      .setting .output <| match value with
        | [] => none
        | '=' :: value => some (.ofList value)
        | value => some (.ofList value)
    else .unknown
  | _ => .unknown

def isExponentMark (c : Char) : Bool := c = 'e' || c = 'E'

/-- Digits with at most one point, which is not the first character, and at most one exponent mark,
which is neither the first nor the last and stands behind the point. -/
def isUnsignedNumber (cs : List Char) : Bool :=
  let mantissa := cs.takeWhile (!isExponentMark ·)
  let whole := mantissa.takeWhile (· ≠ '.')
  let fraction := (mantissa.dropWhile (· ≠ '.')).drop 1
  let exponent := cs.dropWhile (!isExponentMark ·)
  !whole.isEmpty && whole.all Char.isDigit && fraction.all Char.isDigit &&
    (exponent.isEmpty || (exponent.length ≥ 2 && (exponent.drop 1).all Char.isDigit))

def splitAtEquals (cs : List Char) : List Char × Option (List Char) :=
  match cs.dropWhile (· ≠ '=') with
  | [] => (cs, none)
  | _ :: value => (cs.takeWhile (· ≠ '='), some value)

def Word.ofText (s : Subcommand) (numbers : Bool) (text : String) : Word :=
  match text.toList with
  | ['-', '-'] => .separator
  | '-' :: '-' :: long =>
    let (name, value) := splitAtEquals long
    .ofLong s name (value.map String.ofList)
  | '-' :: c :: short =>
    if numbers && isUnsignedNumber (c :: short) then .positional else .ofShort s (c :: short)
  | _ => .positional

structure Line where
  positionals : List String := []
  output : Option String := none
  flags : List Flag := []
  arguments : Demo.Arguments := []

namespace Line

def addPositional (s : Subcommand) (l : Line) (text : String) : Except Refusal Line :=
  if s = .build && l.positionals.length ≥ 1 then .error .usage
  else .ok { l with positionals := l.positionals ++ [text] }

def addFlag (l : Line) (f : Flag) : Except Refusal Line :=
  if f ∈ l.flags then .error .usage else .ok { l with flags := f :: l.flags }

def readArgument? (text : String) : Option (String × Number) :=
  match splitAtEquals text.toList with
  | (name, some value) => (Number.read? (.ofList value)).map (String.ofList name, ·)
  | (_, none) => none

def addSetting (l : Line) (value : String) : Setting → Except Refusal Line
  | .output =>
    if l.output.isSome || value.isEmpty then .error .usage
    else .ok { l with output := some value }
  | .argument =>
    match readArgument? value with
    | some a => .ok { l with arguments := l.arguments ++ [a] }
    | none => .error .usage

def isValue (text : String) : Bool := text = "-" || text.toList.head? ≠ some '-'

def read (s : Subcommand) (l : Line) : List String → Except Refusal Line
  | [] => .ok l
  | text :: rest =>
    match Word.ofText s (s = .run && l.positionals.length ≥ 2) text with
    | .positional => do read s (← l.addPositional s text) rest
    | .separator => rest.foldlM (addPositional s) l
    | .flag f => do read s (← l.addFlag f) rest
    | .setting o (some value) => do read s (← l.addSetting value o) rest
    | .setting o none =>
      match rest with
      | [] => .error .usage
      | value :: rest =>
        if isValue value then do read s (← l.addSetting value o) rest else .error .usage
    | .help => .error .help
    | .unknown => .error .usage

def request (l : Line) : Subcommand → Except Refusal Request
  | .build =>
    match l.positionals with
    | [library] => .ok (.build {
        library, output := l.output, arguments := l.arguments
        optimize := .noOptimize ∉ l.flags, validate := .noValidate ∉ l.flags })
    | _ => .error .usage
  | .run =>
    match l.positionals with
    | library :: exported :: values =>
      .ok (.run { library, exported, values, arguments := l.arguments })
    | _ => .error .usage

end Line

def Request.ofWords : List String → Except Refusal Request
  | "build" :: rest => do (← Line.read .build {} rest).request .build
  | "run" :: rest => do (← Line.read .run {} rest).request .run
  | "help" :: rest =>
    .error (if rest = [] || rest = ["build"] || rest = ["run"] || rest = ["help"] then .help
      else .usage)
  | word :: _ =>
    .error <| match word.toList with
      | '-' :: 'h' :: _ => .help
      | '-' :: 'V' :: _ => .version
      | _ => if word = "--help" then .help else if word = "--version" then .version else .usage
  | [] => .error .usage

end WasmBuilder.Cli
