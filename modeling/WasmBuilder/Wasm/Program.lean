import WasmBuilder.Wasm.Exec

/-!
Functions of a running module, and calls between them.

Calls nest as deep as the stack goes. Every call in progress holds a frame, whose size depends on
the function; a call that finds no room for another one traps. A call in tail position gives its
frame up first.
-/

set_option autoImplicit false

namespace WasmBuilder.Wasm

inductive FuncInstance where
  | host (key : ImportKey) (f : HostFunction)
  | code (type : FuncType) (locals : List ValType) (body : List Instr)

def FuncInstance.type : FuncInstance → FuncType
  | host _ f => f.signature.funcType
  | code t _ _ => t

def callHost (key : ImportKey) (f : HostFunction) (s : Store) (args : List Value) : CallOutcome :=
  let called := { s with journal := ⟨key, f.recording, args⟩ :: s.journal }
  match f.results? s.journal args with
  | some results => .done (results.map .num) called
  | none => .trap .host called

/-- What running functions share: everything about a module but its store. -/
structure Program where
  types : Array FuncType
  funcs : Array FuncInstance
  signatures : Array FuncType := funcs.map FuncInstance.type
  /-- How much of the stack each function takes while it runs. -/
  frames : Array Nat
  memories : Array Nat

namespace Program

def env (p : Program) (rounds : Nat) (call : Nat → Store → List Datum → CallOutcome) : Env where
  types := p.types
  signatures := p.signatures
  memories := p.memories
  rounds := rounds
  call := call

/-- Runs functions one after the other, each of which names the next one, at most `rounds` of
them. -/
def runChain (run : Nat → Store → List Datum → BodyOutcome) :
    (rounds : Nat) → Nat → Store → List Datum → CallOutcome
  | 0, _, _, _ => .exhausted
  | rounds + 1, f, s, args =>
    match run f s args with
    | .done results s => .done results s
    | .tail f args s => runChain run rounds f s args
    | .trap cause s => .trap cause s
    | .exhausted => .exhausted

def frame (p : Program) (f : Nat) : Nat := p.frames.getD f 1

/-- Runs one function, on a stack with this much room, given what calls do in the room that is
left. -/
def runOne (p : Program) (rounds room : Nat)
    (call : (room : Nat) → Nat → Store → List Datum → CallOutcome) (f : Nat) (s : Store)
    (args : List Datum) : BodyOutcome :=
  match p.funcs[f]? with
  | some (.host key host) =>
    match callHost key host s (args.filterMap Datum.value?) with
    | .done results s => .done results s
    | .trap cause s => .trap cause s
    | .exhausted => .exhausted
  | some (.code type locals body) =>
    if room < p.frame f then .trap .callDepth s
    else runBody (p.env rounds (call (room - p.frame f))) type locals body s args
  | none => .trap .illTyped s

/-- Calls a function on a stack with this much room. Further calls may nest `depth` deep, which is
no bound when it is not below the room, as every frame takes some. -/
def invoke (p : Program) (rounds : Nat) :
    (depth room : Nat) → Nat → Store → List Datum → CallOutcome
  | 0, _, _, s, _ => .trap .callDepth s
  | depth + 1, room, f, s, args =>
    runChain (p.runOne rounds room (invoke p rounds depth)) rounds f s args

end Program

end WasmBuilder.Wasm
