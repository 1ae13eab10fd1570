import WasmBuilder.Build.Basic

/-!
Declarations: functions, host functions, globals, libraries, exports and the memory.

A declaration that fails adds nothing to the lists of the build, but marks the build as failed, and
the expressions and global variables that its body made stay. The order of declarations fixes
function numbers, table slots and the order of exports.
-/

set_option autoImplicit false

namespace WasmBuilder

/-- What is declared of a function with a body. -/
structure FunctionDecl where
  /-- Without an id the function gets the first free numbered one. -/
  id : Option String := none
  params : Bindings := []
  result : Shape := .auto
  locals : Bindings := []
  isExported : Bool := true

structure ExternalDecl where
  key : ImportKey := ⟨"namespace", "name"⟩
  id : Option String := none
  params : Bindings := []
  result : Shape := .none

namespace ExternalDecl

def signature (d : ExternalDecl) : Signature := ⟨d.params.flatten, d.result.flatten⟩

end ExternalDecl

namespace Build

def guarded {α : Type} (step : BuildM α) : BuildM α := fun b =>
  match step b with
  | .ok a b => .ok a b
  | .error e b => .error e { b with failed := true }

def isTaken (b : Build) (id : String) : Bool := b.functions.any (·.id = id)

/-- The id `stem ++ n` with the least free `n` from the number of callables on. One of the first
numbers is free, since there are not more functions than that. -/
def numberedId (b : Build) (stem : String) : String :=
  let candidates := (List.range (b.functions.size + 1)).map fun i =>
    stem ++ toString (b.callables.size + i)
  (candidates.find? fun id => !b.isTaken id).getD stem

def freshId (id : Option String) (stem : String) : BuildM String := do
  let b ← get
  match id with
  | some id => if b.isTaken id then throw (.duplicateId id) else return id
  | none => return b.numberedId stem

def newBody (b : Build) (locals : Scope) (fresh : Storage) (result : Shape) : Body :=
  { arena := b.arena, globals := b.globals, callables := b.callables, locals, fresh, result }

def keep (body : Body) : BuildM Unit :=
  modify fun b => { b with arena := body.arena, globals := body.globals }

def abandon {α : Type} (body : Body) (e : BuildError) : BuildM α := guarded do
  keep body
  throw e

def addFunction (f : Function) (c : Callable) (isExported : Bool) : BuildM Nat :=
  modifyGet fun b =>
    let number := b.callables.size
    (number, { b with
      functions := b.functions.push f
      callables := b.callables.push c
      pending := if isExported then number :: b.pending else b.pending })

def chooseKind (isIndirect : Bool) (id : String) (params : Bindings) (result : Shape) :
    BuildM CallKind := do
  let b ← get
  if isIndirect then
    match b.table.append b.functions.size id params result with
    | .ok table =>
      set { b with table }
      return .indirect b.table.size
    | .error e => throw e
  else return .direct

/-- A declared function whose body is not finished yet. -/
structure Draft where
  isIndirect : Bool
  id : String
  decl : FunctionDecl

def openFunction (isIndirect : Bool) (decl : FunctionDecl) : BuildM (Draft × Body) := guarded do
  let id ← freshId decl.id (if isIndirect then "indirect" else "func")
  let locals := (({} : Scope).declareAll decl.params .param).declareAll decl.locals .local
  return (⟨isIndirect, id, decl⟩, (← get).newBody locals .local decl.result)

def closeFunction (draft : Draft) (body : Body) : BuildM Nat := guarded do
  keep body
  let ⟨isIndirect, id, decl⟩ := draft
  let result := body.finalResult
  let func := (← get).functions.size
  let kind ← chooseKind isIndirect id decl.params result
  addFunction
    { id, params := decl.params.map (·.2), result, kind := .defined body.locals body.statements }
    { id, func, kind, params := decl.params, result }
    decl.isExported

def define {α : Type} (isIndirect : Bool) (decl : FunctionDecl) (init : BodyM α) :
    BuildM (Nat × α) := do
  let (draft, body) ← openFunction isIndirect decl
  match init.run body with
  | .ok a body => return (← closeFunction draft body, a)
  | .error e body => abandon body e

def func {α : Type} (decl : FunctionDecl) (init : BodyM α) : BuildM (Nat × α) :=
  define false decl init

def indirect {α : Type} (decl : FunctionDecl) (init : BodyM α) : BuildM (Nat × α) :=
  define true decl init

/-- Declares a function of the host, which is registered under the declared key. -/
def external (decl : ExternalDecl) (host : Signature → HostFunction) : BuildM Nat := guarded do
  let id ← freshId decl.id "external"
  let func := (← get).functions.size
  modify fun b => { b with imports := b.imports.insert decl.key (.func (host decl.signature)) }
  addFunction
    { id, params := decl.params.map (·.2), result := decl.result, kind := .imported decl.key }
    { id, func, kind := .external, params := decl.params, result := decl.result }
    false

def openGlobals (defs : Bindings) : BuildM Body :=
  modifyGet fun b =>
    let b := { b with globals := b.globals.declareAll defs .global }
    (b.newBody {} .global .none, b)

def closeGlobals (body : Body) : BuildM Unit := do
  keep body
  modify fun b => { b with startBody := b.startBody ++ body.statements }

/-- Declares global variables. The statements of `init` run when the module is instantiated, and
names that it binds first become globals too. -/
def declareGlobals {α : Type} (defs : Bindings) (init : BodyM α) : BuildM α := do
  match init.run (← openGlobals defs) with
  | .ok a body =>
    closeGlobals body
    return a
  | .error e body => abandon body e

/-- Exports a callable that was declared for export and is not exported yet. Answers whether it
did. -/
def exportAs (name : String) (callable : Nat) : BuildM Bool := do
  let b ← get
  if callable ∈ b.pending then
    let b := { b with pending := b.pending.erase callable }
    match b.callables[callable]? with
    | some c =>
      set { b with exports := b.exports ++ [(name, c.func)] }
      return true
    | none =>
      set b
      return false
  else return false

def mounted? (b : Build) (key : String) : Option Library := b.libraries.lookup key

def adopt (key : String) (library : Library) : BuildM Unit := do
  library.entries.forM fun e => do let _ ← exportAs e.1 e.2
  modify fun b => { b with libraries := (key, library) :: b.libraries }

def mount (key : String) (build : BuildM Library) : BuildM Library := do
  match (← get).mounted? key with
  | some library => return library
  | none =>
    let library ← guarded build
    adopt key library
    return library

def useMemory (decl : MemoryDecl) : BuildM Unit :=
  modify fun b => { b with
    imports := b.imports.insert decl.key (.memory ⟨decl.initial, some decl.maximum⟩)
    memory := some decl }

def literal (value : Number) (shape : Shape) : BuildM ExprId := do
  match shape with
  | .num t =>
    modifyGet fun b =>
      (b.arena.size, { b with arena := b.arena.push (.const (.ofNumber value t)) (some shape) })
  | _ => throw (.literalShape shape)

def indirectInfo? (b : Build) (callable : Nat) : Option IndirectInfo :=
  match b.callables[callable]? with
  | some ⟨_, _, .indirect slot, _, _⟩ => b.table.info? slot
  | _ => none

end Build

end WasmBuilder
