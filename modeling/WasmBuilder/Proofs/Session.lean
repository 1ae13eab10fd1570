import WasmBuilder.Body.Step
import WasmBuilder.Build.Compile

/-!
All that can happen to a build, as a relation between its states.

A session is a build with the body that is open in it, if one is, and the operands that were handed
out so far. A step of a body may fail and leave the body open, a body may be given up, and the build
may be simplified or compiled between bodies, with or without success.
-/

set_option autoImplicit false

namespace WasmBuilder

namespace Body.Step

def isRaw : Step → Bool
  | raw .. => true
  | _ => false

def operands : Step → List Operand
  | read _ | literal .. | memorySize => []
  | write _ value => [.plain value]
  | assign pairs => pairs.map fun p => .plain p.2
  | field operand _ => [operand]
  | giveResult values | exec values | block values | tuple values => values.map .plain
  | call _ args => args.map .plain
  | record fields => fields.map fun f => .plain f.2
  | binary _ left right => [.plain left, .plain right]
  | unary _ operand => [.plain operand]
  | choose _ cond thenItems elseItems => (cond :: thenItems ++ elseItems).map .plain
  | loop init cond step body => (init ++ cond :: body ++ step).map .plain
  | raw node _ => node.children.map .plain
  | load _ addr _ => [.plain addr]
  | store _ addr value _ => [.plain addr, .plain value]
  | memoryGrow delta => [.plain delta]

end Body.Step

/-- What an open body will become. -/
inductive Opening where
  | function (draft : Build.Draft)
  | globals

structure Session where
  build : Build
  body : Option (Opening × Body) := none
  handed : List Operand := []

namespace Session

def fresh : Session := { build := {} }

/-- The expressions made so far: those of the open body, else those of the build. -/
def arena (s : Session) : Arena :=
  match s.body with
  | some (_, body) => body.arena
  | none => s.build.arena

/-- An operand that was handed out, perhaps without its view. -/
def HandedOut (s : Session) (o : Operand) : Prop :=
  o ∈ s.handed ∨ ∃ p ∈ s.handed, o = .plain p.id

end Session

def Build.left {α : Type} (step : BuildM α) (b : Build) : Build :=
  match step b with
  | .ok _ b => b
  | .error _ b => b

def Opening.close : Opening → Body → BuildM Unit
  | .function draft, body => do let _ ← Build.closeFunction draft body
  | .globals, body => Build.closeGlobals body

/-- What happens to a build between two bodies. None of it makes expressions. -/
inductive Build.Chore where
  | external (decl : ExternalDecl) (host : Signature → HostFunction)
  | exportAs (name : String) (callable : Nat)
  | useMemory (decl : MemoryDecl)
  /-- What a library made is done; its callables are exported. -/
  | adopt (key : String) (library : Library)
  | fail
  | simplify
  | assemble (options : CompileOptions)

def Build.Chore.run : Chore → BuildM Unit
  | external decl host => do let _ ← Build.external decl host
  | exportAs name callable => do let _ ← Build.exportAs name callable
  | useMemory decl => Build.useMemory decl
  | adopt key library => Build.adopt key library
  | fail => modify fun b => { b with failed := true }
  | simplify => do let _ ← Build.simplify
  | assemble options => do let _ ← Build.assemble options

namespace Session

inductive Next (permits : Session → Body.Step → Prop) : Session → Session → Prop
  | openFunction {s : Session} {isIndirect : Bool} {decl : FunctionDecl} {draft : Build.Draft}
      {body : Body} {b : Build} (idle : s.body = none)
      (opened : Build.openFunction isIndirect decl s.build = .ok (draft, body) b) :
      Next permits s { s with build := b, body := some (.function draft, body) }
  | refuse {s : Session} {isIndirect : Bool} {decl : FunctionDecl} {e : BuildError} {b : Build}
      (idle : s.body = none) (refused : Build.openFunction isIndirect decl s.build = .error e b) :
      Next permits s { s with build := b }
  | openGlobals {s : Session} {defs : Bindings} {body : Body} {b : Build} (idle : s.body = none)
      (opened : Build.openGlobals defs s.build = .ok body b) :
      Next permits s { s with build := b, body := some (.globals, body) }
  | take {s : Session} {opening : Opening} {body next : Body} {step : Body.Step}
      {handed : Option Operand} (busy : s.body = some (opening, body)) (may : permits s step)
      (done : step.run body = .ok handed next) :
      Next permits s { s with body := some (opening, next), handed := handed.toList ++ s.handed }
  | stumble {s : Session} {opening : Opening} {body next : Body} {step : Body.Step}
      {e : BuildError} (busy : s.body = some (opening, body)) (may : permits s step)
      (failed : step.run body = .error e next) :
      Next permits s { s with body := some (opening, next) }
  | close {s : Session} {opening : Opening} {body : Body} (busy : s.body = some (opening, body)) :
      Next permits s { s with build := Build.left (opening.close body) s.build, body := none }
  | abandon {s : Session} {opening : Opening} {body : Body} {e : BuildError}
      (busy : s.body = some (opening, body)) :
      Next permits s
        { s with build := Build.left (Build.abandon (α := Unit) body e) s.build, body := none }
  | literal {s : Session} {value : Number} {shape : Shape} {id : ExprId} {b : Build}
      (idle : s.body = none) (made : Build.literal value shape s.build = .ok id b) :
      Next permits s { s with build := b, handed := .plain id :: s.handed }
  | chore {s : Session} (idle : s.body = none) (chore : Build.Chore) :
      Next permits s { s with build := Build.left chore.run s.build }

/-- The sessions that steps lead to from the start. -/
inductive Reached (permits : Session → Body.Step → Prop) : Session → Prop
  | start : Reached permits fresh
  | next {s t : Session} (reached : Reached permits s) (step : Next permits s t) : Reached permits t

/-- Steps that are allowed are allowed where more is. -/
theorem Next.mono {permits allows : Session → Body.Step → Prop}
    (more : ∀ s step, permits s step → allows s step) {s t : Session} (step : Next permits s t) :
    Next allows s t := by
  cases step with
  | openFunction idle opened => exact .openFunction idle opened
  | refuse idle refused => exact .refuse idle refused
  | openGlobals idle opened => exact .openGlobals idle opened
  | take busy may done => exact .take busy (more _ _ may) done
  | stumble busy may failed => exact .stumble busy (more _ _ may) failed
  | close busy => exact .close busy
  | abandon busy => exact .abandon busy
  | literal idle made => exact .literal idle made
  | chore idle chore => exact .chore idle chore

theorem Reached.mono {permits allows : Session → Body.Step → Prop}
    (more : ∀ s step, permits s step → allows s step) {s : Session} (reached : Reached permits s) :
    Reached allows s := by
  induction reached with
  | start => exact .start
  | next _ step ih => exact ih.next (step.mono more)

theorem Reached.invariant {permits : Session → Body.Step → Prop} {holds : Session → Prop}
    (start : holds fresh) (preserved : ∀ s t, holds s → Next permits s t → holds t) {s : Session}
    (reached : Reached permits s) : holds s := by
  induction reached with
  | start => exact start
  | next _ step ih => exact preserved _ _ ih step

/-- A session goes on with a step of the open body that succeeds. -/
theorem Reached.take {permits : Session → Body.Step → Prop} {s : Session}
    (reached : Reached permits s) {opening : Opening} {body next : Body}
    (busy : s.body = some (opening, body)) (step : Body.Step) (may : permits s step)
    {handed : Option Operand} (done : step.run body = .ok handed next) :
    Reached permits { s with body := some (opening, next), handed := handed.toList ++ s.handed } :=
  reached.next (.take busy may done)

/-- A session goes on with the build that closing its body leaves. -/
theorem Reached.close {permits : Session → Body.Step → Prop} {s : Session}
    (reached : Reached permits s) {opening : Opening} {body : Body}
    (busy : s.body = some (opening, body)) {b : Build}
    (left : Build.left (opening.close body) s.build = b) :
    Reached permits { s with build := b, body := none } := by
  subst left
  exact reached.next (.close busy)

theorem Reached.chore {permits : Session → Body.Step → Prop} {s : Session}
    (reached : Reached permits s) (idle : s.body = none) (chore : Build.Chore) {b : Build}
    (left : Build.left chore.run s.build = b) : Reached permits { s with build := b } := by
  subst left
  exact reached.next (.chore idle chore)

end Session

namespace Build

variable {b : Build}

theorem freshId_of_free {id : String} (free : b.isTaken id = false) (stem : String) :
    freshId (some id) stem b = .ok id b := by
  show (if b.isTaken id then throw (.duplicateId id) else pure id : BuildM String) b = _
  rw [free]
  rfl

theorem openFunction_of_free {isIndirect : Bool} {decl : FunctionDecl} {id : String}
    (named : decl.id = some id) (free : b.isTaken id = false) :
    openFunction isIndirect decl b = .ok (⟨isIndirect, id, decl⟩,
      b.newBody ((({} : Scope).declareAll decl.params .param).declareAll decl.locals .local) .local
        decl.result) b := by
  simp only [openFunction, guarded, bind, EStateM.bind, named, freshId_of_free free]
  rfl

end Build

end WasmBuilder
