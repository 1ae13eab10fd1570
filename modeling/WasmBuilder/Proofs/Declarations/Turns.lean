import Mathlib.Data.List.Nodup
import Mathlib.Data.List.Perm.Subperm
import Std.Data.String.ToNat
import WasmBuilder.Proofs.Course.Later
import WasmBuilder.Proofs.Course.References

/-!
Whole runs of a build, and what an operation can do to it.

An operation is a call of the interface of a build with all that the caller hands over: the steps of
an initializer, the operations of a library, and how each of them ends. Callers may survive the
failures of what they call, so a run goes on after an operation that failed. A run is told by its
events, the calls of libraries included: what was declared, with the number that was answered, and
which declarations and libraries failed.

An operation takes a few turns: something is made or simplified that no list of declarations knows of,
a function is declared under an id that is free, a callable is exported, or a failure is noted. What
holds along runs is shown of each kind of turn by itself.
-/

set_option autoImplicit false

namespace WasmBuilder.Build

/-- What is done to a body that is open: steps, which may fail, and how the initializer ends. -/
structure Initializer where
  steps : List Body.Step := []
  outcome : Except BuildError Unit := .ok ()

def takeAll : List Body.Step → Body → Body
  | [], body => body
  | step :: rest, body =>
    match step.run body with
    | .ok _ next | .error _ next => takeAll rest next

def Initializer.run (init : Initializer) : BodyM Unit := do
  modify (takeAll init.steps)
  match init.outcome with
  | .ok _ => return
  | .error e => throw e

inductive Operation where
  /-- A function with a body, called through the table or directly. -/
  | define (isIndirect : Bool) (decl : FunctionDecl) (init : Initializer)
  | external (decl : ExternalDecl) (host : Signature → HostFunction)
  | globals (defs : Bindings) (init : Initializer)
  /-- A library, with the operations that it takes when it is built. -/
  | mount (key : String) (inside : List Operation) (outcome : Except BuildError Library)
  | exportAs (name : String) (callable : Nat)
  | useMemory (decl : MemoryDecl)
  | literal (value : Number) (shape : Shape)
  | simplify
  | compile (options : CompileOptions)

def ending (outcome : Except BuildError Library) : BuildM Library := do
  match outcome with
  | .ok library => return library
  | .error e => throw e

mutual

def Operation.run : Operation → BuildM Unit
  | .define isIndirect decl init => do let _ ← Build.define isIndirect decl init.run
  | .external decl host => do let _ ← Build.external decl host
  | .globals defs init => Build.declareGlobals defs init.run
  | .mount key inside outcome => do
    let _ ← Build.mount key do
      modify fun b => runAll inside b
      ending outcome
  | .exportAs name callable => do let _ ← Build.exportAs name callable
  | .useMemory decl => Build.useMemory decl
  | .literal value shape => do let _ ← Build.literal value shape
  | .simplify => do let _ ← Build.simplify
  | .compile options => do let _ ← Build.compile options

def runAll : List Operation → Build → Build
  | [], b => b
  | op :: rest, b => runAll rest (left op.run b)

end

inductive Declaration where
  | function (isIndirect : Bool) (decl : FunctionDecl)
  | external (decl : ExternalDecl)

inductive Event where
  /-- A function was declared, and is the callable of this number. -/
  | declared (callable : Nat) (declaration : Declaration)
  | failed (cause : BuildError)

def failure {α : Type} : EStateM.Result BuildError Build α → List Event
  | .ok _ _ => []
  | .error e _ => [.failed e]

mutual

/-- The events of an operation. A library that is mounted already is not built again. -/
def Operation.events : Operation → Build → List Event
  | .define isIndirect decl init, b =>
    match Build.define isIndirect decl init.run b with
    | .ok (callable, _) _ => [.declared callable (.function isIndirect decl)]
    | .error e _ => [.failed e]
  | .external decl host, b =>
    match Build.external decl host b with
    | .ok callable _ => [.declared callable (.external decl)]
    | .error e _ => [.failed e]
  | .globals defs init, b => failure (Build.declareGlobals defs init.run b)
  | .mount key inside outcome, b =>
    (if (b.mounted? key).isSome then [] else eventsAll inside b) ++
      failure ((Operation.mount key inside outcome).run b)
  | .exportAs .., _ | .useMemory _, _ | .literal .., _ | .simplify, _ | .compile _, _ => []

def eventsAll : List Operation → Build → List Event
  | [], _ => []
  | op :: rest, b => op.events b ++ eventsAll rest (left op.run b)

end

structure Steady (b c : Build) : Prop where
  callables : c.callables = b.callables
  table : c.table = b.table
  exports : c.exports = b.exports
  pending : c.pending = b.pending
  failed : c.failed = b.failed

namespace Steady

variable {b c d : Build}

theorem refl (b : Build) : Steady b b := ⟨rfl, rfl, rfl, rfl, rfl⟩

theorem trans (first : Steady b c) (second : Steady c d) : Steady b d where
  callables := second.callables.trans first.callables
  table := second.table.trans first.table
  exports := second.exports.trans first.exports
  pending := second.pending.trans first.pending
  failed := second.failed.trans first.failed

theorem work (work : Work b c) : Steady b c := by
  cases work
  exact { refl b with }

theorem trim (trim : Trim b c) : Steady b c := by
  cases trim with
  | arena => exact { refl b with }
  | setBody ref => cases ref <;> exact { refl b with }

theorem trims (trims : Trims b c) : Steady b c := by
  induction trims with
  | refl => exact refl b
  | tail _ step ih => exact ih.trans (trim step)

theorem importing (b : Build) (memory : Option MemoryDecl) : Steady b (b.importing memory) := by
  rcases importing_cases b memory with same | ⟨decl, other⟩
  · rw [same]
    exact refl b
  · rw [other]
    exact { refl b with }

end Steady

/-- An id that a declaration asks for is the one that it gets. -/
def Names (id : Option String) (given : String) : Prop := ∀ asked, id = some asked → given = asked

inductive Turn (b : Build) : List Event → Build → Prop
  | steady {c : Build} (moved : b.Work c ∨ b.Course c) (steady : Steady b c) : Turn b [] c
  | fail (e : BuildError) : Turn b [.failed e] { b with failed := true }
  | direct (draft : Draft) (body : Body) (named : Names draft.decl.id draft.id)
      (free : b.isTaken draft.id = false) :
      Turn b [.declared b.callables.size (.function false draft.decl)]
        (b.added (draft.function body) .direct draft.decl.params b.table b.imports
          draft.decl.isExported)
  | indirect (draft : Draft) (body : Body) {table : IndirectTable}
      (named : Names draft.decl.id draft.id) (free : b.isTaken draft.id = false)
      (appended : b.table.append b.functions.size draft.id draft.decl.params body.finalResult =
        .ok table) :
      Turn b [.declared b.callables.size (.function true draft.decl)]
        (b.added (draft.function body) (.indirect b.table.size) draft.decl.params table b.imports
          draft.decl.isExported)
  | external (decl : ExternalDecl) (id : String) (host : Signature → HostFunction)
      (named : Names decl.id id) (free : b.isTaken id = false) :
      Turn b [.declared b.callables.size (.external decl)]
        (b.added (externalFunction decl id) .external decl.params b.table
          (b.imports.insert decl.key (.func (host decl.signature))) false)
  | exported (name : String) {callable : Nat} {c : Callable} (awaited : callable ∈ b.pending)
      (here : b.callables[callable]? = some c) :
      Turn b [] { b with
        pending := b.pending.erase callable, exports := b.exports ++ [(name, c.func)] }
  /-- A number waits for its export that no callable has. -/
  | dropped {callable : Nat} (awaited : callable ∈ b.pending)
      (missing : b.callables[callable]? = none) :
      Turn b [] { b with pending := b.pending.erase callable }

inductive Turns (b : Build) : List Event → Build → Prop
  | refl : Turns b [] b
  | tail {c d : Build} {past now : List Event} (before : Turns b past c) (turn : Turn c now d) :
      Turns b (past ++ now) d

variable {b c d : Build} {past now : List Event}

theorem Turn.turns (turn : Turn b now c) : Turns b now c := Turns.refl.tail turn

theorem Turns.trans (first : Turns b past c) (second : Turns c now d) : Turns b (past ++ now) d := by
  induction second with
  | refl =>
    rw [List.append_nil]
    exact first
  | tail _ turn ih =>
    rw [← List.append_assoc]
    exact ih.tail turn

theorem Turns.after_steady (moved : b.Work c ∨ b.Course c) (steady : Steady b c)
    (rest : Turns c now d) : Turns b now d :=
  (Turn.steady moved steady).turns.trans rest

theorem Turn.later (turn : Turn b now c) : Later b c := by
  cases turn with
  | steady moved =>
    rcases moved with work | course
    · exact work.later
    · exact course.later
  | fail => exact (Quiet.fail (b := b)).later
  | direct draft body => exact (Edit.direct draft body).later
  | indirect draft body _ _ appended => exact (Edit.indirect draft body appended).later
  | external decl id host => exact (Edit.external decl id host).later
  | @exported name callable _ awaited here =>
    let taken : Build := { b with pending := b.pending.erase callable }
    have first : Later b taken := (Quiet.pending _).later
    exact first.trans (@Quiet.exports taken name _ _ here).later
  | dropped => exact (Quiet.pending _).later

theorem Turn.matched (matched : b.Matched) (turn : Turn b now c) : c.Matched := by
  cases turn with
  | steady moved =>
    rcases moved with work | course
    · exact matched.work work
    · exact matched.course course
  | fail => exact { matched with }
  | direct draft body => exact matched.edit (.direct draft body)
  | indirect draft body _ _ appended => exact matched.edit (.indirect draft body appended)
  | external decl id host => exact matched.edit (.external decl id host)
  | @exported name callable _ awaited here =>
    have taken : Matched { b with pending := b.pending.erase callable } := { matched with }
    exact taken.tidy (.quiet (@Quiet.exports _ name _ _ here))
  | dropped => exact { matched with }

theorem Turns.later (turns : Turns b now c) : Later b c := by
  induction turns with
  | refl => exact .refl b
  | tail _ turn ih => exact ih.trans turn.later

theorem nodup_candidates (b : Build) (stem : String) (count : Nat) :
    ((List.range count).map fun i => stem ++ toString (b.callables.size + i)).Nodup := by
  refine List.Nodup.map (fun i j same => ?_) List.nodup_range
  have numbers : b.callables.size + i = b.callables.size + j :=
    Nat.repr_inj.1 ((String.append_right_inj stem).1 same)
  exact Nat.add_left_cancel numbers

/-- The id that a function gets without asking is free: there are more candidates than functions. -/
theorem isTaken_numberedId (b : Build) (stem : String) :
    b.isTaken (b.numberedId stem) = false := by
  unfold numberedId
  generalize is : (List.range (b.functions.size + 1)).map
    (fun i => stem ++ toString (b.callables.size + i)) = candidates
  dsimp only
  cases found : candidates.find? fun id => !b.isTaken id with
  | some id => simpa using List.find?_some found
  | none =>
    have taken : candidates ⊆ b.functions.toList.map (·.id) := by
      intro id mem
      have isTaken := List.find?_eq_none.1 found id mem
      simpa [Build.isTaken, Array.mem_iff_getElem] using isTaken
    have distinct : candidates.Nodup := is ▸ nodup_candidates b stem _
    have few := (List.subperm_of_subset distinct taken).length_le
    rw [← is, List.length_map, List.length_range, List.length_map, Array.length_toList] at few
    exact absurd few (Nat.not_succ_le_self _)

/-- What a declaration is called is what it asks for, or else free by itself. -/
theorem freshId_eq_ok {id : Option String} {stem given : String}
    (done : freshId id stem b = .ok given c) :
    c = b ∧ Names id given ∧ b.isTaken given = false := by
  cases id with
  | none =>
    cases done
    exact ⟨rfl, nofun, isTaken_numberedId b stem⟩
  | some id =>
    change (if b.isTaken id then throw (.duplicateId id) else pure id : BuildM String) b = _ at done
    split at done
    · cases done
    next free =>
      cases done
      exact ⟨rfl, fun _ same => Option.some.inj same, Bool.eq_false_iff.2 free⟩

/-- A function is declared under an id that is free, or its declaration failed. -/
theorem openFunction_cases (isIndirect : Bool) (decl : FunctionDecl) (b : Build) :
    (∃ e, openFunction isIndirect decl b = .error e { b with failed := true }) ∨
      ∃ id, Names decl.id id ∧ b.isTaken id = false ∧
        openFunction isIndirect decl b = .ok (⟨isIndirect, id, decl⟩,
          b.newBody (Draft.scope ⟨isIndirect, id, decl⟩) .local decl.result) b := by
  simp only [openFunction, guarded, bind, EStateM.bind]
  have same := moves_freshId (R := Eq) (b := b) decl.id (if isIndirect then "indirect" else "func")
  cases run : freshId decl.id (if isIndirect then "indirect" else "func") b with
  | error e c =>
    cases same.of_error run
    exact .inl ⟨e, rfl⟩
  | ok id c =>
    obtain ⟨rfl, named, free⟩ := freshId_eq_ok run
    exact .inr ⟨id, named, free, rfl⟩

theorem later_takeAll (steps : List Body.Step) (body : Body) : body.Later (takeAll steps body) := by
  induction steps generalizing body with
  | nil => exact .refl body
  | cons step rest ih =>
    rw [takeAll]
    split
    next run => exact ((Body.Step.later_run step).of_ok run).1.trans (ih _)
    next run => exact ((Body.Step.later_run step).of_error run).trans (ih _)

theorem Initializer.run_eq (init : Initializer) (body : Body) :
    init.run body = match init.outcome with
      | .ok _ => .ok ⟨⟩ (takeAll init.steps body)
      | .error e => .error e (takeAll init.steps body) := by
  obtain ⟨steps, outcome⟩ := init
  cases outcome <;> rfl

theorem turns_withBody {body : Body} {locals : Scope} {fresh : Storage} {result : Shape}
    (later : (b.newBody locals fresh result).Later body) (rest : Turns (b.withBody body) now d) :
    Turns b now d := by
  have work : Work b (b.withBody body) := Session.work_withBody b later
  exact Turns.after_steady (.inl work) (.work work) rest

theorem turns_closeFunction (draft : Draft) (body : Body)
    (named : Names draft.decl.id draft.id) (free : b.isTaken draft.id = false) :
    match closeFunction draft body b with
    | .ok callable c =>
      Turns (b.withBody body) [.declared callable (.function draft.isIndirect draft.decl)] c
    | .error e c => Turns (b.withBody body) [.failed e] c := by
  rw [closeFunction_run]
  have free : (b.withBody body).isTaken draft.id = false := free
  generalize b.withBody body = b at free
  obtain ⟨isIndirect, id, decl⟩ := draft
  cases isIndirect with
  | false => exact (Turn.direct ⟨false, id, decl⟩ body named free).turns
  | true =>
    dsimp only
    rw [if_pos rfl]
    cases appended : b.table.append b.functions.size id decl.params body.finalResult with
    | ok table => exact (Turn.indirect ⟨true, id, decl⟩ body named free appended).turns
    | error e => exact (Turn.fail e).turns

/-- What a function declaration leaves, for each way in which it can end. -/
theorem define_run {α : Type} (isIndirect : Bool) (decl : FunctionDecl) (init : BodyM α)
    (b : Build) :
    define isIndirect decl init b =
      match openFunction isIndirect decl b with
      | .error e c => .error e c
      | .ok (draft, body) c =>
        match init body with
        | .error e body => .error e { c.withBody body with failed := true }
        | .ok a body =>
          match closeFunction draft body c with
          | .error e d => .error e d
          | .ok callable d => .ok (callable, a) d := by
  simp only [define, bind, EStateM.bind, EStateM.run]
  cases openFunction isIndirect decl b with
  | error e c => rfl
  | ok p c =>
    obtain ⟨draft, body⟩ := p
    dsimp only
    cases init body with
    | error e body => rfl
    | ok a body =>
      simp only [EStateM.bind]
      cases closeFunction draft body c <;> rfl

theorem declareGlobals_run {α : Type} (defs : Bindings) (init : BodyM α) (b : Build) :
    declareGlobals defs init b =
      let opened : Build := { b with globals := b.globals.declareAll defs .global }
      match init (opened.newBody {} .global .none) with
      | .ok a body =>
        .ok a { opened.withBody body with startBody := b.startBody ++ body.statements }
      | .error e body => .error e { opened.withBody body with failed := true } := by
  let opened : Build := { b with globals := b.globals.declareAll defs .global }
  have begun : openGlobals defs b = .ok (opened.newBody {} .global .none) opened := rfl
  simp only [declareGlobals, bind, EStateM.bind, begun, EStateM.run]
  cases init (opened.newBody {} .global .none) <;> rfl

theorem turns_define (isIndirect : Bool) (decl : FunctionDecl) (init : Initializer) (b : Build) :
    Turns b ((Operation.define isIndirect decl init).events b)
      (left (Operation.define isIndirect decl init).run b) := by
  show Turns b (match define isIndirect decl init.run b with
    | .ok (callable, _) _ => [.declared callable (.function isIndirect decl)]
    | .error e _ => [.failed e]) (left (do let _ ← define isIndirect decl init.run) b)
  rw [left_discard, left, define_run]
  rcases openFunction_cases isIndirect decl b with ⟨e, failed⟩ | ⟨id, named, free, opened⟩
  · rw [failed]
    exact (Turn.fail e).turns
  · let draft : Draft := ⟨isIndirect, id, decl⟩
    let body := takeAll init.steps (b.newBody draft.scope .local decl.result)
    rw [opened]
    dsimp only
    rw [init.run_eq]
    apply turns_withBody (later_takeAll init.steps _)
    cases init.outcome with
    | error e => exact (Turn.fail e).turns
    | ok _ =>
      have closed := turns_closeFunction (b := b) draft body named free
      dsimp only
      cases close : closeFunction draft body b with
      | ok callable c =>
        rw [close] at closed
        exact closed
      | error e c =>
        rw [close] at closed
        exact closed

theorem turns_external (decl : ExternalDecl) (host : Signature → HostFunction) (b : Build) :
    Turns b ((Operation.external decl host).events b)
      (left (Operation.external decl host).run b) := by
  show Turns b (match external decl host b with
    | .ok callable _ => [.declared callable (.external decl)]
    | .error e _ => [.failed e]) (left (do let _ ← external decl host) b)
  rw [left_discard, left]
  simp only [external, guarded, bind, EStateM.bind]
  have same := moves_freshId (R := Eq) (b := b) decl.id "external"
  cases run : freshId decl.id "external" b with
  | error e c =>
    cases same.of_error run
    exact (Turn.fail e).turns
  | ok id c =>
    obtain ⟨rfl, named, free⟩ := freshId_eq_ok run
    exact (Turn.external decl id host named free).turns

theorem turns_globals (defs : Bindings) (init : Initializer) (b : Build) :
    Turns b ((Operation.globals defs init).events b)
      (left (Operation.globals defs init).run b) := by
  let opened : Build := { b with globals := b.globals.declareAll defs .global }
  let body := takeAll init.steps (opened.newBody {} .global .none)
  have grown : Work b opened := .mk (.refl _) (Scope.grows_declareAll _ _ _)
  show Turns b (failure (declareGlobals defs init.run b)) (left (declareGlobals defs init.run) b)
  rw [left, declareGlobals_run]
  dsimp only
  rw [init.run_eq]
  apply Turns.after_steady (.inl grown) (.work grown)
  apply turns_withBody (later_takeAll init.steps _)
  cases init.outcome with
  | error e => exact (Turn.fail e).turns
  | ok _ =>
    have added : Edit (opened.withBody body)
        { opened.withBody body with startBody := opened.startBody ++ body.statements } :=
      .tidy (.quiet (.startBody _))
    exact (Turn.steady (.inr (.single added)) { Steady.refl (opened.withBody body) with }).turns

theorem turns_exportAs (name : String) (callable : Nat) (b : Build) :
    ∃ did c, exportAs name callable b = .ok did c ∧ Turns b [] c := by
  rw [exportAs_run]
  split
  next awaited =>
    dsimp only
    cases here : b.callables[callable]? with
    | some c => exact ⟨true, _, rfl, (Turn.exported name awaited here).turns⟩
    | none => exact ⟨false, _, rfl, (Turn.dropped awaited here).turns⟩
  next => exact ⟨false, b, rfl, .refl⟩

/-- A library whose operations succeeded is taken in; its callables are exported. -/
theorem turns_adopt (key : String) (library : Library) (b : Build) :
    ∃ c, adopt key library b = .ok ⟨⟩ c ∧ Turns b [] c := by
  have exported : ∃ c, (library.entries.forM fun e => do let _ ← exportAs e.1 e.2 : BuildM PUnit) b =
      .ok ⟨⟩ c ∧ Turns b [] c := by
    generalize library.entries = entries
    induction entries generalizing b with
    | nil => exact ⟨b, rfl, .refl⟩
    | cons e rest ih =>
      obtain ⟨did, c, run, turns⟩ := turns_exportAs e.1 e.2 b
      obtain ⟨d, others, further⟩ := ih c
      have first : (do let _ ← exportAs e.1 e.2 : BuildM PUnit) b = .ok ⟨⟩ c := bind_of_ok run
      exact ⟨d, (bind_of_ok first).trans others, turns.trans further⟩
  obtain ⟨c, run, turns⟩ := exported
  have kept : Edit c { c with libraries := (key, library) :: c.libraries } :=
    .tidy (.quiet (.library key library))
  refine ⟨_, bind_of_ok run, turns.trans ?_⟩
  exact (Turn.steady (.inr (.single kept)) { Steady.refl c with }).turns

/-- A library is built where its key is new, and ends after its operations. -/
theorem mount_run (key : String) (inside : List Operation) (outcome : Except BuildError Library) :
    (Operation.mount key inside outcome).run b =
      match b.mounted? key with
      | some _ => .ok ⟨⟩ b
      | none =>
        match outcome with
        | .ok library => adopt key library (runAll inside b)
        | .error e => .error e { runAll inside b with failed := true } := by
  have unfolded : (Operation.mount key inside outcome).run b =
      (do let _ ← (match b.mounted? key with
        | some library => return library
        | none => do
          let library ← guarded do
            modify fun b => runAll inside b
            ending outcome
          adopt key library
          return library) : BuildM Unit) b := rfl
  rw [unfolded]
  cases b.mounted? key with
  | some library => rfl
  | none =>
    cases outcome with
    | error e => rfl
    | ok library =>
      obtain ⟨c, run, -⟩ := turns_adopt key library (runAll inside b)
      have adopted : (do adopt key library; return library : BuildM Library) (runAll inside b) =
          .ok library c := bind_of_ok run
      exact (bind_of_ok adopted).trans run.symm

theorem turns_mount (key : String) {inside : List Operation} (outcome : Except BuildError Library)
    (built : Turns b (eventsAll inside b) (runAll inside b)) :
    Turns b ((Operation.mount key inside outcome).events b)
      (left (Operation.mount key inside outcome).run b) := by
  rw [Operation.events, left, mount_run]
  cases b.mounted? key with
  | some library => exact .refl
  | none =>
    cases outcome with
    | error e => exact built.trans (Turn.fail e).turns
    | ok library =>
      obtain ⟨c, run, turns⟩ := turns_adopt key library (runAll inside b)
      dsimp only
      rw [run]
      exact built.trans turns

/-- A module is made without a change to what is declared, or not made at all. -/
theorem steady_compile (options : CompileOptions) (b : Build) :
    (b.Work (left (compile options) b) ∨ b.Course (left (compile options) b)) ∧
      Steady b (left (compile options) b) := by
  have same : left (compile options) b = left (assemble options) b := by
    simp only [left, compile, bind, EStateM.bind]
    cases assemble options b <;> rfl
  rw [same]
  constructor
  · have tidies := left_of_moves (tidies_assemble (b := b) options)
    exact .inr tidies.course
  · cases usable : b.failed with
    | true =>
      rw [left, assemble_run, usable]
      exact .refl b
    | false => exact (Steady.importing b _).trans (.trims (trims_left_assemble options usable))

theorem turns_simplify (b : Build) :
    Turns b (Operation.simplify.events b) (left Operation.simplify.run b) := by
  show Turns b [] (left (do let _ ← simplify) b)
  rw [left_discard]
  have trims := left_of_moves (trims_simplify (b := b))
  exact (Turn.steady (.inr trims.quiets.tidies.course) (.trims trims)).turns

theorem turns_literal (value : Number) (shape : Shape) (b : Build) :
    Turns b ((Operation.literal value shape).events b)
      (left (Operation.literal value shape).run b) := by
  show Turns b [] (left (do let _ ← Build.literal value shape) b)
  rw [left_discard, left]
  cases shape with
  | num t =>
    have lasts := (b.arena.continues_push (.const (.ofNumber value t)) (some (.num t))).lasts
    have work : Work b { b with
      arena := b.arena.push (.const (.ofNumber value t)) (some (.num t)) } := .mk lasts (.refl _)
    exact (Turn.steady (.inl work) (.work work)).turns
  | none | auto | tuple | record => exact .refl

mutual

/-- An operation takes the turns that its events tell of. -/
theorem Operation.turns (op : Operation) (b : Build) :
    Turns b (op.events b) (left op.run b) := by
  match op with
  | .define isIndirect decl init => exact turns_define isIndirect decl init b
  | .external decl host => exact turns_external decl host b
  | .globals defs init => exact turns_globals defs init b
  | .mount key inside outcome => exact turns_mount key outcome (turns_runAll inside b)
  | .exportAs name callable =>
    obtain ⟨did, c, run, turns⟩ := turns_exportAs name callable b
    rw [Operation.run, left_discard, left, run, Operation.events]
    exact turns
  | .useMemory decl =>
    have imported : Edit b (b.withMemory decl) := .tidy (.memory decl)
    exact (Turn.steady (.inr (.single imported)) { Steady.refl b with }).turns
  | .literal value shape => exact turns_literal value shape b
  | .simplify => exact turns_simplify b
  | .compile options =>
    have ⟨moved, steady⟩ := steady_compile options b
    rw [Operation.run, left_discard, Operation.events]
    exact (Turn.steady moved steady).turns

theorem turns_runAll (ops : List Operation) (b : Build) :
    Turns b (eventsAll ops b) (runAll ops b) := by
  match ops with
  | [] => exact .refl
  | op :: rest => exact (op.turns b).trans (turns_runAll rest (left op.run b))

end

end WasmBuilder.Build
