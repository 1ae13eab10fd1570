import WasmBuilder.Proofs.Course.Body
import WasmBuilder.Proofs.Course.Sheds

/-!
The course of a build.

Whatever happens to a build between two bodies, whether it succeeds or fails, is a row of edits of a
few kinds, and a body works on the expressions and globals alone. What holds along a session is shown
of each kind of edit by itself.
-/

set_option autoImplicit false

namespace WasmBuilder.Build

def withBody (b : Build) (body : Body) : Build :=
  { b with arena := body.arena, globals := body.globals }

/-- A function and the callable for it, reached in a way that the table knows of. -/
def added (b : Build) (f : Function) (kind : CallKind) (params : Bindings) (table : IndirectTable)
    (imports : Imports) (isExported : Bool) : Build :=
  { b with
    functions := b.functions.push f
    callables := b.callables.push ⟨f.id, b.functions.size, kind, params, f.result⟩
    table, imports
    pending := if isExported then b.callables.size :: b.pending else b.pending }

def Draft.scope (draft : Draft) : Scope :=
  (({} : Scope).declareAll draft.decl.params .param).declareAll draft.decl.locals .local

def Draft.function (draft : Draft) (body : Body) : Function where
  id := draft.id
  params := draft.decl.params.map (·.2)
  result := body.finalResult
  kind := .defined body.locals body.statements

def externalFunction (decl : ExternalDecl) (id : String) : Function where
  id
  params := decl.params.map (·.2)
  result := decl.result
  kind := .imported decl.key

def Evaluates (b : Build) (ref : BodyRef) (id : ExprId) : Prop :=
  ∃ root ∈ b.bodyOf ref, b.arena.Within root id

/-- Something is taken out of the expressions, or out of the statements of a body. -/
inductive Trim (b : Build) : Build → Prop
  | arena {arena : Arena} (sheds : b.arena.Sheds arena) : Trim b { b with arena }
  | setBody (ref : BodyRef) (body : List ExprId) (inside : ∀ x ∈ body, b.Evaluates ref x) :
      Trim b (b.setBody ref body)

inductive Rewrite (b : Build) : Build → Prop
  | arena {arena : Arena} (lasts : b.arena.Lasts arena) : Rewrite b { b with arena }
  | setBody (ref : BodyRef) (body : List ExprId) : Rewrite b (b.setBody ref body)

/-- An edit that declares nothing and registers nothing with the host. -/
inductive Quiet (b : Build) : Build → Prop
  | rewrite {c : Build} (rewrite : Rewrite b c) : Quiet b c
  | fail : Quiet b { b with failed := true }
  | startBody (items : List ExprId) : Quiet b { b with startBody := b.startBody ++ items }
  | pending (pending : List Nat) : Quiet b { b with pending }
  | exports (name : String) {callable : Nat} {c : Callable}
      (here : b.callables[callable]? = some c) :
      Quiet b { b with exports := b.exports ++ [(name, c.func)] }
  | library (key : String) (library : Library) :
      Quiet b { b with libraries := (key, library) :: b.libraries }

def withMemory (b : Build) (decl : MemoryDecl) : Build :=
  { b with
    imports := b.imports.insert decl.key (.memory ⟨decl.initial, some decl.maximum⟩)
    memory := some decl }

inductive Tidy (b : Build) : Build → Prop
  | quiet {c : Build} (quiet : Quiet b c) : Tidy b c
  | memory (decl : MemoryDecl) : Tidy b (b.withMemory decl)

inductive Edit (b : Build) : Build → Prop
  | tidy {c : Build} (tidy : Tidy b c) : Edit b c
  | direct (draft : Draft) (body : Body) :
      Edit b (b.added (draft.function body) .direct draft.decl.params b.table b.imports
        draft.decl.isExported)
  | indirect (draft : Draft) (body : Body) {table : IndirectTable}
      (appended : b.table.append b.functions.size draft.id draft.decl.params body.finalResult =
        .ok table) :
      Edit b (b.added (draft.function body) (.indirect b.table.size) draft.decl.params table b.imports
        draft.decl.isExported)
  | external (decl : ExternalDecl) (id : String) (host : Signature → HostFunction) :
      Edit b (b.added (externalFunction decl id) .external decl.params b.table
        (b.imports.insert decl.key (.func (host decl.signature))) false)

def Trims : Build → Build → Prop := Relation.ReflTransGen Trim
def Quiets : Build → Build → Prop := Relation.ReflTransGen Quiet
def Tidies : Build → Build → Prop := Relation.ReflTransGen Tidy
def Course : Build → Build → Prop := Relation.ReflTransGen Edit

inductive Work (b : Build) : Build → Prop
  | mk {arena : Arena} {globals : Scope} (lasts : b.arena.Lasts arena)
      (grows : b.globals.Grows globals) : Work b { b with arena, globals }

instance : IsPreorder Build Trims where
  refl _ := .refl
  trans _ _ _ := .trans

instance : IsPreorder Build Quiets where
  refl _ := .refl
  trans _ _ _ := .trans

instance : IsPreorder Build Tidies where
  refl _ := .refl
  trans _ _ _ := .trans

instance : IsPreorder Build Course where
  refl _ := .refl
  trans _ _ _ := .trans

variable {b : Build}

theorem Trim.rewrite {c : Build} (trim : Trim b c) : Rewrite b c := by
  cases trim with
  | arena sheds => exact .arena sheds.lasts
  | setBody ref body => exact .setBody ref body

theorem Trims.quiets {c : Build} (trims : Trims b c) : Quiets b c :=
  trims.lift id fun _ _ trim => .rewrite trim.rewrite

theorem Quiets.tidies {c : Build} (quiets : Quiets b c) : Tidies b c :=
  quiets.lift id fun _ _ => .quiet

theorem Tidies.course {c : Build} (tidies : Tidies b c) : Course b c :=
  tidies.lift id fun _ _ => .tidy

theorem moves_guarded {R : Build → Build → Prop} [IsPreorder Build R]
    (fails : ∀ c, R c { c with failed := true }) {α : Type} {step : BuildM α}
    {Q : α → Build → Prop} (moves : Moves R b step Q) : Moves R b (guarded step) Q := by
  unfold Moves guarded at *
  cases run : step b with
  | ok x c =>
    rw [run] at moves
    exact moves
  | error e c =>
    rw [run] at moves
    exact trans_of R moves (fails c)

theorem quiets_guarded {α : Type} {step : BuildM α} {Q : α → Build → Prop}
    (moves : Moves Quiets b step Q) : Moves Quiets b (guarded step) Q :=
  moves_guarded (fun _ => .single .fail) moves

/-- What a step answers does not matter to what it leaves. -/
theorem left_discard {α : Type} (step : BuildM α) (b : Build) :
    left (do let _ ← step) b = left step b := by
  simp only [left, bind, EStateM.bind]
  cases step b <;> rfl

/-- What a step leaves behind came of what was there, whether it fails or not. -/
theorem left_of_moves {R : Build → Build → Prop} {α : Type} {step : BuildM α}
    {Q : α → Build → Prop} (moves : Moves R b step Q) : R b (left step b) := by
  unfold left
  cases run : step b with
  | ok x c => exact (moves.of_ok run).1
  | error e c => exact moves.of_error run

theorem moves_freshId {R : Build → Build → Prop} [IsPreorder Build R] (id : Option String)
    (stem : String) : Moves R b (freshId id stem) fun _ c => c = b := by
  apply Moves.get_bind
  cases id with
  | none => exact Moves.pure rfl
  | some id =>
    dsimp only
    split
    · exact Moves.throw
    · exact Moves.pure rfl

theorem quiets_openFunction (isIndirect : Bool) (decl : FunctionDecl) :
    Moves Quiets b (openFunction isIndirect decl) fun p c =>
      c = b ∧ ∃ id, p = (⟨isIndirect, id, decl⟩,
        b.newBody (Draft.scope ⟨isIndirect, id, decl⟩) .local decl.result) := by
  apply quiets_guarded
  apply (moves_freshId _ _).bind
  rintro id b _ rfl
  exact Moves.get_bind (Moves.pure ⟨rfl, id, rfl⟩)

theorem external_of_free {decl : ExternalDecl} {id : String} (named : decl.id = some id)
    (free : b.isTaken id = false) (host : Signature → HostFunction) :
    external decl host b = .ok b.callables.size
      (b.added (externalFunction decl id) .external decl.params b.table
        (b.imports.insert decl.key (.func (host decl.signature))) false) := by
  simp only [external, guarded, bind, EStateM.bind, named, freshId_of_free free]
  rfl

theorem left_external_of_free {decl : ExternalDecl} {id : String} (named : decl.id = some id)
    (free : b.isTaken id = false) (host : Signature → HostFunction) :
    left (Chore.external decl host).run b =
      b.added (externalFunction decl id) .external decl.params b.table
        (b.imports.insert decl.key (.func (host decl.signature))) false := by
  rw [Chore.run, left_discard, left, external_of_free named free]

/-- A function of the host is declared, or the build has failed. -/
theorem external_cases (decl : ExternalDecl) (host : Signature → HostFunction) (b : Build) :
    (∃ e, external decl host b = .error e { b with failed := true }) ∨
      ∃ id, external decl host b = .ok b.callables.size
        (b.added (externalFunction decl id) .external decl.params b.table
          (b.imports.insert decl.key (.func (host decl.signature))) false) := by
  simp only [external, guarded, bind, EStateM.bind]
  have named : Moves Eq b (freshId decl.id "external") fun _ c => c = b := moves_freshId _ _
  cases run : freshId decl.id "external" b with
  | error e c =>
    cases named.of_error run
    exact .inl ⟨e, rfl⟩
  | ok id c =>
    cases (named.of_ok run).1
    exact .inr ⟨id, rfl⟩

/-- What closing a function leaves. The table takes the function in when it is to be called through
it, and refuses one that is there. -/
theorem closeFunction_run (draft : Draft) (body : Body) (b : Build) :
    closeFunction draft body b =
      let c := b.withBody body
      if draft.isIndirect then
        match c.table.append c.functions.size draft.id draft.decl.params body.finalResult with
        | .ok table =>
          .ok c.callables.size (c.added (draft.function body) (.indirect c.table.size)
            draft.decl.params table c.imports draft.decl.isExported)
        | .error e => .error e { c with failed := true }
      else
        .ok c.callables.size (c.added (draft.function body) .direct draft.decl.params c.table
          c.imports draft.decl.isExported) := by
  obtain ⟨isIndirect, id, decl⟩ := draft
  cases isIndirect with
  | false => rfl
  | true =>
    have unfolded : closeFunction ⟨true, id, decl⟩ body b = guarded (do
        let kind ← (match b.table.append b.functions.size id decl.params body.finalResult with
          | .ok table => do
            set { b.withBody body with table }
            return .indirect b.table.size
          | .error e => throw e : BuildM CallKind)
        addFunction
          { id, params := decl.params.map (·.2), result := body.finalResult,
            kind := .defined body.locals body.statements }
          { id, func := b.functions.size, kind, params := decl.params, result := body.finalResult }
          decl.isExported) (b.withBody body) := rfl
    rw [unfolded]
    show _ = match b.table.append b.functions.size id decl.params body.finalResult with
      | .ok table => _
      | .error e => _
    cases b.table.append b.functions.size id decl.params body.finalResult <;> rfl

theorem closeFunction_of_append {draft : Draft} {body : Body} {table : IndirectTable}
    (isIndirect : draft.isIndirect = true)
    (appended : b.table.append b.functions.size draft.id draft.decl.params body.finalResult =
      .ok table) :
    closeFunction draft body b = .ok b.callables.size ((b.withBody body).added (draft.function body)
      (.indirect b.table.size) draft.decl.params table b.imports draft.decl.isExported) := by
  have taken : (b.withBody body).table.append (b.withBody body).functions.size draft.id
    draft.decl.params body.finalResult = .ok table := appended
  rw [closeFunction_run]
  dsimp only
  rw [if_pos isIndirect, taken]
  rfl

theorem left_close {draft : Draft} {body : Body} {k : Nat} {c : Build}
    (closed : closeFunction draft body b = .ok k c) :
    left (Opening.close (.function draft) body) b = c := by
  have same : left (Opening.close (.function draft) body) b = left (closeFunction draft body) b :=
    left_discard (closeFunction draft body) b
  rw [same, left, closed]

theorem course_close (opening : Opening) (body : Body) :
    Course (b.withBody body) (left (opening.close body) b) := by
  cases opening with
  | globals => exact .single (.tidy (.quiet (.startBody body.statements)))
  | function draft =>
    have same : left (Opening.close (.function draft) body) b = left (closeFunction draft body) b :=
      left_discard (closeFunction draft body) b
    rw [same, left, closeFunction_run]
    dsimp only
    split
    next x c run =>
      split at run
      · split at run
        next appended =>
          cases run
          exact .single (.indirect draft body appended)
        next => cases run
      · cases run
        exact .single (.direct draft body)
    next e c run =>
      split at run
      · split at run
        · cases run
        · cases run
          exact .single (.tidy (.quiet .fail))
      · cases run

theorem quiets_abandon (body : Body) (e : BuildError) :
    Quiets (b.withBody body) (left (abandon body e : BuildM Unit) b) :=
  .single .fail

theorem quiets_literal (value : Number) (shape : Shape) :
    Moves Quiets b (literal value shape) fun _ _ => True := by
  cases shape with
  | num t =>
    have lasts := (b.arena.continues_push (.const (.ofNumber value t)) (some (.num t))).lasts
    exact ⟨.single (.rewrite (.arena lasts)), trivial⟩
  | none | auto | tuple | record => exact Moves.throw

theorem course_external (decl : ExternalDecl) (host : Signature → HostFunction) :
    Moves Course b (external decl host) fun _ _ => True := by
  apply moves_guarded fun _ => .single (.tidy (.quiet .fail))
  apply (moves_freshId _ _).bind
  rintro id b _ rfl
  exact ⟨.single (.external decl id host), trivial⟩

theorem quiets_exportAs (name : String) (callable : Nat) :
    Moves Quiets b (exportAs name callable) fun _ _ => True := by
  apply Moves.get_bind
  split
  · have taken : Quiets b { b with pending := b.pending.erase callable } := .single (.pending _)
    dsimp only
    cases here : b.callables[callable]? with
    | none => exact ⟨taken, trivial⟩
    | some c => exact ⟨taken.tail (@Quiet.exports _ name callable c here), trivial⟩
  · exact Moves.pure trivial

theorem quiets_adopt (key : String) (library : Library) :
    Moves Quiets b (adopt key library) fun _ _ => True := by
  have exported : Moves Quiets b (library.entries.forM fun e => do let _ ← exportAs e.1 e.2)
      fun _ _ => True :=
    Moves.forM fun e _ c _ => (quiets_exportAs e.1 e.2).bind fun _ _ _ _ => Moves.pure trivial
  apply exported.bind
  intro _ c _ _
  exact Moves.modify (.single (.library key library)) trivial

structure SameDeclarations (b c : Build) : Prop where
  size : c.functions.size = b.functions.size
  callables : c.callables = b.callables
  table : c.table = b.table

theorem size_setBody (ref : BodyRef) (body : List ExprId) :
    (b.setBody ref body).functions.size = b.functions.size := by
  cases ref with
  | start => rfl
  | function i => exact Array.size_modify ..

theorem Tidies.same {c : Build} (tidies : Tidies b c) : SameDeclarations b c := by
  induction tidies with
  | refl => constructor <;> rfl
  | tail _ tidy ih =>
    cases tidy with
    | memory => exact { ih with }
    | quiet quiet =>
      cases quiet with
      | fail | startBody | pending | exports | library => exact { ih with }
      | rewrite rewrite =>
        cases rewrite with
        | arena => exact { ih with }
        | setBody ref body =>
          refine { size := (size_setBody ref body).trans ih.size, callables := ?_, table := ?_ }
          · cases ref <;> exact ih.callables
          · cases ref <;> exact ih.table

@[simp] theorem arena_setBody (ref : BodyRef) (body : List ExprId) :
    (b.setBody ref body).arena = b.arena := by cases ref <;> rfl

theorem bodyOf_setBody (ref : BodyRef) (body : List ExprId) (other : BodyRef) :
    (b.setBody ref body).bodyOf other = b.bodyOf other ∨
      ref = other ∧ (b.setBody ref body).bodyOf other = body := by
  cases ref with
  | start =>
    cases other with
    | start => exact .inr ⟨rfl, rfl⟩
    | function j => exact .inl rfl
  | function i =>
    cases other with
    | start => exact .inl rfl
    | function j =>
      simp only [bodyOf, setBody, Array.getElem?_modify]
      by_cases is : i = j
      · subst is
        cases here : b.functions[i]? with
        | none => simp
        | some f =>
          obtain ⟨id, params, result, kind⟩ := f
          cases kind <;> simp [Function.withBody]
      · simp [is]

theorem trims_simplifyBody (ref : BodyRef) (counts : SimplifyCounts) :
    Moves Trims b (simplifyBody ref counts) fun _ _ => True := by
  have set (b : Build) (body : List ExprId) (inside : ∀ x ∈ body, b.Evaluates ref x) :
      Moves Trims b (modify (·.setBody ref body)) fun _ c => c = b.setBody ref body :=
    Moves.modify (.single (.setBody ref body inside)) rfl
  -- flattened, cut, and then each statement list inside is cut
  apply Moves.get_bind
  split
  · exact Moves.throw
  next flat flattened done =>
    have inside : ∀ x ∈ flat, b.Evaluates ref x := Arena.within_of_flattenBlocks done
    apply (set b flat inside).bind
    rintro _ c _ rfl
    split
    · exact Moves.throw
    next body cut done =>
      have less : ∀ x ∈ body, (b.setBody ref flat).Evaluates ref x := by
        intro x mem
        have mem := Arena.mem_of_cut done x mem
        unfold Evaluates
        rw [arena_setBody]
        rcases bodyOf_setBody (b := b) ref flat ref with same | ⟨_, is⟩
        · rw [same]
          exact inside x mem
        · rw [is]
          exact ⟨x, mem, .self⟩
      apply (set _ body less).bind
      rintro _ d _ rfl
      have visited := Unreachable.sheds_visitAll (s := ⟨b.arena, cut⟩) body
      have adopt (s : Unreachable.State) (sheds : b.arena.Sheds s.arena) :
          Moves Trims ((b.setBody ref flat).setBody ref body)
            (modify fun b => { b with arena := s.arena }) fun _ _ => True := by
        refine Moves.modify (.single (.arena ?_)) trivial
        rw [arena_setBody, arena_setBody]
        exact sheds
      split
      next e s run => exact (adopt s (visited.of_error run)).bind fun _ _ _ _ => Moves.throw
      next s run => exact (adopt s (visited.of_ok run).1).bind fun _ _ _ _ => Moves.pure trivial

theorem trims_simplify : Moves Trims b simplify fun _ _ => True := by
  apply Moves.get_bind
  have folded : Moves Trims b (modify fun c => { c with arena := b.arena.foldConstants.1 })
      fun _ _ => True :=
    Moves.modify (.single (.arena (Arena.sheds_foldConstants _))) trivial
  apply folded.bind
  intro _ c _ _
  exact Moves.get_bind (Moves.foldlM (fun _ counts ref _ => trims_simplifyBody ref counts) _)

theorem trims_simplifyIf (wanted : Bool) : Moves Trims b (simplifyIf wanted) fun _ _ => True := by
  unfold simplifyIf
  split
  · exact trims_simplify.bind fun _ _ _ _ => Moves.pure trivial
  · exact Moves.pure trivial

theorem trims_lowered (options : CompileOptions) :
    Moves Trims b (lowered options) fun m c => c = b ∧
      b.lower options.tableExport = .ok m ∧ (options.validate = true → m.isValid = true) := by
  apply Moves.get_bind
  split
  · exact Moves.throw
  next m lowered =>
    split
    · exact Moves.throw
    next valid =>
      refine Moves.pure ⟨rfl, lowered, fun asked => ?_⟩
      simpa [asked] using valid

def importing (b : Build) : Option MemoryDecl → Build
  | none => b
  | some decl => if b.memory = some decl then b else b.withMemory decl

theorem importing_cases (b : Build) (memory : Option MemoryDecl) :
    b.importing memory = b ∨ ∃ decl, b.importing memory = b.withMemory decl := by
  cases memory with
  | none => exact .inl rfl
  | some decl =>
    by_cases same : b.memory = some decl
    · exact .inl (if_pos same)
    · exact .inr ⟨decl, if_neg same⟩

theorem tidies_importing (memory : Option MemoryDecl) : Tidies b (b.importing memory) := by
  rcases importing_cases b memory with same | ⟨decl, other⟩
  · rw [same]
    exact .refl
  · rw [other]
    exact .single (.memory decl)

/-- A module is made by simplifying a build that has the memory that is asked for. -/
theorem assemble_run (options : CompileOptions) (b : Build) :
    assemble options b = if b.failed then .error .aborted b else
      (do simplifyIf options.optimize; lowered options) (b.importing options.memory) := by
  have unfolded : assemble options b = (if b.failed then throw .aborted else do
      importMemory options.memory
      simplifyIf options.optimize
      lowered options : BuildM Wasm.Module) b := by
    have seen : (get : BuildM Build) b = .ok b b := rfl
    cases failed : b.failed <;>
      simp only [assemble, requireUsable, bind, EStateM.bind, seen, failed] <;> rfl
  rw [unfolded]
  split
  · rfl
  · cases options.memory with
    | none => rfl
    | some decl =>
      have imported : importMemory (some decl) b = .ok ⟨⟩ (b.importing (some decl)) := by
        show (if b.memory ≠ some decl then useMemory decl else pure ⟨⟩ : BuildM Unit) b = _
        by_cases same : b.memory = some decl
        · rw [if_neg (not_not.2 same), importing, if_pos same]
          rfl
        · rw [if_pos same, importing, if_neg same]
          rfl
      simp only [bind, EStateM.bind, imported]

theorem trims_finish (options : CompileOptions) :
    Moves Trims b (do simplifyIf options.optimize; lowered options) fun m c =>
      c.lower options.tableExport = .ok m ∧ (options.validate = true → m.isValid = true) := by
  apply (trims_simplifyIf options.optimize).bind
  intro _ c _ _
  apply (trims_lowered options).weaken
  rintro m _ _ ⟨rfl, lowered, valid⟩
  exact ⟨lowered, valid⟩

theorem assemble_eq_ok {options : CompileOptions} {m : Wasm.Module} {c : Build}
    (done : assemble options b = .ok m c) : b.failed = false ∧
      Trims (b.importing options.memory) c ∧ c.lower options.tableExport = .ok m ∧
      (options.validate = true → m.isValid = true) := by
  rw [assemble_run] at done
  split at done
  · cases done
  next usable => exact ⟨Bool.eq_false_iff.2 usable, (trims_finish options).of_ok done⟩

theorem lowered_run (options : CompileOptions) (b : Build) :
    lowered options b = match b.lower options.tableExport with
      | .error e => .error e b
      | .ok m => if options.validate && !m.isValid then .error .invalidModule b else .ok m b := by
  have seen : (get : BuildM Build) b = .ok b b := rfl
  simp only [lowered, bind, EStateM.bind, seen]
  cases b.lower options.tableExport with
  | error e => rfl
  | ok m =>
    dsimp only
    cases options.validate && !m.isValid <;> rfl

/-- Where the simplified build has a module that passes, that module is made. -/
theorem assemble_of_lower {options : CompileOptions} {m : Wasm.Module} {c : Build}
    (usable : b.failed = false)
    (simplified : simplifyIf options.optimize (b.importing options.memory) = .ok ⟨⟩ c)
    (done : c.lower options.tableExport = .ok m)
    (valid : options.validate = true → m.isValid = true) : assemble options b = .ok m c := by
  have passes : (options.validate && !m.isValid) = false := by
    cases asked : options.validate with
    | false => rfl
    | true => simp [valid asked]
  rw [assemble_run, usable]
  simp only [bind, EStateM.bind, simplified, lowered_run, done, passes]
  rfl

/-- Whether a module is made or not, the build is only simplified after the memory was imported. -/
theorem trims_left_assemble (options : CompileOptions) (usable : b.failed = false) :
    Trims (b.importing options.memory) (left (assemble options) b) := by
  have finish := trims_finish (b := b.importing options.memory) options
  unfold left
  rw [assemble_run, usable]
  exact left_of_moves finish

theorem tidies_assemble (options : CompileOptions) :
    Moves Tidies b (assemble options) fun _ _ => True := by
  have finish := trims_finish (b := b.importing options.memory) options
  have before : Tidies b (b.importing options.memory) := tidies_importing options.memory
  apply Moves.intro
  · intro m c done
    exact ⟨before.trans (assemble_eq_ok done).2.1.quiets.tidies, trivial⟩
  · intro e c failed
    rw [assemble_run] at failed
    split at failed
    · cases failed
      exact .refl
    · exact before.trans (finish.of_error failed).quiets.tidies

theorem Trim.evaluates {c : Build} (trim : Trim b c) {ref : BodyRef} {id : ExprId}
    (evaluates : c.Evaluates ref id) : b.Evaluates ref id := by
  obtain ⟨root, isRoot, within⟩ := evaluates
  cases trim with
  | arena sheds => exact ⟨root, isRoot, sheds.within within⟩
  | setBody other body inside =>
    rw [arena_setBody] at within
    rcases bodyOf_setBody (b := b) other body ref with same | ⟨rfl, is⟩
    · rw [same] at isRoot
      exact ⟨root, isRoot, within⟩
    · rw [is] at isRoot
      have ⟨root', isRoot', within'⟩ := inside root isRoot
      exact ⟨root', isRoot', within'.trans within⟩

/-- The variables that a trimmed body accesses, it accessed before. -/
theorem Trims.accesses {c : Build} (trims : Trims b c) {ref : BodyRef} {id : ExprId} {node : Node}
    (evaluates : c.Evaluates ref id) (here : c.arena.node id = .ok node)
    (accesses : node.access? ≠ none) : b.Evaluates ref id ∧ b.arena.node id = .ok node := by
  induction trims with
  | refl => exact ⟨evaluates, here⟩
  | tail _ trim ih =>
    apply ih (trim.evaluates evaluates)
    cases trim with
    | arena sheds =>
      have ⟨old, before, shed⟩ := sheds.exists_before here
      rw [before, shed.access accesses]
    | setBody => rwa [arena_setBody] at here

theorem accesses_of_importing {memory : Option MemoryDecl} {c : Build}
    (trims : Trims (b.importing memory) c) {ref : BodyRef} {id : ExprId} {node : Node}
    (evaluates : c.Evaluates ref id) (here : c.arena.node id = .ok node)
    (accesses : node.access? ≠ none) : b.Evaluates ref id ∧ b.arena.node id = .ok node := by
  have before := trims.accesses evaluates here accesses
  rcases importing_cases b memory with same | ⟨decl, other⟩
  · rwa [same] at before
  · -- a memory has nothing to do with expressions
    rw [other] at before
    exact before

def Chore.isQuiet : Chore → Bool
  | exportAs .. | adopt .. | fail | simplify => true
  | external .. | useMemory _ | assemble _ => false

theorem quiets_chore {chore : Chore} (quiet : chore.isQuiet = true) :
    Moves Quiets b chore.run fun _ _ => True := by
  cases chore with
  | exportAs name callable =>
    exact (quiets_exportAs name callable).bind fun _ _ _ _ => Moves.pure trivial
  | adopt key library => exact quiets_adopt key library
  | fail => exact Moves.modify (.single .fail) trivial
  | simplify =>
    have simplified : Moves Quiets b Build.simplify fun _ _ => True :=
      trims_simplify.mono fun _ trims => trims.quiets
    exact simplified.bind fun _ _ _ _ => Moves.pure trivial
  | external | useMemory | assemble => cases quiet

theorem course_chore (chore : Chore) : Moves Course b chore.run fun _ _ => True := by
  have quiet (quiet : chore.isQuiet = true) : Moves Course b chore.run fun _ _ => True :=
    (quiets_chore quiet).mono fun _ quiets => quiets.tidies.course
  cases chore with
  | external decl host =>
    exact (course_external decl host).bind fun _ _ _ _ => Moves.pure trivial
  | useMemory decl => exact Moves.modify (.single (.tidy (.memory decl))) trivial
  | assemble options =>
    have assembled : Moves Course b (Build.assemble options) fun _ _ => True :=
      (tidies_assemble options).mono fun _ tidies => tidies.course
    exact assembled.bind fun _ _ _ _ => Moves.pure trivial
  | exportAs | adopt | fail | simplify => exact quiet rfl

end WasmBuilder.Build
