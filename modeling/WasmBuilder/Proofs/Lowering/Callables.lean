import WasmBuilder.Proofs.Labels.Session
import WasmBuilder.Proofs.Lowering.IndexSpaces

/-!
Callables of a session, in the module that is made of it.

A callable is a number that is handed out when a function is declared, and is used in calls, exports
and the table long before functions have their indices. Each of these uses comes to the index that the
function has in the end. The code of a call stands in the function of the body that it is part of, as
does that of any other operand: just variables of which a field is read have no code of their own.
-/

set_option autoImplicit false

namespace WasmBuilder

open Lower (CallCode CodeTyped CodeWithin IndexSpaces moduleLayout)
open Wasm (Instr)

theorem IndirectTable.functions_getElem? (t : IndirectTable) (slot : Nat) :
    t.functions[slot]? = t.entries[slot]?.map (·.1) := by
  simp [IndirectTable.functions]

namespace Build

variable {b : Build}

/-- A slot of the table belongs to the callable that is reached through it. -/
theorem Matched.slot_iff (matched : b.Matched) {callable slot : Nat} {c : Callable}
    (here : b.callables[callable]? = some c) :
    c.kind = .indirect slot ↔ b.table.functions[slot]? = some callable := by
  rw [IndirectTable.functions_getElem?]
  constructor
  · intro kind
    have ⟨info, there⟩ := matched.slot callable c slot here kind
    rw [there, Option.map_some]
  · intro listed
    obtain ⟨⟨func, info⟩, there, rfl⟩ := Option.map_eq_some_iff.1 listed
    have ⟨d, declared, kind⟩ := matched.occupied slot func info there
    cases here.symm.trans declared
    exact kind

end Build

namespace Wasm.Instr

/-- A piece of code stands in other code, maybe in the body of one of its instructions. -/
inductive Occurs (piece : List Instr) : List Instr → Prop
  | here (before after : List Instr) : Occurs piece (before ++ piece ++ after)
  | block {type : BlockType} {body : List Instr} (inside : Occurs piece body)
      (before after : List Instr) : Occurs piece (before ++ .block type body :: after)
  | loop {type : BlockType} {body : List Instr} (inside : Occurs piece body)
      (before after : List Instr) : Occurs piece (before ++ .loop type body :: after)
  | ifThen {type : BlockType} {body : List Instr} (inside : Occurs piece body)
      (before after : List Instr) : Occurs piece (before ++ .ifThen type body :: after)
  | first {type : BlockType} {yes no : List Instr} (inside : Occurs piece yes)
      (before after : List Instr) : Occurs piece (before ++ .ifElse type yes no :: after)
  | second {type : BlockType} {yes no : List Instr} (inside : Occurs piece no)
      (before after : List Instr) : Occurs piece (before ++ .ifElse type yes no :: after)

namespace Occurs

variable {piece code more : List Instr}

theorem self : Occurs piece piece := by
  have alone : Occurs piece ([] ++ piece ++ []) := .here [] []
  simpa using alone

theorem append (occurs : Occurs piece code) (before after : List Instr) :
    Occurs piece (before ++ code ++ after) := by
  cases occurs with
  | here b a =>
    have wider : Occurs piece ((before ++ b) ++ piece ++ (a ++ after)) := .here _ _
    simpa using wider
  | block inside b a => simpa using inside.block (before ++ b) (a ++ after)
  | loop inside b a => simpa using inside.loop (before ++ b) (a ++ after)
  | ifThen inside b a => simpa using inside.ifThen (before ++ b) (a ++ after)
  | first inside b a => simpa using inside.first (before ++ b) (a ++ after)
  | second inside b a => simpa using inside.second (before ++ b) (a ++ after)

theorem before (occurs : Occurs piece code) (after : List Instr) : Occurs piece (code ++ after) :=
  occurs.append [] after

theorem behind (occurs : Occurs piece code) (first : List Instr) : Occurs piece (first ++ code) := by
  simpa using occurs.append first []

theorem trans (inner : Occurs piece more) (outer : Occurs more code) : Occurs piece code := by
  induction outer with
  | here before after => exact inner.append before after
  | block _ before after ih => exact ih.block before after
  | loop _ before after ih => exact ih.loop before after
  | ifThen _ before after ih => exact ih.ifThen before after
  | first _ before after ih => exact ih.first before after
  | second _ before after ih => exact ih.second before after

end Occurs

end Wasm.Instr

def Node.isRead : Node → Bool
  | .localGet _ _ | .globalGet _ _ => true
  | _ => false

namespace Lower

section
variable {l : Layout} {K : Tables} {sub : ExprId → List Instr → Prop}

theorem Codes.occurs {ids : List ExprId} {code : List Instr} (codes : Codes sub ids code) {x : ExprId}
    (mem : x ∈ ids) : ∃ piece, sub x piece ∧ Instr.Occurs piece code := by
  induction codes with
  | nil => cases mem
  | @cons id rest own others first _ ih =>
    rcases List.mem_cons.1 mem with rfl | mem
    · exact ⟨own, first, Instr.Occurs.self.before others⟩
    · obtain ⟨piece, is, occurs⟩ := ih mem
      exact ⟨piece, is, occurs.behind own⟩

theorem occurs_of_statements {ids : List ExprId} {code : List Instr}
    (codes : Codes (StatementCode l sub) ids code) {x : ExprId} (mem : x ∈ ids) :
    ∃ piece, sub x piece ∧ Instr.Occurs piece code := by
  obtain ⟨whole, statement, occurs⟩ := codes.occurs mem
  cases statement with
  | mk value => exact ⟨_, value, (Instr.Occurs.self.before _).trans occurs⟩

theorem SequenceCode.occurs {value : Bool} {items : List ExprId} {code : List Instr}
    (sequence : SequenceCode l sub value items code) {x : ExprId} (mem : x ∈ items) :
    ∃ piece, sub x piece ∧ Instr.Occurs piece code := by
  cases sequence with
  | statements all => exact occurs_of_statements all mem
  | empty => cases mem
  | @value _ ids last code final split others result =>
    subst split
    rcases List.mem_append.1 mem with mem | mem
    · obtain ⟨piece, is, occurs⟩ := occurs_of_statements others mem
      exact ⟨piece, is, occurs.before final⟩
    · cases List.mem_singleton.1 mem
      exact ⟨final, result, Instr.Occurs.self.behind code⟩

/-- The code of an operand stands in that of its node, unless it reads a variable. -/
theorem NodeCode.occurs {id : ExprId} {node : Node} {code : List Instr}
    (lowered : NodeCode l K sub id node code) {x : ExprId} (mem : x ∈ node.children)
    (computed : ∀ n, l.arena.node x = .ok n → n.isRead = false) :
    ∃ piece, sub x piece ∧ Instr.Occurs piece code := by
  have one {y : ExprId} {own : List Instr} (is : sub y own) (same : x = y) (after : List Instr) :
      ∃ piece, sub x piece ∧ Instr.Occurs piece (own ++ after) :=
    ⟨own, same ▸ is, Instr.Occurs.self.before after⟩
  cases lowered with
  | const | localGet | globalGet | leave | memorySize | nop => cases mem
  | localSet _ operand | globalSet _ operand => exact one operand (List.mem_singleton.1 mem) _
  | unary value => exact one value (List.mem_singleton.1 mem) _
  | ret result => exact one result (List.mem_singleton.1 mem) _
  | load place => exact one place (List.mem_singleton.1 mem) _
  | memoryGrow amount => exact one amount (List.mem_singleton.1 mem) _
  | @binary op left right code other first second | @store type addr right offset code other first second =>
    rw [List.append_assoc]
    rcases List.mem_cons.1 mem with rfl | mem
    · exact one first rfl _
    · obtain ⟨piece, is, occurs⟩ := one second (List.mem_singleton.1 mem) _
      exact ⟨piece, is, occurs.behind code⟩
  | call operands =>
    obtain ⟨piece, is, occurs⟩ := operands.occurs mem
    exact ⟨piece, is, occurs.before _⟩
  | @callIndirect index args signature type code slot operands chosen =>
    rw [List.append_assoc]
    rcases List.mem_append.1 mem with mem | mem
    · obtain ⟨piece, is, occurs⟩ := operands.occurs mem
      exact ⟨piece, is, occurs.before _⟩
    · obtain ⟨piece, is, occurs⟩ := one chosen (List.mem_singleton.1 mem) _
      exact ⟨piece, is, occurs.behind code⟩
  | block _ body => exact body.occurs mem
  | group operands => exact operands.occurs mem
  | extractLocal read | extractGlobal read =>
    cases List.mem_singleton.1 mem
    cases computed _ read
  | extract _ _ _ _ value =>
    rw [List.append_assoc]
    exact one value (List.mem_singleton.1 mem) _
  | @chooseBoth cond thenItems elseItems shape ts code first second type slots decided leaves yes no =>
    rcases List.mem_append.1 mem with mem | mem
    · rcases List.mem_cons.1 mem with rfl | mem
      · exact one decided rfl _
      · obtain ⟨piece, is, occurs⟩ := yes.occurs mem
        exact ⟨piece, is, occurs.first code []⟩
    · obtain ⟨piece, is, occurs⟩ := no.occurs mem
      exact ⟨piece, is, occurs.second code []⟩
  | @chooseOne cond thenItems shape code first slots decided yes =>
    rcases List.mem_append.1 mem with mem | mem
    · rcases List.mem_cons.1 mem with rfl | mem
      · exact one decided rfl _
      · obtain ⟨piece, is, occurs⟩ := yes.occurs mem
        exact ⟨piece, is, occurs.ifThen code []⟩
    · cases mem
  | @loop init step body cond initCode condCode bodyCode stepCode before test inside behind =>
    -- all but what comes before stands in the loop
    have again {piece round : List Instr} (occurs : Instr.Occurs piece round) :
        Instr.Occurs piece (initCode ++ [Instr.block .empty [.loop .empty round]]) :=
      ((occurs.loop [] []).block [] []).behind initCode
    simp only [Node.children, List.mem_append, List.mem_cons] at mem
    rcases mem with (mem | rfl | mem) | mem
    · obtain ⟨piece, is, occurs⟩ := occurs_of_statements before mem
      exact ⟨piece, is, occurs.before _⟩
    · have front : Instr.Occurs condCode condCode := .self
      exact ⟨condCode, test, again ((((front.before _).before _).before _).before _)⟩
    · obtain ⟨piece, is, occurs⟩ := occurs_of_statements inside mem
      exact ⟨piece, is, again (((occurs.behind _).before _).before _)⟩
    · obtain ⟨piece, is, occurs⟩ := occurs_of_statements behind mem
      exact ⟨piece, is, again ((occurs.behind _).before _)⟩

/-- The code of each expression that is evaluated as part of another stands in its code. -/
theorem CodeWithin.occurs {root id : ExprId} (within : l.arena.Within root id) {depth : Nat}
    {code : List Instr} (coded : CodeWithin l K depth root code)
    (computed : ∀ n, l.arena.node id = .ok n → n.isRead = false) :
    ∃ depth piece, CodeWithin l K (depth + 1) id piece ∧ Instr.Occurs piece code := by
  induction within with
  | self =>
    cases depth with
    | zero => exact coded.elim
    | succ depth => exact ⟨depth, code, coded, .self⟩
  | @child id child node _ here mem ih =>
    have inner (n : Node) (there : l.arena.node id = .ok n) : n.isRead = false := by
      cases here.symm.trans there
      cases node <;> first | rfl | cases mem
    obtain ⟨depth, whole, ⟨n, there, lowered⟩, outer⟩ := ih inner
    cases here.symm.trans there
    obtain ⟨piece, is, occurs⟩ := lowered.occurs mem computed
    cases depth with
    | zero => exact is.elim
    | succ depth => exact ⟨depth, piece, is, occurs.trans outer⟩

end

theorem FunctionCode.occurs {l : Layout} {types : List Signature} {signature : Signature}
    {shapes : List Shape} {body : List ExprId} {g : Wasm.Func}
    (code : FunctionCode l types signature shapes body g) {root id : ExprId} (mem : root ∈ body)
    (within : l.arena.Within root id) (computed : ∀ n, l.arena.node id = .ok n → n.isRead = false) :
    ∃ scratch depth piece, CodeWithin (l.withVariables shapes) ⟨types, scratch⟩ (depth + 1) id piece ∧
      Instr.Occurs piece g.body := by
  cases code with
  | @mk _ scratch _ _ statements =>
    obtain ⟨whole, coded, outer⟩ := occurs_of_statements statements mem
    have within' : (l.withVariables shapes).arena.Within root id := within
    obtain ⟨depth, piece, is, inner⟩ := CodeWithin.occurs within' coded computed
    exact ⟨scratch, depth, piece, is, inner.trans outer⟩

variable {c : Build} {types : List Signature} {m : Wasm.Module}

def HoldsCalls (c : Build) (types : List Signature) (shapes : List Shape) (body : List ExprId)
    (g : Wasm.Func) : Prop :=
  ∀ (root id : ExprId) (d : Callable) (args : List ExprId), root ∈ body → c.arena.Within root id →
    c.arena.Calls d args id → ∃ scratch depth code,
      CodeWithin ((moduleLayout c).withVariables shapes) ⟨types, scratch⟩ (depth + 1) id code ∧
      Instr.Occurs code g.body

theorem FunctionCode.holdsCalls {signature : Signature} {shapes : List Shape} {body : List ExprId}
    {g : Wasm.Func} (code : FunctionCode (moduleLayout c) types signature shapes body g) :
    HoldsCalls c types shapes body g := by
  intro root id d args mem within calls
  refine code.occurs mem within fun node here => ?_
  have here' : c.arena.node id = .ok node := here
  cases calls with
  | direct _ there | indirect _ _ there =>
    cases here'.symm.trans there
    rfl

/-- The functions of a module, and the start function behind them, hold the calls of their bodies. -/
structure CallsPlaced (c : Build) (types : List Signature) (m : Wasm.Module) : Prop where
  functions : ∀ (k : Nat) (f : Function) (scope : Scope) (body : List ExprId),
    c.functions[k]? = some f → f.kind = .defined scope body → ∃ n g, c.indexOf? k = some n ∧
      m.funcs[n - m.importedFuncs.length]? = some g ∧ HoldsCalls c types scope.shapes body g
  start : c.startBody ≠ [] → ∃ g, m.funcs.getLast? = some g ∧ HoldsCalls c types [] c.startBody g

theorem IndexSpaces.callsPlaced {tableExport : Option String}
    (spaces : IndexSpaces c tableExport types m) : CallsPlaced c types m := by
  constructor
  · intro k f scope body here kind
    obtain ⟨n, index, stands⟩ := spaces.stands k f here
    cases stands with
    | imported kind' => cases kind.symm.trans kind'
    | defined kind' _ there code =>
      cases kind.symm.trans kind'
      exact ⟨n, _, index, there, code.holdsCalls⟩
  · intro any
    cases spaces.starts with
    | nothing none => exact absurd none any
    | last _ _ _ last code => exact ⟨_, last, code.holdsCalls⟩

end Lower

namespace Session

variable {permits : Session → Body.Step → Prop} {s r : Session} {options : CompileOptions}
  {c : Build} {types : List Signature} {m : Wasm.Module}

/-- The module of a session, and what became in it of callables that the session handed out. -/
structure IndicesAgree (permits : Session → Body.Step → Prop) (s : Session)
    (options : CompileOptions) (c : Build) (types : List Signature) (m : Wasm.Module) : Prop where
  usable : s.build.failed = false
  size : c.functions.size = s.build.functions.size
  functions : ∀ (k : Nat) (f : Function), s.build.functions[k]? = some f →
    ∃ g, c.functions[k]? = some g ∧ f.Becomes g
  spaces : IndexSpaces c options.tableExport types m
  code : CodeTyped c types
  tells : ∀ (k : Nat) (d : Callable), s.build.callables[k]? = some d →
    ∃ f, c.functions[k]? = some f ∧ d.Tells k f
  slots : ∀ (k slot : Nat) (d : Callable), s.build.callables[k]? = some d →
    (d.kind = .indirect slot ↔ c.table.functions[slot]? = some k)
  /-- Calls that a body made at some time come to the callable that they were made for. -/
  calls : ∀ (r : Session) (opening : Opening) (body next : Body) (callable : Nat)
    (args : List ExprId) (o : Operand) (handed : List Operand), Reached permits r →
    r.body = some (opening, body) → Body.call callable args body = .ok o next →
    Leads permits ⟨r.build, some (opening, next), handed⟩ s →
    ∃ d, s.build.callables[callable]? = some d ∧ d.func = callable ∧
      args.length = d.params.length ∧
      ∀ (shapes : List Shape) (scratch : List NumType) (depth : Nat) (code : List Wasm.Instr),
        CodeWithin ((moduleLayout c).withVariables shapes) ⟨types, scratch⟩ depth o.id code →
        CallCode c types d code
  /-- What was exported at some time is exported under the index of its function. -/
  exports : ∀ (r : Session) (name : String) (callable : Nat) (b : Build) (handed : List Operand),
    Reached permits r → r.body = none → Build.exportAs name callable r.build = .ok true b →
    Leads permits ⟨b, none, handed⟩ s →
    ∃ n, c.indexOf? callable = some n ∧ ⟨name, .func, n⟩ ∈ m.exports
  /-- So are the callables of a library that was adopted. -/
  libraries : ∀ (r : Session) (key : String) (library : Library) (b : Build)
    (handed : List Operand), Reached permits r → r.body = none →
    Build.adopt key library r.build = .ok ⟨⟩ b → Leads permits ⟨b, none, handed⟩ s →
    ∃ made, b.exports = r.build.exports ++ made ∧ made.Sublist library.entries ∧
      ∀ e ∈ made, ∃ n, c.indexOf? e.2 = some n ∧ ⟨e.1, .func, n⟩ ∈ m.exports

theorem exists_export {tableExport : Option String} (spaces : IndexSpaces c tableExport types m)
    {e : String × Nat} (mem : e ∈ c.exports) :
    ∃ n, c.indexOf? e.2 = some n ∧ ⟨e.1, .func, n⟩ ∈ m.exports := by
  obtain ⟨made, each, all⟩ := spaces.exports
  obtain ⟨i, here⟩ := List.mem_iff_getElem?.1 mem
  obtain ⟨⟨name, kind, n⟩, there, is⟩ := exists_getElem?_of_forall₂ each here
  obtain ⟨rfl, rfl, index⟩ := is
  refine ⟨n, index, ?_⟩
  rw [all]
  exact List.mem_append_left _ (List.mem_of_getElem? there)

/-- Index spaces agree: whatever a session did with a callable means, in the module of the session,
the function of that callable. -/
theorem index_spaces_agree (reached : Reached permits s) (idle : s.body = none)
    (done : Build.assemble options s.build = .ok m c) :
    ∃ types, IndicesAgree permits s options c types m := by
  have ⟨usable, _, lowered, _⟩ := Build.assemble_eq_ok done
  have ⟨tidies, _⟩ := (Build.tidies_assemble options).of_ok done
  have ⟨types, spaces⟩ := Lower.indexSpaces lowered
  have same := tidies.same
  have later := tidies.course.later
  have matched : s.build.Matched := by
    rw [← current_of_idle idle]
    exact matched_of_reached reached
  have matched' : c.Matched := matched.course tidies.course
  have current (t : Session) (leads : Leads permits t s) : t.current.Later s.build := by
    rw [← current_of_idle idle]
    exact leads.later
  refine ⟨types, usable, same.size, later.functions, spaces, Lower.codeTyped c types, ?_, ?_, ?_, ?_, ?_⟩
  · intro k d here
    exact matched'.tells k d (later.callables k d here)
  · intro k slot d here
    exact matched'.slot_iff (later.callables k d here)
  · intro r opening body next callable args o handed reached busy called leads
    obtain ⟨d, known, counted, calls⟩ := Body.call_eq_ok called
    have later' := current _ leads
    have orderly := (orderly_of_reached reached).callables opening body busy
    rw [orderly] at known
    have here : s.build.callables[callable]? = some d := later'.callables _ d known
    have ⟨f, _, tells⟩ := matched.tells callable d here
    refine ⟨d, here, tells.func, counted, ?_⟩
    intro shapes scratch depth code coded
    apply Lower.callCode coded
    · exact calls.lasts (later'.lasts.trans later.lasts)
    · intro slot kind
      rw [tells.func]
      exact (matched'.slot_iff (later.callables _ d here)).1 kind
  · intro r name callable b handed reached idle' exported leads
    have before := matched_of_reached reached
    rw [current_of_idle idle'] at before
    obtain ⟨did, b', run, -, added⟩ := Build.exports_exportAs before name callable
    cases exported.symm.trans run
    apply exists_export spaces (e := (name, callable))
    have later' := ((current _ leads).exports.trans later.exports).subset
    exact later' (by rw [current_of_idle rfl, added]; simp)
  · intro r key library b handed reached idle' adopted leads
    have before := matched_of_reached reached
    rw [current_of_idle idle'] at before
    obtain ⟨made, added, sublist⟩ := Build.exports_adopt before adopted
    refine ⟨made, added, sublist, fun e mem => exists_export spaces ?_⟩
    have later' := ((current _ leads).exports.trans later.exports).subset
    exact later' (by rw [current_of_idle rfl, added]; exact List.mem_append_right _ mem)

def tickBuild : Build where
  functions := #[⟨"rest", [], .none, .defined {} []⟩, ⟨"tick", [], .none, .imported ⟨"env", "tick"⟩⟩]
  callables := #[⟨"rest", 0, .direct, [], .none⟩, ⟨"tick", 1, .external, [], .none⟩]
  pending := [0]
  imports := ⟨[(⟨"env", "tick"⟩, .func (.failing ⟨[], []⟩ .calls))]⟩

def mixedBuild : Build where
  arena := ⟨#[⟨.call 0 [] ⟨[], []⟩, some .none⟩]⟩
  functions := #[⟨"rest", [], .none, .defined {} []⟩,
    ⟨"tick", [], .none, .imported ⟨"env", "tick"⟩⟩, ⟨"main", [], .none, .defined {} [0]⟩]
  callables := tickBuild.callables.push ⟨"main", 2, .indirect 0, [], .none⟩
  table := ⟨#[(2, ⟨0, "main", [], .none⟩)]⟩
  exports := [("rest", 0)]
  pending := [2]
  imports := tickBuild.imports

theorem reached_tickBuild : Reached Lawful ⟨tickBuild, none, []⟩ := by
  let rest : Build.Draft := ⟨false, "rest", { id := some "rest", result := .none }⟩
  let defined : Build :=
    { functions := #[⟨"rest", [], .none, .defined {} []⟩]
      callables := #[⟨"rest", 0, .direct, [], .none⟩], pending := [0] }
  let tick : ExternalDecl := { key := ⟨"env", "tick"⟩, id := some "tick" }
  have opened : Reached Lawful
      ⟨{}, some (.function rest, Build.newBody {} {} .local .none), []⟩ :=
    Reached.start.next
      (.openFunction rfl (Build.openFunction_of_free rfl (by simp [Build.isTaken, fresh])))
  have closed : Reached Lawful ⟨defined, none, []⟩ := opened.close rfl rfl
  exact closed.chore rfl (.external tick fun signature => .failing signature .calls)
    (Build.left_external_of_free rfl (by simp [defined, Build.isTaken]) _)

theorem lawful_mixedBuild : Reached Lawful ⟨mixedBuild, none, [.plain 0]⟩ := by
  let main : Build.Draft := ⟨true, "main", { id := some "main", result := .none }⟩
  let body : Body := tickBuild.newBody {} .local .none
  let done : Body := { body with arena := mixedBuild.arena, statements := [0] }
  let declared : Build := { mixedBuild with exports := [], pending := [2, 0] }
  have opened : Reached Lawful ⟨tickBuild, some (.function main, body), []⟩ :=
    reached_tickBuild.next
      (.openFunction rfl (Build.openFunction_of_free rfl (by simp [tickBuild, Build.isTaken])))
  have called : Reached Lawful
      ⟨tickBuild, some (.function main, { body with arena := mixedBuild.arena }), [.plain 0]⟩ :=
    opened.take rfl (.call 0 []) (lawful_of_nil rfl rfl) rfl
  have given : ∀ o ∈ (Body.Step.exec [0]).operands, Session.HandedOut
      ⟨tickBuild, some (.function main, { body with arena := mixedBuild.arena }), [.plain 0]⟩ o :=
    fun o mem => .inl mem
  have filled : Reached Lawful ⟨tickBuild, some (.function main, done), [.plain 0]⟩ :=
    called.take rfl (.exec [0]) ⟨rfl, given⟩ rfl
  have left : Build.left (Opening.close (.function main) done) tickBuild = declared := by
    have append : tickBuild.table.append 2 "main" [] .none = .ok declared.table := by
      simp [tickBuild, declared, mixedBuild, IndirectTable.append, IndirectTable.size]
    have run : Build.closeFunction main done tickBuild = .ok 2 declared :=
      Build.closeFunction_of_append rfl append
    simp only [Build.left, Opening.close, bind, EStateM.bind, run]
    rfl
  have closed : Reached Lawful ⟨declared, none, [.plain 0]⟩ := filled.close rfl left
  exact closed.chore rfl (.exportAs "rest" 0) rfl

theorem reached_mixedBuild : Reached (fun _ _ => True) ⟨mixedBuild, none, [.plain 0]⟩ :=
  lawful_mixedBuild.mono fun _ _ _ => trivial

theorem lower_mixedBuild : ∃ m, mixedBuild.lower none = .ok m := by
  let listed : Lower.LowerState := { types := #[⟨[], []⟩] }
  have first : Lower.intern ⟨[], []⟩ {} = .ok (0, listed) := by simp [Lower.intern, listed]
  have again : Lower.intern ⟨[], []⟩ listed = .ok (0, listed) := by simp [Lower.intern, listed]
  have rest : Lower.declaration (moduleLayout mixedBuild) ⟨"rest", [], .none, .defined {} []⟩ {} =
      .ok (.defined ⟨0, [], []⟩, listed) := by
    simp only [Lower.declaration, bind, StateT.bind]
    erw [first]
    rfl
  have tick : Lower.declaration (moduleLayout mixedBuild)
      ⟨"tick", [], .none, .imported ⟨"env", "tick"⟩⟩ listed =
      .ok (.imported ⟨⟨"env", "tick"⟩, .func 0⟩, listed) := by
    simp only [Lower.declaration, bind, StateT.bind]
    erw [again]
    rfl
  have main : Lower.declaration (moduleLayout mixedBuild) ⟨"main", [], .none, .defined {} [0]⟩ listed =
      .ok (.defined ⟨0, [], [.call 1]⟩, listed) := by
    simp only [Lower.declaration, bind, StateT.bind]
    erw [again]
    rfl
  have all : Lower.functions (moduleLayout mixedBuild) mixedBuild.functions.toList
      mixedBuild.startBody {} =
      .ok (([.defined ⟨0, [], []⟩, .imported ⟨⟨"env", "tick"⟩, .func 0⟩,
        .defined ⟨0, [], [.call 1]⟩], none), listed) := by
    have each : mixedBuild.functions.toList = [⟨"rest", [], .none, .defined {} []⟩,
      ⟨"tick", [], .none, .imported ⟨"env", "tick"⟩⟩, ⟨"main", [], .none, .defined {} [0]⟩] := rfl
    simp only [Lower.functions, each, List.mapM_cons, List.mapM_nil, bind, StateT.bind,
      Except.bind, rest, tick, main]
    rfl
  simp only [Build.lower, bind, Except.bind, StateT.run, all]
  exact ⟨_, rfl⟩

theorem index_spaces_agree_of_mixed : ∃ (s : Session) (c : Build) (m : Wasm.Module),
    Reached (fun _ _ => True) s ∧ s.body = none ∧
    Build.assemble ⟨false, false, none, none⟩ s.build = .ok m c ∧
    c.indexOf? 0 = some 1 ∧ c.indexOf? 1 = some 0 ∧ c.indexOf? 2 = some 2 ∧
    ∃ types, IndicesAgree (fun _ _ => True) s ⟨false, false, none, none⟩ c types m := by
  obtain ⟨m, lowered⟩ := lower_mixedBuild
  have done : Build.assemble ⟨false, false, none, none⟩ mixedBuild = .ok m mixedBuild :=
    Build.assemble_of_lower rfl rfl lowered nofun
  exact ⟨_, _, m, reached_mixedBuild, rfl, done, rfl, rfl, rfl,
    index_spaces_agree reached_mixedBuild rfl done⟩

end Session

end WasmBuilder
