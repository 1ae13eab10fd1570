import WasmBuilder.Proofs.Lowering.Indices
import WasmBuilder.Proofs.Typing.Lowered
import WasmBuilder.Proofs.Typing.Lowers
import WasmBuilder.Proofs.Wasm.Indices

/-!
Well-typed bodies of a build are valid in its module.
-/

set_option autoImplicit false

namespace WasmBuilder

open Lower (Layout LowerState Tables Codes StatementCode ExprCode)
open Wasm (Effect Instr)

namespace Build

def setting (b : Build) (tableExport : Option String) (shapes : List Shape)
    (results : List NumType) : Setting where
  arena := b.arena
  locals := shapes
  globals := b.globals.shapes
  signatures := b.functions.toList.map Function.signature
  results := results
  hasMemory := b.memory.isSome
  hasTable := !b.table.functions.isEmpty || tableExport.isSome

def layout (b : Build) (shapes : List Shape) : Layout :=
  (Lower.moduleLayout b).withVariables shapes

/-- The bodies of a build, each with the signature of its function and the shapes of its
variables. -/
inductive HasBody (b : Build) : Signature → List Shape → List ExprId → Prop
  | function {k : Nat} {f : Function} {scope : Scope} {body : List ExprId}
      (here : b.functions[k]? = some f) (kind : f.kind = .defined scope body) :
      HasBody b f.signature scope.shapes body
  | start (any : b.startBody ≠ []) : HasBody b ⟨[], []⟩ [] b.startBody

/-- A body whose expressions are well typed. The variables begin with the parameters, and machine
indices are words. -/
structure TypedBody (b : Build) (tableExport : Option String) (signature : Signature)
    (shapes : List Shape) (body : List ExprId) : Prop where
  isTyped : (b.setting tableExport shapes signature.results).BodyTyped body
  params : signature.params <+: shapes.flatMap Shape.flatten
  localWords : (shapes.flatMap Shape.flatten).length < 2 ^ 32
  globalWords : (b.globals.shapes.flatMap Shape.flatten).length < 2 ^ 32

end Build

namespace Lower

variable {b : Build} {tableExport : Option String} {types : List Signature} {lowered : List Lowered}
  {start : Option Wasm.Func} {memory : List Wasm.Import} {table : List Nat}
  {exports : List Wasm.Export}

theorem Parts.exists_func (parts : Parts b types lowered start) {signature : Signature}
    {shapes : List Shape} {body : List ExprId} (here : b.HasBody signature shapes body) :
    ∃ g ∈ (assembled b tableExport types lowered start memory table exports).funcs,
      FunctionCode (moduleLayout b) types signature shapes body g := by
  cases here with
  | @function k f scope body here kind =>
    have here' : b.functions.toList[k]? = some f := by rw [Array.getElem?_toList, here]
    obtain ⟨low, there, code⟩ := exists_getElem?_of_forall₂ parts.declarations here'
    cases code with
    | imported other => cases kind.symm.trans other
    | @defined scope' body' g other code =>
      cases kind.symm.trans other
      refine ⟨g, List.mem_append_left _ ?_, code⟩
      exact List.mem_filterMap.2 ⟨.defined g, List.mem_of_getElem? there, rfl⟩
  | start any =>
    obtain ⟨g, rfl, code⟩ := parts.start.exists_of_ne any
    exact ⟨g, List.mem_append_right _ List.mem_cons_self, code⟩

/-- A context with all that code of a build refers to, whose function types begin with these. -/
structure Offers (b : Build) (tableExport : Option String) (types : List Signature)
    (c : Wasm.Context) : Prop where
  types : ∀ (i : Nat) (s : Signature), types[i]? = some s → c.types[i]? = some s.funcType
  funcs : ∀ (k : Nat) (f : Function), b.functions[k]? = some f →
    ∃ i, (moduleLayout b).funcIndices[k]? = some i ∧ c.funcs[i]? = some f.signature.funcType
  globals : c.globals.toList = (b.globals.shapes.flatMap Shape.flatten).map fun t => ⟨.num t, true⟩
  memory : b.memory.isSome = true → ∃ t, c.memories[0]? = some t ∧ t.address = .w32
  table : (!b.table.functions.isEmpty || tableExport.isSome) = true →
    ∃ t, c.tables[0]? = some t ∧ t.element = .func ∧ t.address = .w32

/-- The module of a build offers what its code refers to. -/
theorem Parts.exists_context (parts : Parts b types lowered start)
    (imported : memoryImport b.memory = .ok memory)
    (slots : b.table.functions.mapM (moduleLayout b).funcIndex = .ok table) :
    ∃ c, (assembled b tableExport types lowered start memory table exports).context? = some c ∧
      Offers b tableExport types c := by
  obtain ⟨fts, all, funcs⟩ := exists_funcTypes parts imported tableExport table exports
  -- declarations import functions only, and besides there is at most a memory
  have none {α : Type} (f : Wasm.ImportType → Option α) (other : ∀ t, f (.func t) = none) :
      (lowered.filterMap Lowered.import?).filterMap (fun i => f i.type) = [] := by
    refine List.filterMap_eq_nil_iff.2 fun i mem => ?_
    obtain ⟨t, _, type, _⟩ := import_typed parts.declarations mem
    rw [type, other]
  refine ⟨_, by rw [Wasm.Module.context?, all]; rfl, ?_, ?_, ?_, ?_, ?_⟩
  · intro i s here
    simp [assembled, here]
  · intro k f here
    obtain ⟨i, found, type⟩ := funcs k f here
    exact ⟨i, found, by simpa using type⟩
  · have memories : memory.filterMap (·.type.global?) = [] := by
      rcases memoryImport_eq_ok imported with ⟨_, rfl⟩ | ⟨m, _, _, rfl⟩ <;> rfl
    simp only [Wasm.Module.allGlobals, Wasm.Module.importedGlobals, assembled, List.filterMap_append,
      none Wasm.ImportType.global? fun _ => rfl, memories, List.nil_append, List.map_map]
    rfl
  · intro some
    rcases memoryImport_eq_ok imported with ⟨without, _⟩ | ⟨m, _, _, rfl⟩
    · rw [without] at some
      cases some
    · refine ⟨.ofLimits ⟨m.initial, m.maximum⟩, ?_, rfl⟩
      simp only [Wasm.Module.allMemories, Wasm.Module.importedMemories, assembled,
        List.filterMap_append, none Wasm.ImportType.memory? fun _ => rfl]
      rfl
  · intro some
    have memories : memory.filterMap (·.type.table?) = [] := by
      rcases memoryImport_eq_ok imported with ⟨_, rfl⟩ | ⟨m, _, _, rfl⟩ <;> rfl
    have same : table.isEmpty = b.table.functions.isEmpty := by
      rw [Bool.eq_iff_iff, List.isEmpty_iff_length_eq_zero, List.isEmpty_iff_length_eq_zero,
        (mapM_eq_ok_iff.1 slots).length_eq]
    refine ⟨tableType table.length, ?_, rfl, rfl⟩
    simp only [Wasm.Module.allTables, Wasm.Module.importedTables, assembled, List.filterMap_append,
      none Wasm.ImportType.table? fun _ => rfl, memories, List.nil_append, same, some, if_true]
    rfl

end Lower

namespace Build

variable {b : Build} {tableExport : Option String} {signature : Signature} {shapes : List Shape}
  {body : List ExprId}

theorem laid_layout {results : List NumType}
    (localWords : (shapes.flatMap Shape.flatten).length < 2 ^ 32)
    (globalWords : (b.globals.shapes.flatMap Shape.flatten).length < 2 ^ 32) :
    (b.setting tableExport shapes results).Laid (b.layout shapes) where
  arena := rfl
  localBases := rfl
  globalBases := rfl
  scratchBase := Shape.sum_width shapes
  localWords := localWords
  globalWords := globalWords

theorem TypedBody.laid (typed : b.TypedBody tableExport signature shapes body) :
    (b.setting tableExport shapes signature.results).Laid (b.layout shapes) :=
  laid_layout typed.localWords typed.globalWords

theorem exists_function {results : List NumType} {k : Nat} {s : Signature}
    (here : (b.setting tableExport shapes results).signatures[k]? = some s) :
    ∃ f, b.functions[k]? = some f ∧ f.signature = s := by
  rw [setting, List.getElem?_map, Array.getElem?_toList] at here
  exact Option.map_eq_some_iff.1 here

theorem exists_funcIndex (b : Build) (tableExport : Option String) (shapes : List Shape)
    (results : List NumType) (k : Nat) (s : Signature)
    (here : (b.setting tableExport shapes results).signatures[k]? = some s) :
    ∃ i, (b.layout shapes).funcIndices[k]? = some i := by
  obtain ⟨f, there, _⟩ := exists_function here
  exact Lower.exists_funcIndex there

/-- The context of a lowered function provides for its body. -/
theorem TypedBody.provided (typed : b.TypedBody tableExport signature shapes body)
    {types : List Signature} {c : Wasm.Context} (offers : Lower.Offers b tableExport types c)
    (scratch : List NumType) :
    (b.setting tableExport shapes signature.results).Provided (b.layout shapes) ⟨types, scratch⟩
      (c.forBody signature.funcType
        (((shapes.flatMap Shape.flatten).drop signature.params.length ++ scratch).map .num)) where
  locals := by
    obtain ⟨rest, whole⟩ := typed.params
    simp only [Wasm.Context.forBody, setting, Signature.funcType, ← whole, List.drop_left,
      ← List.map_append, List.append_assoc]
  globals := offers.globals
  types := offers.types
  funcs := by
    intro k s here
    obtain ⟨f, there, rfl⟩ := exists_function here
    exact offers.funcs k f there
  memory := offers.memory
  table := offers.table
  results := rfl

/-- What a function of a module is worth as the code of a body: every expression and statement, where
the lowering of the body gets to it, has code of the effect that its slots tell, everything that the
code names is there, and the function passes validation unless it has too many locals. -/
structure ValidBody (b : Build) (tableExport : Option String) (signature : Signature)
    (shapes : List Shape) (body : List ExprId) (c : Wasm.Context) (g : Wasm.Func)
    (K : Tables) : Prop where
  typed : c.types[g.typeIndex]? = some signature.funcType
  locals : g.locals =
    ((shapes.flatMap Shape.flatten).drop signature.params.length ++ K.scratch).map .num
  lowered : Codes (StatementCode (b.layout shapes) (ExprCode (b.layout shapes) K)) body g.body
  expressions : ∀ (id : ExprId) (ts : List NumType),
    (b.setting tableExport shapes signature.results).WellTyped id → b.arena.slots id = .ok ts →
    ∀ s : LowerState, s.Free → ∃ code t, (b.layout shapes).expr id s = .ok (code, t) ∧
      (t.tables.Extends K →
        Effect (c.forBody signature.funcType g.locals) code [] (ts.map .num))
  statements : ∀ id : ExprId, (b.setting tableExport shapes signature.results).WellTyped id →
    ∀ s : LowerState, s.Free →
      ∃ code t, (b.layout shapes).statement (b.layout shapes).expr id s = .ok (code, t) ∧
        (t.tables.Extends K → Effect (c.forBody signature.funcType g.locals) code [] [])
  named : Instr.namesListedSeq (c.forBody signature.funcType g.locals) g.body = true
  isTyped : Instr.isTyped g.body (c.forBody signature.funcType g.locals)
    signature.funcType.results = true
  checked : Wasm.Module.checkFunc c g =
    decide (signature.params.length + g.locals.length ≤ Wasm.capacity.locals)

section
variable (typed : b.TypedBody tableExport signature shapes body)

include typed

theorem TypedBody.validBody {types : List Signature} {c : Wasm.Context} {g : Wasm.Func}
    (offers : Lower.Offers b tableExport types c)
    (code : Lower.FunctionCode (Lower.moduleLayout b) types signature shapes body g) :
    ∃ scratch, b.ValidBody tableExport signature shapes body c g ⟨types, scratch⟩ := by
  cases code with
  | @mk typeIndex scratch code listed statements =>
    have laid := typed.laid
    have provided := typed.provided offers scratch
    have known := exists_funcIndex b tableExport shapes signature.results
    have whole := Setting.effect_body laid provided typed.isTyped statements
    have isTyped := whole.isTyped
    have fits : c.types[typeIndex]? = some signature.funcType := offers.types typeIndex signature listed
    refine ⟨scratch, fits, rfl, statements, ?_, ?_, ?_, isTyped, ?_⟩
    -- each expression by itself, from any tables on
    · intro id ts well slots s free
      obtain ⟨code, t, run, _⟩ := Setting.succeeds_expr laid known well s free trivial
      refine ⟨code, t, run, fun le => ?_⟩
      obtain ⟨_, _, lowered⟩ := Lower.yields_exprWithin _ _ id s code t free run
      exact Setting.effective_codeWithin laid _ id code ts (lowered _ le) well slots _ provided
    · intro id well s free
      obtain ⟨code, t, run, _⟩ := Setting.succeeds_statement laid known well s free trivial
      refine ⟨code, t, run, fun le => ?_⟩
      obtain ⟨_, _, lowered⟩ := Lower.yields_statement
        (Lower.yields_exprWithin (b.layout shapes) (b.layout shapes).arena.pathBound)
        id s code t free run
      exact Setting.effect_statement (Setting.effective_codeWithin laid _) provided laid
        (lowered _ le) well
    · obtain ⟨u, checked, _⟩ := whole ⟨[], false⟩ ⟨[], false⟩ (.refl _)
      exact Instr.namesListedSeq_of_checkSeq _ code [signature.funcType.results] checked
    · have accepted : Instr.isTyped code (c.forBody signature.funcType
          (((shapes.flatMap Shape.flatten).drop signature.params.length ++ scratch).map .num))
          signature.funcType.results = true := isTyped
      simp only [Wasm.Module.checkFunc, fits, accepted, Bool.and_true]
      simp [Signature.funcType]

/-- Well-typed bodies are valid: lowering them succeeds from wherever it is, and in every module of
the build there is a function for the body that validation accepts. -/
theorem typed_body_validates (here : b.HasBody signature shapes body) :
    (∀ s : LowerState, s.Free → ∃ code t, (b.layout shapes).body body s = .ok (code, t)) ∧
      ∀ m : Wasm.Module, b.lower tableExport = .ok m →
        ∃ c K, m.context? = some c ∧ m.types = K.types.map Signature.funcType ∧
          ∃ g ∈ m.funcs, b.ValidBody tableExport signature shapes body c g K := by
  refine ⟨fun s free => ?_, fun m done => ?_⟩
  · have known := exists_funcIndex b tableExport shapes signature.results
    obtain ⟨code, t, run, _⟩ :=
      Setting.succeeds_body typed.laid known typed.isTyped.statements s free trivial
    exact ⟨code, t, run⟩
  · obtain ⟨types, lowered, start, memory, table, exports, parts, imported, slots, _, rfl⟩ :=
      Lower.lower_eq_ok done
    obtain ⟨c, context, offers⟩ := parts.exists_context imported slots
    obtain ⟨g, mem, code⟩ := parts.exists_func here
    obtain ⟨scratch, valid⟩ := typed.validBody offers code
    exact ⟨c, ⟨types, scratch⟩, context, rfl, g, mem, valid⟩

end

def secondField : Build where
  arena := ⟨#[⟨.localGet 0 (.tuple [.num .i32, .num .i64]), none⟩, ⟨.extract 0 1 1 1, none⟩,
    ⟨.ret (some 1), none⟩]⟩
  functions := #[⟨"second", [.tuple [.num .i32, .num .i64]], .num .i64,
    .defined ⟨#[⟨"pair", .tuple [.num .i32, .num .i64], .param⟩]⟩ [2]⟩]

theorem secondField_hasBody :
    secondField.HasBody ⟨[.i32, .i64], [.i64]⟩ [.tuple [.num .i32, .num .i64]] [2] :=
  @HasBody.function secondField 0 ⟨"second", [.tuple [.num .i32, .num .i64]], .num .i64,
    .defined ⟨#[⟨"pair", .tuple [.num .i32, .num .i64], .param⟩]⟩ [2]⟩
    ⟨#[⟨"pair", .tuple [.num .i32, .num .i64], .param⟩]⟩ [2] rfl rfl

theorem secondField_typedBody :
    secondField.TypedBody none ⟨[.i32, .i64], [.i64]⟩ [.tuple [.num .i32, .num .i64]] [2] := by
  refine ⟨⟨fun id mem => ?_, fun _ => ⟨2, 1, rfl, rfl⟩⟩, ⟨[], rfl⟩, by decide, by decide⟩
  cases List.mem_singleton.1 mem
  refine .mk rfl rfl rfl fun x mem => ?_
  cases List.mem_singleton.1 mem
  refine .mk rfl rfl ⟨[.i32, .i64], rfl, by decide⟩ fun x mem => ?_
  cases List.mem_singleton.1 mem
  exact .mk rfl rfl ⟨_, rfl, rfl⟩ fun x mem => by cases mem

theorem secondField_body_validates :
    secondField.TypedBody none ⟨[.i32, .i64], [.i64]⟩ [.tuple [.num .i32, .num .i64]] [2] ∧
      ∀ m : Wasm.Module, secondField.lower none = .ok m → ∃ c, m.context? = some c ∧
        ∃ g ∈ m.funcs, Wasm.Module.checkFunc c g = decide (2 + g.locals.length ≤ 50000) := by
  refine ⟨secondField_typedBody, fun m done => ?_⟩
  obtain ⟨c, K, context, _, g, mem, valid⟩ :=
    (typed_body_validates secondField_typedBody secondField_hasBody).2 m done
  exact ⟨c, context, g, mem, valid.checked⟩

end Build

end WasmBuilder
