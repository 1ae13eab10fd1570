import WasmBuilder.Proofs.Labels.Session
import WasmBuilder.Proofs.Lowering.Module
import WasmBuilder.Proofs.Simplify.Flattened

/-!
The binary of a build whose bodies are flattened.

Only one thing is told by a flattened body that was not told before: start statements of which none
is left make no start function any more.
-/

set_option autoImplicit false

namespace WasmBuilder

/-- The module with a start function of this index that does nothing. Its type comes last when no
other function has it. -/
def Wasm.Module.startingIdle (m : Wasm.Module) (index : Nat) : Wasm.Module :=
  { m with
    types := if ⟨[], []⟩ ∈ m.types then m.types else m.types ++ [⟨[], []⟩]
    funcs := m.funcs ++ [⟨m.types.idxOf ⟨[], []⟩, [], []⟩]
    start := some index }

theorem Signature.idxOf_map_funcType (s : Signature) (types : List Signature) :
    (types.map funcType).idxOf s.funcType = types.idxOf s := by
  induction types with
  | nil => rfl
  | cons t ts ih =>
    rw [List.map_cons, List.idxOf_cons, List.idxOf_cons, ih]
    by_cases same : t = s
    · rw [same, beq_self_eq_true, beq_self_eq_true]
    · rw [beq_false_of_ne same, beq_false_of_ne (mt funcType_injective same)]

theorem forall₂_modify {α : Type} {R : α → α → Prop} (refl : ∀ x, R x x) {change : α → α}
    {xs : List α} {i : Nat} (changed : ∀ x, xs[i]? = some x → R x (change x)) :
    List.Forall₂ R xs (xs.modify i change) := by
  induction xs generalizing i with
  | nil => simp
  | cons x xs ih =>
    cases i with
    | zero => exact .cons (changed x rfl) (List.forall₂_same.2 fun y _ => refl y)
    | succ i => exact .cons (refl x) (ih changed)

namespace Lower

/-- The index of a type is where it stands, or behind all others. -/
theorem intern_eq (signature : Signature) (s : LowerState) :
    intern signature s = .ok (s.types.toList.idxOf signature,
      { s with types := if signature ∈ s.types then s.types else s.types.push signature }) := by
  obtain ⟨⟨types⟩, scratch⟩ := s
  rw [intern, List.findIdx?_toArray]
  by_cases known : signature ∈ types
  · have found : types.findIdx? (· = signature) = some (types.idxOf signature) :=
      List.findIdx?_eq_some_of_exists ⟨signature, known, decide_eq_true rfl⟩
    simp only [found, List.mem_toArray, known, if_true]
  · have missing : types.findIdx? (· = signature) = none :=
      List.findIdx?_eq_none_iff.2 fun x mem => decide_eq_false (ne_of_mem_of_not_mem mem known)
    simp only [missing, List.mem_toArray, known, if_false, List.idxOf_eq_length known]
    rfl

theorem funcIndicesFrom_congr {fs gs : List Function}
    (kinds : List.Forall₂ (fun f g => g.isImported = f.isImported) fs gs)
    (nextImport nextDefined : Nat) :
    funcIndicesFrom nextImport nextDefined gs = funcIndicesFrom nextImport nextDefined fs := by
  induction kinds generalizing nextImport nextDefined with
  | nil => rfl
  | cons same _ ih => simp only [funcIndicesFrom, same, ih]

theorem funcIndices_congr {fs gs : List Function}
    (kinds : List.Forall₂ (fun f g => g.isImported = f.isImported) fs gs) :
    funcIndices gs = funcIndices fs := by
  have count : gs.countP Function.isImported = fs.countP Function.isImported := by
    induction kinds with
    | nil => rfl
    | cons same _ ih => rw [List.countP_cons, List.countP_cons, ih, same]
  rw [funcIndices, funcIndices, count, funcIndicesFrom_congr kinds]

section
variable {l : Layout} {fs : List Function} {body : List ExprId} {n : Nat} {s t : LowerState}
  {lowered : List Lowered} {start : Option Wasm.Func}

theorem startFunction_of_idle (expansion : l.arena.Expansion body [] n) (any : body ≠ []) :
    startFunction l body s = .ok (start, t) ↔
      start = some ⟨s.types.toList.idxOf ⟨[], []⟩, [], []⟩ ∧
      t = ⟨if ⟨[], []⟩ ∈ s.types then s.types else s.types.push ⟨[], []⟩, #[]⟩ := by
  rw [startFunction, List.isEmpty_eq_false_iff.2 any]
  -- the code is that of no statements at all, so only the type is interned
  have alike (typeIndex : Nat) :
      Alike (do return some (← function l typeIndex 0 [] body))
        (do return some (← function l typeIndex 0 [] [])) :=
    (alike_function expansion typeIndex 0 []).bind fun _ => .refl _
  have idle (typeIndex : Nat) (u : LowerState) :
      (do return some (← function l typeIndex 0 [] []) : LowerM (Option Wasm.Func)) u =
        .ok (some ⟨typeIndex, [], []⟩, ⟨u.types, #[]⟩) := rfl
  refine (((Alike.refl (intern ⟨[], []⟩)).bind alike s _).trans bind_eq_ok).trans ?_
  simp only [intern_eq, idle]
  constructor
  · rintro ⟨_, _, ⟨⟩, ⟨⟩⟩
    exact ⟨rfl, rfl⟩
  · rintro ⟨rfl, rfl⟩
    exact ⟨_, _, rfl, rfl⟩

theorem functions_nil_eq_ok_iff : functions l fs [] s = .ok ((lowered, start), t) ↔
    fs.mapM (declaration l) s = .ok (lowered, t) ∧ start = none := by
  refine bind_eq_ok.trans ?_
  constructor
  · rintro ⟨_, _, run, ⟨⟩⟩
    exact ⟨run, rfl⟩
  · rintro ⟨run, rfl⟩
    exact ⟨lowered, t, run, rfl⟩

theorem functions_of_idle (expansion : l.arena.Expansion body [] n) (any : body ≠ []) :
    functions l fs body s = .ok ((lowered, start), t) ↔
      ∃ u, fs.mapM (declaration l) s = .ok (lowered, u) ∧
        start = some ⟨u.types.toList.idxOf ⟨[], []⟩, [], []⟩ ∧
        t = ⟨if ⟨[], []⟩ ∈ u.types then u.types else u.types.push ⟨[], []⟩, #[]⟩ := by
  refine bind_eq_ok.trans ?_
  constructor
  · rintro ⟨_, u, run, rest⟩
    obtain ⟨_, _, starts, ⟨⟩⟩ := bind_eq_ok.1 rest
    exact ⟨u, run, (startFunction_of_idle expansion any).1 starts⟩
  · rintro ⟨u, run, starts⟩
    exact ⟨lowered, u, run,
      bind_eq_ok.2 ⟨start, t, (startFunction_of_idle expansion any).2 starts, rfl⟩⟩

end

theorem startingIdle_assembled (b : Build) (tableExport : Option String) (types : List Signature)
    (lowered : List Lowered) (memory : List Wasm.Import) (table : List Nat)
    (exports : List Wasm.Export) :
    (assembled (b.setBody .start []) tableExport types lowered none memory table exports).startingIdle
        b.functions.size =
      assembled b tableExport (if ⟨[], []⟩ ∈ types then types else types ++ [⟨[], []⟩]) lowered
        (some ⟨types.idxOf ⟨[], []⟩, [], []⟩) memory table exports := by
  have member : (⟨[], []⟩ : Wasm.FuncType) ∈ types.map Signature.funcType ↔ ⟨[], []⟩ ∈ types :=
    List.mem_map_of_injective (fun _ _ => Signature.funcType_injective) (a := ⟨[], []⟩)
  have index : (types.map Signature.funcType).idxOf ⟨[], []⟩ = types.idxOf ⟨[], []⟩ :=
    Signature.idxOf_map_funcType ⟨[], []⟩ types
  simp only [assembled, Wasm.Module.startingIdle, member, index]
  split <;> simp [Build.setBody, Signature.funcType]

end Lower

namespace Build

variable {b : Build} {ref : BodyRef} {flat : List ExprId} {n : Nat}

def module? (b : Build) (tableExport : Option String) : Option Wasm.Module :=
  (b.lower tableExport).toOption

theorem module?_eq_some_iff {tableExport : Option String} {m : Wasm.Module} :
    b.module? tableExport = some m ↔ b.lower tableExport = .ok m := by
  unfold module?
  cases b.lower tableExport <;> simp [Except.toOption]

theorem moduleLayout_setBody (ref : BodyRef) (body : List ExprId) :
    Lower.moduleLayout (b.setBody ref body) = Lower.moduleLayout b := by
  cases ref with
  | start => rfl
  | function i =>
    have kinds : List.Forall₂ (fun f g => g.isImported = f.isImported) b.functions.toList
        (b.functions.toList.modify i fun f => Function.withBody f body) := by
      refine forall₂_modify (fun f => Eq.refl f.isImported) fun f _ => ?_
      obtain ⟨_, _, _, kind⟩ := f
      cases kind <;> rfl
    simp only [Lower.moduleLayout, setBody, Array.toList_modify, Lower.funcIndices_congr kinds]

theorem module?_setBody_of_alike
    (alike : Lower.Alike (Lower.functions (Lower.moduleLayout b) b.functions.toList b.startBody)
      (Lower.functions (Lower.moduleLayout b) (b.setBody ref flat).functions.toList
        (b.setBody ref flat).startBody)) (tableExport : Option String) :
    (b.setBody ref flat).module? tableExport = b.module? tableExport := by
  ext m
  rw [module?_eq_some_iff, module?_eq_some_iff, Lower.lower_eq_ok_iff, Lower.lower_eq_ok_iff,
    moduleLayout_setBody]
  have size := size_setBody (b := b) ref flat
  refine exists_congr fun lowered => exists_congr fun start => exists_congr fun state => ?_
  refine exists_congr fun memory => exists_congr fun table => exists_congr fun exports => ?_
  refine and_congr (alike {} _).symm ?_
  cases ref with
  | start => exact Iff.rfl
  | function i =>
    simp only [Lower.assembled, size]
    exact Iff.rfl

def Emptied (b : Build) (ref : BodyRef) (flat : List ExprId) : Prop :=
  ref = .start ∧ b.startBody ≠ [] ∧ flat = []

/-- A flattened body is lowered as it was, if something is left of the start statements. -/
theorem alike_functions (expansion : b.arena.Expansion (b.bodyOf ref) flat n)
    (kept : ¬ b.Emptied ref flat) :
    Lower.Alike (Lower.functions (Lower.moduleLayout b) b.functions.toList b.startBody)
      (Lower.functions (Lower.moduleLayout b) (b.setBody ref flat).functions.toList
        (b.setBody ref flat).startBody) := by
  cases ref with
  | start =>
    have start : Lower.Alike (Lower.startFunction (Lower.moduleLayout b) b.startBody)
        (Lower.startFunction (Lower.moduleLayout b) flat) := by
      -- without start statements there is no start function, so the empty list is a case of its own
      by_cases none : flat = []
      · -- nothing was there before
        have empty : b.startBody = [] := by
          by_contra any
          exact kept ⟨rfl, any, none⟩
        rw [empty, none]
        exact .refl _
      · exact Lower.alike_startFunction expansion none
    exact (Lower.Alike.refl _).bind fun _ => start.bind fun _ => .refl _
  | function i =>
    have each : List.Forall₂ (fun f g => Lower.Alike (Lower.declaration (Lower.moduleLayout b) f)
        (Lower.declaration (Lower.moduleLayout b) g)) b.functions.toList
        (b.functions.toList.modify i fun f => Function.withBody f flat) := by
      refine forall₂_modify (fun f => .refl _) fun f here => ?_
      rw [Array.getElem?_toList] at here
      cases kind : f.kind with
      | imported key =>
        have same : Function.withBody f flat = f := by rw [Function.withBody, kind]
        rw [same]
        exact .refl _
      | defined scope body =>
        have is : b.bodyOf (.function i) = body := by
          obtain ⟨_, _, _, _⟩ := f
          cases kind
          rw [bodyOf, here]
        rw [is] at expansion
        exact Lower.alike_declaration kind expansion
    rw [setBody, Array.toList_modify]
    exact (Lower.Alike.mapM each).bind fun _ => .refl _

/-- Start statements of which none is left made a start function that does nothing. -/
theorem module?_of_emptied (expansion : b.arena.Expansion b.startBody [] n) (any : b.startBody ≠ [])
    (tableExport : Option String) :
    b.module? tableExport =
      ((b.setBody .start []).module? tableExport).map (·.startingIdle b.functions.size) := by
  ext m
  rw [Option.map_eq_some_iff]
  simp only [module?_eq_some_iff, Lower.lower_eq_ok_iff, moduleLayout_setBody]
  -- the types of declarations are interned first, so that of the start function is the last to come
  have listed (types : Array Signature) :
      (if ⟨[], []⟩ ∈ types then types else types.push ⟨[], []⟩).toList =
        if ⟨[], []⟩ ∈ types.toList then types.toList else types.toList ++ [⟨[], []⟩] := by
    rw [apply_ite Array.toList, Array.toList_push]
    simp only [Array.mem_toList_iff]
  constructor
  · rintro ⟨lowered, start, state, memory, table, exports, run, imported, slots, exported, rfl⟩
    obtain ⟨u, declares, rfl, rfl⟩ := (Lower.functions_of_idle expansion any).1 run
    refine ⟨_, ⟨lowered, none, u, memory, table, exports,
      Lower.functions_nil_eq_ok_iff.2 ⟨declares, rfl⟩, imported, slots, exported, rfl⟩, ?_⟩
    rw [Lower.startingIdle_assembled, listed]
  · rintro ⟨_, ⟨lowered, start, u, memory, table, exports, run, imported, slots, exported, rfl⟩, rfl⟩
    obtain ⟨declares, rfl⟩ := Lower.functions_nil_eq_ok_iff.1 run
    refine ⟨lowered, _, _, memory, table, exports,
      (Lower.functions_of_idle expansion any).2 ⟨u, declares, rfl, rfl⟩, imported, slots, exported, ?_⟩
    rw [Lower.startingIdle_assembled, listed]

theorem bodyOf_function_cases (b : Build) (i : Nat) : b.bodyOf (.function i) = [] ∨
    ∃ f scope, b.functions[i]? = some f ∧ f.kind = .defined scope (b.bodyOf (.function i)) := by
  cases here : b.functions[i]? with
  | none => exact .inl (by rw [bodyOf, here])
  | some f =>
    obtain ⟨id, params, result, kind⟩ := f
    cases kind with
    | imported key => exact .inl (by rw [bodyOf, here])
    | defined scope body => exact .inr ⟨_, scope, rfl, by rw [bodyOf, here]⟩

/-- What holds of all that is lowered as a body holds of the bodies of a build that has a module. -/
theorem of_takes {P : List ExprId → Prop} (none : P [])
    (takes : ∀ shapes body, Lower.Takes (((Lower.moduleLayout b).withVariables shapes).body body) (P body))
    {tableExport : Option String} {m : Wasm.Module} (done : b.lower tableExport = .ok m)
    (ref : BodyRef) : P (b.bodyOf ref) := by
  obtain ⟨lowered, start, state, _, _, _, run, _⟩ := Lower.lower_eq_ok_iff.1 done
  cases ref with
  | start =>
    have start := Lower.takes_startFunction (takes [] b.startBody) fun empty => empty ▸ none
    exact (Lower.Takes.after fun _ => start.bind) {} _ run
  | function i =>
    rcases b.bodyOf_function_cases i with empty | ⟨f, scope, here, kind⟩
    · rwa [empty]
    · have mem := Array.mem_toList_iff.2 (Array.mem_of_getElem? here)
      have own := Lower.takes_declaration kind (takes scope.shapes _)
      exact (Lower.takes_mapM mem own).bind {} _ run

theorem exists_flattenBlocks {tableExport : Option String} {m : Wasm.Module}
    (done : b.lower tableExport = .ok m) (ref : BodyRef) :
    ∃ flat n, b.arena.flattenBlocks (b.bodyOf ref) = .ok (flat, n) :=
  of_takes (P := fun body => ∃ flat n, b.arena.flattenBlocks body = .ok (flat, n)) ⟨[], 0, rfl⟩
    (fun _ _ => Lower.takes_body) done ref

theorem shallow_of_mem_body {tableExport : Option String} {m : Wasm.Module}
    (done : b.lower tableExport = .ok m) (ref : BodyRef) :
    ∀ id ∈ b.bodyOf ref, b.arena.Shallow b.arena.size id :=
  of_takes (P := fun body => ∀ id ∈ body, b.arena.Shallow b.arena.size id) (fun _ mem => nomatch mem)
    (fun _ _ => Lower.takes_body_shallow) done ref

def unchecked? (options : CompileOptions) (b : Build) : Option Wasm.Module :=
  if b.failed then none else (b.importing options.memory).module? options.tableExport

def binary? (options : CompileOptions) (b : Build) : Option (List UInt8) :=
  match compile { options with optimize := false } b with
  | .ok bytes _ => some bytes
  | .error .. => none

theorem binary?_eq (options : CompileOptions) (b : Build) :
    binary? options b = ((unchecked? options b).filter fun m =>
      !options.validate || m.isValid).map Wasm.Module.encode := by
  have run : assemble { options with optimize := false } b = if b.failed then .error .aborted b else
      lowered { options with optimize := false } (b.importing options.memory) := assemble_run _ b
  simp only [binary?, compile, bind, EStateM.bind, run, lowered_run, unchecked?, module?]
  cases b.failed with
  | true => rfl
  | false =>
    cases (b.importing options.memory).lower options.tableExport with
    | error e => rfl
    | ok m =>
      cases options.validate <;> cases valid : m.isValid <;> simp [valid, Except.toOption, pure, EStateM.pure]

theorem importing_setBody (ref : BodyRef) (body : List ExprId) (memory : Option MemoryDecl) :
    (b.setBody ref body).importing memory = (b.importing memory).setBody ref body := by
  cases memory with
  | none => rfl
  | some decl =>
    have other : (b.setBody ref body).memory = b.memory := by cases ref <;> rfl
    rw [importing, importing, other]
    by_cases same : b.memory = some decl
    · rw [if_pos same, if_pos same]
    · rw [if_neg same, if_neg same]
      cases ref <;> rfl

theorem exists_importing (b : Build) (memory : Option MemoryDecl) :
    ∃ imports memory', b.importing memory = { b with imports, memory := memory' } := by
  rcases importing_cases b memory with same | ⟨decl, other⟩
  · exact ⟨b.imports, b.memory, same⟩
  · exact ⟨_, some decl, other⟩

theorem unchecked?_setBody (expansion : b.arena.Expansion (b.bodyOf ref) flat n)
    (kept : ¬ b.Emptied ref flat) (options : CompileOptions) :
    unchecked? options (b.setBody ref flat) = unchecked? options b := by
  have failed : (b.setBody ref flat).failed = b.failed := by cases ref <;> rfl
  obtain ⟨imports, memory, is⟩ := exists_importing b options.memory
  rw [unchecked?, unchecked?, failed, importing_setBody, is]
  rw [module?_setBody_of_alike (alike_functions (b := { b with imports, memory }) expansion kept)]

theorem unchecked?_of_emptied (expansion : b.arena.Expansion b.startBody [] n)
    (any : b.startBody ≠ []) (options : CompileOptions) :
    unchecked? options b = (unchecked? options (b.setBody .start [])).map
      (·.startingIdle b.functions.size) := by
  obtain ⟨imports, memory, is⟩ := exists_importing b options.memory
  have idle := module?_of_emptied (b := { b with imports, memory }) expansion any options.tableExport
  rw [unchecked?, unchecked?, importing_setBody, is, idle]
  show _ = (if b.failed then none else _).map _
  cases b.failed <;> rfl

theorem unchecked?_eq_none {e : BuildError}
    (failed : b.arena.flattenBlocks (b.bodyOf ref) = .error e) (options : CompileOptions) :
    unchecked? options b = none := by
  obtain ⟨imports, memory, is⟩ := exists_importing b options.memory
  rw [unchecked?, is, Option.eq_none_iff_forall_ne_some]
  intro m done
  split at done
  · cases done
  · obtain ⟨flat, n, flattened⟩ := exists_flattenBlocks (module?_eq_some_iff.1 done) ref
    cases failed.symm.trans flattened

theorem start_of_emptied {options : CompileOptions} {m : Wasm.Module}
    (done : unchecked? options (b.setBody .start []) = some m) : m.start = none := by
  obtain ⟨imports, memory, is⟩ := exists_importing b options.memory
  rw [unchecked?, importing_setBody, is] at done
  split at done
  · cases done
  · obtain ⟨_, start, _, _, _, _, run, _, _, _, rfl⟩ :=
      Lower.lower_eq_ok_iff.1 (module?_eq_some_iff.1 done)
    obtain ⟨_, rfl⟩ := Lower.functions_nil_eq_ok_iff.1 run
    rfl

/-- Without cycles, flattening answers the expansion of a body where it is known what all statements
leave that are met, and fails where it is not. It comes to what a loop over a stack of statements comes
to, and no grouping block is left. A build whose body cannot be flattened has no binary, and one whose
body is flattened has the binary that it had. When none of the start statements is left, the function
that does nothing is missing, and its type with it if no other function has that type. -/
theorem flattening_keeps_binary :
    (∀ (a : Arena) (body : List ExprId), a.Acyclic →
      (∀ flat n, a.flattenBlocks body = .ok (flat, n) ↔ a.Expansion body flat n) ∧
      ((∃ flat n, a.Expansion body flat n) ↔ ∀ e, ¬ a.Unknown body e) ∧
      ∀ flat n, a.Expansion body flat n → (∀ id ∈ flat, ∀ items, ¬ a.Groups id items) ∧
        Relation.ReflTransGen a.Turn (body, [], 0) ([], flat, n)) ∧
    ∀ (b : Build) (ref : BodyRef) (options : CompileOptions),
      (∀ e, b.arena.flattenBlocks (b.bodyOf ref) = .error e →
        unchecked? options b = none ∧ binary? options b = none) ∧
      ∀ flat n, b.arena.flattenBlocks (b.bodyOf ref) = .ok (flat, n) →
        (¬ b.Emptied ref flat → unchecked? options (b.setBody ref flat) = unchecked? options b ∧
          binary? options (b.setBody ref flat) = binary? options b) ∧
        (b.Emptied ref flat →
          (∀ m, unchecked? options (b.setBody ref flat) = some m → m.start = none) ∧
          unchecked? options b = (unchecked? options (b.setBody ref flat)).map
            (·.startingIdle b.functions.size)) := by
  refine ⟨fun a body acyclic => ⟨fun flat n => Arena.flattenBlocks_eq_ok_iff acyclic, ?_, ?_⟩,
    fun b ref options => ⟨fun e failed => ?_, fun flat n done => ⟨fun kept => ?_, ?_⟩⟩⟩
  · constructor
    · rintro ⟨flat, n, expansion⟩ e ⟨root, isRoot, id, path, slots⟩
      obtain ⟨ts, known⟩ := expansion.known isRoot path
      cases slots.symm.trans known
    · intro known
      rcases Arena.flattenBlocks_cases acyclic body with ⟨flat, n, done⟩ | ⟨e, _, unknown⟩
      · exact ⟨flat, n, Arena.expansion_of_flattenBlocks done⟩
      · exact absurd unknown (known e)
  · intro flat n expansion
    refine ⟨fun id mem => (expansion.stays id mem).2, ?_⟩
    simpa using expansion.turns [] [] 0
  · have none := unchecked?_eq_none failed options
    exact ⟨none, by rw [binary?_eq, none]; rfl⟩
  · have same := unchecked?_setBody (Arena.expansion_of_flattenBlocks done) kept options
    exact ⟨same, by rw [binary?_eq, binary?_eq, same]⟩
  · rintro ⟨rfl, any, rfl⟩
    exact ⟨fun m => start_of_emptied,
      unchecked?_of_emptied (Arena.expansion_of_flattenBlocks done) any options⟩

/-- A function with a block among the items of another one, and a start statement that does
nothing. -/
def nestedBlocks : Build where
  arena := ⟨#[⟨.const (.i32 7), some (.num .i32)⟩, ⟨.globalSet 0 (.num .i32) 0, some .none⟩,
    ⟨.block [1, 1] .auto, some .auto⟩, ⟨.block [2, 1] .none, some .none⟩,
    ⟨.block [] .auto, some .auto⟩]⟩
  functions := #[⟨"set", [], .none, .defined {} [1, 3]⟩]
  globals := ⟨#[⟨"a", .num .i32, .global⟩]⟩
  startBody := [4]

theorem flattening_keeps_binary_of_nestedBlocks :
    nestedBlocks.arena.Acyclic ∧
    nestedBlocks.arena.Expansion [1, 3] [1, 1, 1, 1] 2 ∧
    ¬ nestedBlocks.Emptied (.function 0) [1, 1, 1, 1] ∧
    binary? {} (nestedBlocks.setBody (.function 0) [1, 1, 1, 1]) = binary? {} nestedBlocks ∧
    nestedBlocks.Emptied .start [] ∧
    unchecked? {} nestedBlocks = (unchecked? {} (nestedBlocks.setBody .start [])).map
      (·.startingIdle 1) := by
  have acyclic : nestedBlocks.arena.Acyclic := Arena.Ordered.acyclic (by decide)
  have inside : nestedBlocks.arena.flattenBlocks [1, 3] = .ok ([1, 1, 1, 1], 2) := by rfl
  have start : nestedBlocks.arena.flattenBlocks [4] = .ok ([], 1) := by rfl
  have kept : ¬ nestedBlocks.Emptied (.function 0) [1, 1, 1, 1] := nofun
  have emptied : nestedBlocks.Emptied .start [] := ⟨rfl, by decide, rfl⟩
  obtain ⟨ofArena, ofBuild⟩ := flattening_keeps_binary
  refine ⟨acyclic, (ofArena _ _ acyclic).1 _ _ |>.1 inside, kept, ?_, emptied, ?_⟩
  · exact (((ofBuild nestedBlocks (.function 0) {}).2 _ _ inside).1 kept).2
  · exact (((ofBuild nestedBlocks .start {}).2 _ _ start).2 emptied).2

def assigningNothing : Build where
  arena := ⟨#[⟨.block [] .auto, some .auto⟩]⟩
  startBody := [0]

theorem reached_assigningNothing :
    Session.Reached Session.Lawful ⟨assigningNothing, none, [.plain 0]⟩ := by
  let empty : Body := ({} : Build).newBody {} .global .none
  let made : Body := { empty with arena := assigningNothing.arena }
  have opened : Session.Reached Session.Lawful ⟨{}, some (.globals, empty), []⟩ :=
    Session.Reached.start.next (@Session.Next.openGlobals _ Session.fresh [] _ _ rfl rfl)
  have assigned : Session.Reached Session.Lawful ⟨{}, some (.globals, made), [.plain 0]⟩ :=
    opened.take rfl (.assign []) (Session.lawful_of_nil rfl rfl) rfl
  have given : Session.Reached Session.Lawful
      ⟨{}, some (.globals, { made with statements := [0] }), [.plain 0]⟩ :=
    assigned.take rfl (.exec [0]) (Session.lawful_of_head rfl rfl rfl) rfl
  exact given.close rfl rfl

/-- The start function of an initializer that assigns nothing goes when that is flattened, and a
handle that is not there cannot be flattened. -/
theorem flattening_drops_start :
    (∃ s : Session, Session.Reached Session.Lawful s ∧ s.body = none ∧ s.build.arena.Acyclic ∧
      s.build.arena.flattenBlocks (s.build.bodyOf .start) = .ok ([], 1) ∧
      binary? {} s.build = some
        [0x00, 0x61, 0x73, 0x6d, 0x01, 0x00, 0x00, 0x00, 0x01, 0x04, 0x01, 0x60, 0x00, 0x00, 0x03,
         0x02, 0x01, 0x00, 0x07, 0x01, 0x00, 0x08, 0x01, 0x00, 0x0a, 0x04, 0x01, 0x02, 0x00, 0x0b] ∧
      binary? {} (s.build.setBody .start []) = some
        [0x00, 0x61, 0x73, 0x6d, 0x01, 0x00, 0x00, 0x00, 0x01, 0x01, 0x00, 0x03, 0x01, 0x00, 0x07,
         0x01, 0x00, 0x0a, 0x01, 0x00]) ∧
    ∃ (a : Arena) (body : List ExprId), a.Acyclic ∧ ∀ flat n, a.flattenBlocks body ≠ .ok (flat, n) := by
  constructor
  · exact ⟨_, reached_assigningNothing, rfl, Arena.Ordered.acyclic (by decide), rfl,
      by decide +kernel, by decide +kernel⟩
  · exact ⟨{}, [0], Arena.Ordered.acyclic (by decide), nofun⟩

end Build

end WasmBuilder
