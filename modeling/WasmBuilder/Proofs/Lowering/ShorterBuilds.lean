import WasmBuilder.Proofs.Lowering.Abridged
import WasmBuilder.Proofs.Lowering.IndexSpaces
import WasmBuilder.Proofs.Lowering.Plain
import WasmBuilder.Proofs.Wasm.ShorterInstances

/-!
The same build, lowered before and after it was simplified.

A step of simplification leaves the functions of a build where they are, so the module that it has
afterwards is one of shorter functions. Only a start function that does nothing may be missing.
-/

set_option autoImplicit false

namespace WasmBuilder

theorem Arena.Leaner.refl (a : Arena) : a.Leaner a :=
  ⟨.refl a, fun _ node here => ⟨node, here, .same node⟩⟩

namespace Function

variable {a : Arena} {f g : Function}

theorem Leans.refl (a : Arena) (f : Function) : f.Leans a f := by
  obtain ⟨id, params, result, kind⟩ := f
  cases kind with
  | imported => exact .imported rfl
  | defined scope body => exact .defined rfl (.refl body)

theorem Leans.isImported_eq (leans : f.Leans a g) : g.isImported = f.isImported := by
  cases leans with
  | imported => rfl
  | defined kind => simp only [isImported, kind]

end Function

namespace Lower

open Wasm (Abridgement)

theorem Leaner.refl (l : Layout) : Leaner l l := ⟨.refl l.arena, rfl, rfl, rfl, rfl⟩

inductive StartShortens (A : Abridgement) (M N : List Signature) :
    Option Wasm.Func → Option Wasm.Func → Prop
  | none : StartShortens A M N none none
  | some {g h : Wasm.Func} (shorter : Lowered.Shortens A M N (.defined g) (.defined h)) :
      StartShortens A M N (some g) (some h)
  | idle {i : Nat} (listed : M[i]? = Option.some ⟨[], []⟩) :
      StartShortens A M N (Option.some ⟨i, [], []⟩) Option.none

section
variable {l l' : Layout} (leaner : Leaner l l') {fs gs : List Function}
  (leans : List.Forall₂ (Function.Leans l.arena) fs gs)
  (bounds : ∀ f ∈ fs, ∀ scope body, f.kind = .defined scope body →
    (l.withVariables scope.shapes).Bounds body ∧
      f.signature.params.length ≤ (l.withVariables scope.shapes).scratchBase)
  {body body' : List ExprId} (kept : l.arena.Kept body body')
  (started : (l.withVariables []).Bounds body)

include leaner

section
variable {A : Abridgement} (funcs : ∀ func f, l.funcIndex func = .ok f → A.func f)

include funcs

include kept started in
theorem exists_startFunction_shorter {s s' t : LowerState} {start : Option Wasm.Func}
    (done : startFunction l body s = .ok (start, s'))
    (known : ∀ signature ∈ t.types.toList, signature ∈ s.types.toList) :
    ∃ start' t', startFunction l' body' t = .ok (start', t') ∧
      (∀ signature ∈ t'.types.toList, signature ∈ s'.types.toList) ∧
      s.types.toList <+: s'.types.toList ∧ t.types.toList <+: t'.types.toList ∧
      ∀ M N : List Signature, Names A M N → s'.types.toList <+: M → t'.types.toList <+: N →
        StartShortens A M N start start' := by
  unfold startFunction at done ⊢
  rw [kept.isEmpty_eq]
  cases none : body.isEmpty with
  | true =>
    rw [none] at done
    cases done
    exact ⟨_, t, rfl, known, List.prefix_rfl, List.prefix_rfl, fun _ _ _ _ _ => .none⟩
  | false =>
    rw [none] at done
    obtain ⟨i, u, one, rest⟩ := bind_eq_ok.1 done
    obtain ⟨g, _, run, rest⟩ := bind_eq_ok.1 rest
    cases rest
    have two := intern_eq ⟨[], []⟩ t
    obtain ⟨grown, listed⟩ := emits_intern ⟨[], []⟩ s i u one
    obtain ⟨grown', listed'⟩ := emits_intern ⟨[], []⟩ t _ _ two
    have known' := fun signature mem => (mem_types_intern one signature).2
      (((mem_types_intern two signature).1 mem).imp_left (known signature))
    obtain ⟨h, t', run', types, more, more', shorter⟩ := exists_function_shorter
      leaner funcs ⟨[], []⟩ kept started (Nat.zero_le _) run known'
    refine ⟨some h, t', ?_, types, grown.trans more, grown'.trans more', ?_⟩
    · exact bind_eq_ok.2 ⟨_, _, two, bind_eq_ok.2 ⟨h, t', run', rfl⟩⟩
    · exact fun M N names le le' => .some (shorter M N names le le' (listed M (more.trans le))
        (listed' N (more'.trans le')))

end

include leans bounds kept started in
/-- All functions, and what is left of them. What they are lowered to depends on nothing that stands
for them, so the latter can be chosen afterwards. -/
theorem exists_functions_shorter {lowered : List Lowered} {start : Option Wasm.Func} {s : LowerState}
    (done : functions l fs body {} = .ok ((lowered, start), s)) :
    ∃ lowered' start' t, functions l' gs body' {} = .ok ((lowered', start'), t) ∧
      (∀ signature ∈ t.types.toList, signature ∈ s.types.toList) ∧
      ∀ A : Abridgement, (∀ func f, l.funcIndex func = .ok f → A.func f) →
        Names A s.types.toList t.types.toList →
        List.Forall₂ (Lowered.Shortens A s.types.toList t.types.toList) lowered lowered' ∧
          StartShortens A s.types.toList t.types.toList start start' := by
  obtain ⟨_, u, declares, rest⟩ := bind_eq_ok.1 done
  obtain ⟨_, _, starts, rest⟩ := bind_eq_ok.1 rest
  cases rest
  have each (A : Abridgement) (funcs : ∀ func f, l.funcIndex func = .ok f → A.func f) :
      ∃ lowered' start' t, functions l' gs body' {} = .ok ((lowered', start'), t) ∧
        (∀ signature ∈ t.types.toList, signature ∈ s.types.toList) ∧
        (Names A s.types.toList t.types.toList →
          List.Forall₂ (Lowered.Shortens A s.types.toList t.types.toList) lowered lowered' ∧
            StartShortens A s.types.toList t.types.toList start start') := by
    obtain ⟨lowered', u', declares', known, grown, grown', shorter⟩ := exists_declarations_shorter
      leaner funcs leans bounds declares (t := {}) fun _ mem => mem
    obtain ⟨start', t, starts', known', more, more', shorter'⟩ :=
      exists_startFunction_shorter leaner kept started funcs starts known
    refine ⟨lowered', start', t, ?_, known', fun names => ⟨?_, ?_⟩⟩
    · exact bind_eq_ok.2 ⟨lowered', u', declares', bind_eq_ok.2 ⟨start', t, starts', rfl⟩⟩
    · exact shorter _ _ names more more'
    · exact shorter' _ _ names List.prefix_rfl List.prefix_rfl
  obtain ⟨lowered', start', t, run, known, _⟩ :=
    each ⟨fun _ _ => True, fun _ => True⟩ fun _ _ _ => trivial
  refine ⟨lowered', start', t, run, known, fun A funcs names => ?_⟩
  obtain ⟨_, _, _, again, _, shorter⟩ := each A funcs
  cases run.symm.trans again
  exact shorter names

end

section
variable {m n : Wasm.Module} {M N : List Signature}

/-- Imports of functions that are called the same have the same type. -/
theorem sameImports {xs ys : List Lowered}
    (types : m.types = M.map Signature.funcType) (types' : n.types = N.map Signature.funcType)
    (shorter : List.Forall₂ (Lowered.Shortens (m.abridgement n) M N) xs ys) :
    List.Forall₂ (Wasm.Module.SameImport m n) (xs.filterMap Lowered.import?)
      (ys.filterMap Lowered.import?) := by
  induction shorter with
  | nil => exact .nil
  | cons first _ ih =>
    cases first with
    | @imported key i j signature here there =>
      refine .cons (.func ⟨signature.funcType, ?_, ?_⟩) ih
      · rw [types, List.getElem?_map, here, Option.map_some]
      · rw [types', List.getElem?_map, there, Option.map_some]
    | defined => exact ih

theorem Lowered.Shortens.shorterFunc {g h : Wasm.Func} (types : m.types = M.map Signature.funcType)
    (types' : n.types = N.map Signature.funcType)
    (shorter : Lowered.Shortens (m.abridgement n) M N (.defined g) (.defined h))
    (plain : Wasm.Instr.isPlainSeq g.body = true) (plain' : Wasm.Instr.isPlainSeq h.body = true) :
    Wasm.Module.ShorterFunc m n g h := by
  cases shorter with
  | @defined _ _ signature P here there fewer places code =>
    refine ⟨⟨signature.funcType, P, ?_, ?_, places, code⟩, fewer, plain, plain'⟩
    · rw [types, List.getElem?_map, here, Option.map_some]
    · rw [types', List.getElem?_map, there, Option.map_some]

theorem shorterFuncs {xs ys : List Lowered}
    (types : m.types = M.map Signature.funcType) (types' : n.types = N.map Signature.funcType)
    (plain : ∀ g ∈ xs.filterMap Lowered.func?, Wasm.Instr.isPlainSeq g.body = true)
    (plain' : ∀ g ∈ ys.filterMap Lowered.func?, Wasm.Instr.isPlainSeq g.body = true)
    (shorter : List.Forall₂ (Lowered.Shortens (m.abridgement n) M N) xs ys) :
    List.Forall₂ (Wasm.Module.ShorterFunc m n) (xs.filterMap Lowered.func?)
      (ys.filterMap Lowered.func?) := by
  induction shorter with
  | nil => exact .nil
  | cons first _ ih =>
    cases first with
    | imported => exact ih plain plain'
    | @defined g h _ _ here there fewer places code =>
      refine .cons ?_ (ih (fun g mem => plain g (List.mem_cons_of_mem _ mem))
        fun h mem => plain' h (List.mem_cons_of_mem _ mem))
      exact Lowered.Shortens.shorterFunc types types' (.defined here there fewer places code)
        (plain g List.mem_cons_self) (plain' h List.mem_cons_self)

end

theorem parts_of_functions {b : Build} {lowered : List Lowered} {start : Option Wasm.Func}
    {s : LowerState}
    (done : functions (moduleLayout b) b.functions.toList b.startBody {} = .ok ((lowered, start), s)) :
    Parts b s.types.toList lowered start := by
  obtain ⟨_, between, declares, rest⟩ := bind_eq_ok.1 done
  obtain ⟨_, _, starts, rest⟩ := bind_eq_ok.1 rest
  cases rest
  obtain ⟨_, declarations⟩ :=
    Emits.mapM (emits_declaration (moduleLayout b)) _ _ lowered between declares
  obtain ⟨grown, startCode⟩ := emits_startFunction (moduleLayout b) b.startBody _ start s starts
  exact ⟨declarations _ grown, startCode _ List.prefix_rfl⟩

theorem funcIndex_lt {b : Build} {func f : Nat} (found : (moduleLayout b).funcIndex func = .ok f) :
    f < b.functions.size := by
  have index : (moduleLayout b).funcIndices[func]? = some f := by
    unfold Layout.funcIndex at found
    split at found
    next here =>
      cases found
      exact here
    next => cases found
  have mem : f ∈ funcIndices b.functions.toList := by
    rw [moduleLayout, List.getElem?_toArray] at index
    exact List.mem_of_getElem? index
  have inside := (perm_funcIndices b.functions.toList).mem_iff.1 mem
  rw [List.mem_range, Array.length_toList] at inside
  exact inside

section
variable {b c : Build} {tableExport : Option String} {M N : List Signature} {xs ys : List Lowered}
  {start start' : Option Wasm.Func} {memory : List Wasm.Import} {table : List Nat}
  {exports : List Wasm.Export}

theorem exists_funcIndex_of_export
    (exported : b.exports.mapM (funcExport (moduleLayout b)) = .ok exports) {e : Wasm.Export}
    (mem : e ∈ (assembled b tableExport M xs start memory table exports).exports)
    (kind : e.kind = .func) : ∃ k, (moduleLayout b).funcIndex k = .ok e.index := by
  rcases List.mem_append.1 mem with own | outside
  · obtain ⟨i, there⟩ := List.mem_iff_getElem?.1 own
    obtain ⟨⟨name, k⟩, _, done⟩ := exists_getElem?_of_forall₂ (mapM_eq_ok_iff.1 exported).flip there
    obtain ⟨f, found, rest⟩ := bind_eq_ok_iff.1 done
    cases rest
    exact ⟨k, found⟩
  · obtain ⟨name, _, rfl⟩ := List.mem_map.1 outside
    cases kind

theorem exists_funcIndex_of_element
    (slots : b.table.functions.mapM (moduleLayout b).funcIndex = .ok table) {e : Wasm.Element}
    (mem : e ∈ (assembled b tableExport M xs start memory table exports).elements) :
    e = ⟨.active 0 [.const (.i32 0)], .func, table.map .func⟩ ∧
      ∀ f ∈ table, ∃ k, (moduleLayout b).funcIndex k = .ok f := by
  unfold assembled at mem
  dsimp only at mem
  split at mem
  next => cases mem
  next =>
    refine ⟨List.mem_singleton.1 mem, fun f mem => ?_⟩
    obtain ⟨i, there⟩ := List.mem_iff_getElem?.1 mem
    obtain ⟨k, _, found⟩ := exists_getElem?_of_forall₂ (mapM_eq_ok_iff.1 slots).flip there
    exact ⟨k, found⟩

theorem exists_shortens_assembled {m n : Wasm.Module} (parts : Parts b M xs start)
    (parts' : Parts c N ys start') (types : ∀ signature ∈ N, signature ∈ M)
    (globals : c.globals = b.globals) (size : c.functions.size = b.functions.size)
    (sameMemory : c.memory = b.memory) (imported : memoryImport b.memory = .ok memory)
    (slots : b.table.functions.mapM (moduleLayout b).funcIndex = .ok table)
    (exported : b.exports.mapM (funcExport (moduleLayout b)) = .ok exports)
    (isM : m = assembled b tableExport M xs start memory table exports)
    (isN : n = assembled c tableExport N ys start' memory table exports)
    (shorter : ∀ A : Abridgement, (∀ func f, (moduleLayout b).funcIndex func = .ok f → A.func f) →
      Names A M N → List.Forall₂ (Lowered.Shortens A M N) xs ys ∧ StartShortens A M N start start') :
    ∃ idle, m.Shortens n idle := by
  have typesM : m.types = M.map Signature.funcType := by rw [isM, assembled]
  have typesN : n.types = N.map Signature.funcType := by rw [isN, assembled]
  have funcsM : m.funcs = xs.filterMap Lowered.func? ++ start.toList := by rw [isM, assembled]
  have funcsN : n.funcs = ys.filterMap Lowered.func? ++ start'.toList := by rw [isN, assembled]
  have startM : m.start = start.map fun _ => b.functions.size := by rw [isM, assembled]
  have startN : n.start = start'.map fun _ => b.functions.size := by rw [isN, assembled, size]
  have count : n.importedFuncs.length + (ys.filterMap Lowered.func?).length = b.functions.size := by
    rw [isN, length_importedFuncs parts' (sameMemory ▸ imported), length_declared parts', size]
  have func (k f : Nat) (found : (moduleLayout b).funcIndex k = .ok f) : (m.abridgement n).func f := by
    have inside := funcIndex_lt found
    show f < n.importedFuncs.length + n.funcs.length
    rw [funcsN, List.length_append]
    omega
  have names : Names (m.abridgement n) M N := by
    intro i j signature here there
    refine ⟨signature.funcType, ?_, ?_⟩
    · rw [typesM, List.getElem?_map, here, Option.map_some]
    · rw [typesN, List.getElem?_map, there, Option.map_some]
  obtain ⟨declared, starting⟩ := shorter (m.abridgement n) func names
  have shared := shorterFuncs typesM typesN (fun g mem => parts.plain (List.mem_append_left _ mem))
    (fun g mem => parts'.plain (List.mem_append_left _ mem)) declared
  have imports : List.Forall₂ (m.SameImport n) (xs.filterMap Lowered.import? ++ memory)
      (ys.filterMap Lowered.import? ++ memory) := by
    refine List.rel_append (sameImports typesM typesN declared) ?_
    rcases memoryImport_eq_ok imported with ⟨_, rfl⟩ | ⟨decl, _, _, rfl⟩
    · exact .nil
    · exact .cons .memory .nil
  -- all but the functions is the same in both
  have shortens (idle : List Wasm.Func) (funcs : ∃ shared, m.funcs = shared ++ idle ∧
      List.Forall₂ (Wasm.Module.ShorterFunc m n) shared n.funcs)
      (starts : idle = [] ∧ n.start = m.start ∨ ∃ i, idle = [⟨i, [], []⟩] ∧
        m.types[i]? = some ⟨[], []⟩ ∧ m.start = some (n.importedFuncs.length + n.funcs.length) ∧
        n.start = none) : m.Shortens n idle :=
    { types := by
        rw [typesM, typesN]
        exact List.map_subset _ types
      imports := by
        have same : m.imports = xs.filterMap Lowered.import? ++ memory := by rw [isM, assembled]
        have same' : n.imports = ys.filterMap Lowered.import? ++ memory := by rw [isN, assembled]
        rwa [same, same']
      funcs := funcs
      start := starts
      tables := by rw [isM, isN, assembled, assembled]
      memories := by rw [isM, isN, assembled, assembled]
      globals := by rw [isM, isN, assembled, assembled, globals]
      exports := by rw [isM, isN, assembled, assembled]
      elements := by rw [isM, isN, assembled, assembled]
      data := by rw [isM, assembled]
      data' := by rw [isN, assembled]
      constants := by
        intro g mem
        rw [isM] at mem
        obtain ⟨t, _, rfl⟩ := List.mem_map.1 mem
        exact ⟨_, rfl⟩
      exported := by
        intro e mem kind
        rw [isM] at mem
        obtain ⟨k, found⟩ := exists_funcIndex_of_export exported mem kind
        exact func k _ found
      filled := by
        intro e mem
        rw [isM] at mem
        obtain ⟨rfl, known⟩ := exists_funcIndex_of_element slots mem
        refine ⟨_, table, rfl, fun f mem => ?_⟩
        obtain ⟨k, found⟩ := known f mem
        exact func k f found }
  cases starting with
  | none =>
    refine ⟨[], shortens [] ⟨xs.filterMap Lowered.func?, funcsM, ?_⟩ (.inl ⟨rfl, ?_⟩)⟩
    · rwa [funcsN, Option.toList_none, List.append_nil]
    · rw [startM, startN]
  | @some g h last =>
    refine ⟨[], shortens [] ⟨xs.filterMap Lowered.func? ++ [g], ?_, ?_⟩ (.inl ⟨rfl, ?_⟩)⟩
    · rw [funcsM, List.append_nil, Option.toList_some]
    · rw [funcsN]
      refine List.rel_append shared (.cons ?_ .nil)
      exact last.shorterFunc typesM typesN (parts.plain (List.mem_append_right _ List.mem_cons_self))
        (parts'.plain (List.mem_append_right _ List.mem_cons_self))
    · rw [startM, startN]
      rfl
  | @idle i listed =>
    rw [Option.toList_none, List.append_nil] at funcsN
    refine ⟨[⟨i, [], []⟩], shortens _ ⟨xs.filterMap Lowered.func?, funcsM, ?_⟩
      (.inr ⟨i, rfl, ?_, ?_, startN⟩)⟩
    · rwa [funcsN]
    · rw [typesM, List.getElem?_map, listed]
      rfl
    · rw [funcsN, count, startM]
      rfl

end

end Lower

namespace Build

open Lower (moduleLayout)

structure Leaner (b c : Build) : Prop where
  arena : b.arena.Leaner c.arena
  functions : List.Forall₂ (Function.Leans b.arena) b.functions.toList c.functions.toList
  startBody : b.arena.Kept b.startBody c.startBody
  globals : c.globals = b.globals
  table : c.table = b.table
  exports : c.exports = b.exports
  memory : c.memory = b.memory

structure Bounded (b : Build) : Prop where
  functions : ∀ f ∈ b.functions.toList, ∀ scope body, f.kind = .defined scope body →
    ((moduleLayout b).withVariables scope.shapes).Bounds body ∧
      f.signature.params.length ≤ ((moduleLayout b).withVariables scope.shapes).scratchBase
  start : ((moduleLayout b).withVariables []).Bounds b.startBody

namespace Leaner

variable {b c : Build} (leaner : Leaner b c)

include leaner

theorem layout : Lower.Leaner (moduleLayout b) (moduleLayout c) where
  arena := leaner.arena
  localBases := rfl
  globalBases := by rw [moduleLayout, moduleLayout, leaner.globals]
  funcIndices := by
    have kinds := leaner.functions.imp fun _ _ leans => leans.isImported_eq
    rw [moduleLayout, moduleLayout, Lower.funcIndices_congr kinds]
  scratchBase := rfl

/-- The module of a simplified build shortens that of the build. -/
theorem exists_lower (bounded : b.Bounded) {tableExport : Option String} {m : Wasm.Module}
    (done : b.lower tableExport = .ok m) :
    ∃ n idle, c.lower tableExport = .ok n ∧ m.Shortens n idle := by
  obtain ⟨lowered, start, state, memory, table, exports, run, imported, slots, exported, is⟩ :=
    Lower.lower_eq_ok_iff.1 done
  obtain ⟨lowered', start', state', run', types, shorter⟩ := Lower.exists_functions_shorter
    leaner.layout leaner.functions bounded.functions leaner.startBody bounded.start run
  have sameIndex := funext leaner.layout.funcIndex
  have size : c.functions.size = b.functions.size := by
    rw [← Array.length_toList, ← Array.length_toList, leaner.functions.length_eq]
  have done' : c.lower tableExport =
      .ok (Lower.assembled c tableExport state'.types.toList lowered' start' memory table exports) := by
    refine Lower.lower_eq_ok_iff.2 ⟨lowered', start', state', memory, table, exports, run', ?_, ?_, ?_, rfl⟩
    · rwa [leaner.memory]
    · rwa [leaner.table, sameIndex]
    · have sameExport : Lower.funcExport (moduleLayout c) = Lower.funcExport (moduleLayout b) := by
        funext e
        rw [Lower.funcExport, Lower.funcExport, leaner.layout.funcIndex]
      rwa [leaner.exports, sameExport]
  obtain ⟨idle, shortens⟩ := Lower.exists_shortens_assembled (Lower.parts_of_functions run)
    (Lower.parts_of_functions run') types leaner.globals size leaner.memory imported slots exported is rfl
    shorter
  exact ⟨_, idle, done', shortens⟩

end Leaner

/-- Start statements of which none is left made a start function that does nothing. The module without
it shortens the module. -/
theorem exists_lower_of_emptied {b : Build} (bounded : b.Bounded) {n : Nat}
    (expansion : b.arena.Expansion b.startBody [] n) (any : b.startBody ≠ [])
    {tableExport : Option String} {m : Wasm.Module} (done : b.lower tableExport = .ok m) :
    ∃ n idle, (b.setBody .start []).lower tableExport = .ok n ∧ m.Shortens n idle := by
  obtain ⟨lowered, start, state, memory, table, exports, run, imported, slots, exported, is⟩ :=
    Lower.lower_eq_ok_iff.1 done
  obtain ⟨u, declares, starts, last⟩ := (Lower.functions_of_idle expansion any).1 run
  have run' := Lower.functions_nil_eq_ok_iff.2 ⟨declares, Eq.refl (none : Option Wasm.Func)⟩
  have done' : (b.setBody .start []).lower tableExport = .ok (Lower.assembled (b.setBody .start [])
      tableExport u.types.toList lowered none memory table exports) :=
    Lower.lower_eq_ok_iff.2 ⟨lowered, none, u, memory, table, exports, run', imported, slots, exported,
      rfl⟩
  have two := Lower.intern_eq ⟨[], []⟩ u
  obtain ⟨grown, listed⟩ := Lower.emits_intern ⟨[], []⟩ u _ _ two
  have types : state.types.toList =
      (if ⟨[], []⟩ ∈ u.types then u.types else u.types.push ⟨[], []⟩).toList := by rw [last]
  rw [← types] at grown listed
  obtain ⟨idle, shortens⟩ := Lower.exists_shortens_assembled (Lower.parts_of_functions run)
    (Lower.parts_of_functions (b := b.setBody .start []) run') (fun _ mem => grown.subset mem) rfl rfl
    rfl imported slots exported is rfl fun A funcs names => by
      obtain ⟨lowered', u', again, _, _, _, shorter⟩ := Lower.exists_declarations_shorter
        (.refl (moduleLayout b)) funcs (List.forall₂_same.2 fun f _ => .refl _ f) bounded.functions
        declares (t := {}) fun _ mem => mem
      cases declares.symm.trans again
      refine ⟨shorter _ _ names grown List.prefix_rfl, ?_⟩
      rw [starts]
      exact .idle (listed _ List.prefix_rfl)
  exact ⟨_, idle, done', shortens⟩

end Build

end WasmBuilder
