import WasmBuilder.Proofs.Lowering.Module
import WasmBuilder.Wasm.Check

/-!
Function indices of a module.

Calls name functions by their place in the index space, where imports come before functions of the
module itself. The index that lowering computes for a declaration is where its import or function
is, and the function there has the declared type.
-/

set_option autoImplicit false

namespace WasmBuilder.Lower

def Lowered.StandsAt (lowered : List Lowered) (nextImport nextDefined index : Nat) : Lowered → Prop
  | .imported i => ∃ n, index = nextImport + n ∧ (lowered.filterMap Lowered.import?)[n]? = some i
  | .defined g => ∃ n, index = nextDefined + n ∧ (lowered.filterMap Lowered.func?)[n]? = some g

theorem length_funcIndicesFrom (nextImport nextDefined : Nat) (fs : List Function) :
    (funcIndicesFrom nextImport nextDefined fs).length = fs.length := by
  induction fs generalizing nextImport nextDefined with
  | nil => rfl
  | cons f rest ih =>
    unfold funcIndicesFrom
    split
    · rw [List.length_cons, List.length_cons, ih]
    · rw [List.length_cons, List.length_cons, ih]

theorem exists_funcIndex {b : Build} {k : Nat} {f : Function} (here : b.functions[k]? = some f) :
    ∃ i, (moduleLayout b).funcIndices[k]? = some i := by
  have inside : k < (moduleLayout b).funcIndices.size := by
    have := (Array.getElem?_eq_some_iff.1 here).1
    simpa [moduleLayout, funcIndices, length_funcIndicesFrom] using this
  exact ⟨_, Array.getElem?_eq_getElem inside⟩

theorem exists_declared {b : Build} {k n : Nat} (index : (moduleLayout b).funcIndices[k]? = some n) :
    ∃ f, b.functions[k]? = some f := by
  have inside : k < b.functions.size := by
    have := (Array.getElem?_eq_some_iff.1 index).1
    simpa [moduleLayout, funcIndices, length_funcIndicesFrom] using this
  exact ⟨_, Array.getElem?_eq_getElem inside⟩

section
variable (i : Wasm.Import) (g : Wasm.Func) (rest : List Lowered)

@[simp] theorem imports_imported :
    (Lowered.imported i :: rest).filterMap Lowered.import? =
      i :: rest.filterMap Lowered.import? := rfl

@[simp] theorem imports_defined :
    (Lowered.defined g :: rest).filterMap Lowered.import? = rest.filterMap Lowered.import? := rfl

@[simp] theorem funcs_imported :
    (Lowered.imported i :: rest).filterMap Lowered.func? = rest.filterMap Lowered.func? := rfl

@[simp] theorem funcs_defined :
    (Lowered.defined g :: rest).filterMap Lowered.func? =
      g :: rest.filterMap Lowered.func? := rfl

end

section
variable {l : Layout} {types : List Signature} {fs : List Function} {lowered : List Lowered}
  (declared : List.Forall₂ (DeclarationCode l types) fs lowered)

include declared

theorem stands_of_lowered (nextImport nextDefined : Nat) {k : Nat} {low : Lowered}
    (here : lowered[k]? = some low) : ∃ i, (funcIndicesFrom nextImport nextDefined fs)[k]? = some i ∧
      low.StandsAt lowered nextImport nextDefined i := by
  induction declared generalizing k nextImport nextDefined with
  | nil => simp at here
  | @cons g first fs lowered code _ ih =>
    cases k with
    | zero =>
      cases here
      cases code with
      | imported kind typed =>
        exact ⟨nextImport, by simp [funcIndicesFrom, Function.isImported, kind], 0, rfl, rfl⟩
      | defined kind code =>
        exact ⟨nextDefined, by simp [funcIndicesFrom, Function.isImported, kind], 0, rfl, rfl⟩
    | succ k =>
      -- what comes first moves those of its own kind by one
      cases code with
      | imported kind typed =>
        obtain ⟨i, found, stands⟩ := ih (nextImport + 1) nextDefined here
        refine ⟨i, by simpa [funcIndicesFrom, Function.isImported, kind] using found, ?_⟩
        cases low with
        | imported _ =>
          obtain ⟨n, rfl, at_⟩ := stands
          exact ⟨n + 1, by omega, at_⟩
        | defined _ => exact stands
      | defined kind code =>
        obtain ⟨i, found, stands⟩ := ih nextImport (nextDefined + 1) here
        refine ⟨i, by simpa [funcIndicesFrom, Function.isImported, kind] using found, ?_⟩
        cases low with
        | imported _ => exact stands
        | defined _ =>
          obtain ⟨n, rfl, at_⟩ := stands
          exact ⟨n + 1, by omega, at_⟩

theorem stands_of_funcIndicesFrom (nextImport nextDefined : Nat) {k : Nat} {f : Function}
    (here : fs[k]? = some f) :
    ∃ i low, (funcIndicesFrom nextImport nextDefined fs)[k]? = some i ∧
      DeclarationCode l types f low ∧ low.StandsAt lowered nextImport nextDefined i := by
  obtain ⟨low, there, code⟩ := exists_getElem?_of_forall₂ declared here
  obtain ⟨i, found, stands⟩ := stands_of_lowered declared nextImport nextDefined there
  exact ⟨i, low, found, code, stands⟩

theorem length_imports :
    (lowered.filterMap Lowered.import?).length = fs.countP Function.isImported := by
  induction declared with
  | nil => rfl
  | @cons f low fs lowered first _ ih =>
    cases first with
    | imported kind => simp [Function.isImported, kind, ih]
    | defined kind => simp [Function.isImported, kind, ih]

/-- Every import of a declaration is a function of the declared key, of the declared type. -/
theorem import_declared {i : Wasm.Import} (mem : i ∈ lowered.filterMap Lowered.import?) :
    ∃ f ∈ fs, ∃ key t, f.kind = .imported key ∧ i = ⟨key, .func t⟩ ∧
      types[t]? = some f.signature := by
  induction declared with
  | nil => simp at mem
  | @cons f low fs lowered first _ ih =>
    cases first with
    | imported kind typed =>
      rcases List.mem_cons.1 mem with rfl | later
      · exact ⟨f, List.mem_cons_self, _, _, kind, rfl, typed⟩
      · obtain ⟨g, declared, is⟩ := ih later
        exact ⟨g, List.mem_cons_of_mem f declared, is⟩
    | defined kind code =>
      obtain ⟨g, declared, is⟩ := ih mem
      exact ⟨g, List.mem_cons_of_mem f declared, is⟩

theorem import_typed {i : Wasm.Import} (mem : i ∈ lowered.filterMap Lowered.import?) :
    ∃ t s, i.type = .func t ∧ types[t]? = some s := by
  obtain ⟨f, _, _, t, _, rfl, typed⟩ := import_declared declared mem
  exact ⟨t, f.signature, rfl, typed⟩

theorem func_code {g : Wasm.Func} (mem : g ∈ lowered.filterMap Lowered.func?) :
    ∃ signature shapes body, FunctionCode l types signature shapes body g := by
  induction declared with
  | nil => simp at mem
  | @cons f low fs lowered first _ ih =>
    cases first with
    | imported kind typed => exact ih mem
    | defined kind code =>
      rcases List.mem_cons.1 mem with rfl | later
      · exact ⟨_, _, _, code⟩
      · exact ih later

end

theorem start_code {l : Layout} {types : List Signature} {body : List ExprId}
    {start : Option Wasm.Func} (code : StartCode l types body start) {g : Wasm.Func}
    (mem : g ∈ start.toList) : ∃ signature shapes body, FunctionCode l types signature shapes body g := by
  cases code with
  | none => cases mem
  | some any code =>
    cases List.mem_singleton.1 mem
    exact ⟨_, _, _, code⟩

theorem typeIndices_of_imports {imports : List Wasm.Import}
    (typed : ∀ i ∈ imports, ∃ t, i.type = .func t) :
    List.Forall₂ (fun i t => i.type = .func t) imports
      (imports.filterMap (·.type.func?)) := by
  induction imports with
  | nil => exact .nil
  | cons i rest ih =>
    obtain ⟨t, type⟩ := typed i List.mem_cons_self
    rw [List.filterMap_cons_some (b := t) (by rw [type]; rfl)]
    exact .cons type (ih fun j mem => typed j (List.mem_cons_of_mem i mem))

/-- The memory of a build is all that a module imports besides functions. -/
theorem memoryImport_eq_ok {decl : Option MemoryDecl} {imports : List Wasm.Import}
    (done : memoryImport decl = .ok imports) :
    (decl = none ∧ imports = []) ∨
      ∃ m : MemoryDecl, decl = some m ∧ m.initial ≤ m.maximum ∧
        imports = [⟨m.key, .memory (.ofLimits ⟨m.initial, some m.maximum⟩)⟩] := by
  cases decl with
  | none =>
    cases done
    exact .inl ⟨rfl, rfl⟩
  | some m =>
    unfold memoryImport at done
    dsimp only at done
    split at done
    next => cases done
    next fits =>
      cases done
      exact .inr ⟨m, rfl, Nat.le_of_not_lt fits, rfl⟩

variable {b : Build} {types : List Signature} {lowered : List Lowered} {start : Option Wasm.Func}
  {memory : List Wasm.Import} (parts : Parts b types lowered start)
  (imported : memoryImport b.memory = .ok memory)

include parts in
/-- Every function of the module has code of some body, and names a listed type. -/
theorem Parts.func_code {g : Wasm.Func} (mem : g ∈ lowered.filterMap Lowered.func? ++ start.toList) :
    ∃ signature shapes body, FunctionCode (moduleLayout b) types signature shapes body g ∧
      types[g.typeIndex]? = some signature := by
  have coded : ∃ signature shapes body,
      FunctionCode (moduleLayout b) types signature shapes body g := by
    rcases List.mem_append.1 mem with own | begins
    · exact Lower.func_code parts.declarations own
    · exact start_code parts.start begins
  obtain ⟨signature, shapes, body, code⟩ := coded
  refine ⟨signature, shapes, body, code, ?_⟩
  cases code with
  | mk typed => exact typed

include imported in
theorem importedFuncs_assembled (tableExport : Option String) (table : List Nat)
    (exports : List Wasm.Export) :
    (assembled b tableExport types lowered start memory table exports).importedFuncs =
      (lowered.filterMap Lowered.import?).filterMap (·.type.func?) := by
  rw [Wasm.Module.importedFuncs, assembled, List.filterMap_append]
  have none : memory.filterMap (·.type.func?) = [] := by
    rcases memoryImport_eq_ok imported with ⟨_, rfl⟩ | ⟨m, _, _, rfl⟩ <;> rfl
  rw [none, List.append_nil]

include parts imported

theorem typeIndex_listed (tableExport : Option String) (table : List Nat) (exports : List Wasm.Export)
    {t : Nat} (mem : t ∈
      (assembled b tableExport types lowered start memory table exports).importedFuncs ++
      (assembled b tableExport types lowered start memory table exports).funcs.map (·.typeIndex)) :
    ∃ s, types[t]? = some s := by
  rcases List.mem_append.1 mem with outside | inside
  · rw [importedFuncs_assembled imported, List.mem_filterMap] at outside
    obtain ⟨i, mem, type⟩ := outside
    obtain ⟨u, s, type', listed⟩ := import_typed parts.declarations mem
    rw [type'] at type
    cases type
    exact ⟨s, listed⟩
  · obtain ⟨g, mem', rfl⟩ := List.mem_map.1 inside
    obtain ⟨signature, _, _, _, listed⟩ := parts.func_code mem'
    exact ⟨signature, listed⟩

/-- The types of all functions are known, and each declaration has its own at its index. -/
theorem exists_funcTypes (tableExport : Option String) (table : List Nat)
    (exports : List Wasm.Export) :
    ∃ fts, (assembled b tableExport types lowered start memory table exports).funcTypes? = some fts ∧
      ∀ (k : Nat) (f : Function), b.functions[k]? = some f →
        ∃ i, (moduleLayout b).funcIndices[k]? = some i ∧ fts[i]? = some f.signature.funcType := by
  obtain ⟨fts, all⟩ : ∃ fts,
      (assembled b tableExport types lowered start memory table exports).funcTypes? = some fts := by
    refine exists_mapM_eq_some fun t mem => ?_
    obtain ⟨s, here⟩ := typeIndex_listed parts imported tableExport table exports mem
    exact ⟨s.funcType, by simp [assembled, here]⟩
  refine ⟨fts, all, fun k f here => ?_⟩
  rw [Wasm.Module.funcTypes?, mapM_eq_some_iff] at all
  -- whatever type index stands at a place, the type of this function is the one it names
  have type_at {i t : Nat} {s : Signature} (listed : types[t]? = some s)
      (at_ : ((assembled b tableExport types lowered start memory table exports).importedFuncs ++
        (assembled b tableExport types lowered start memory table exports).funcs.map
          (·.typeIndex))[i]? = some t) : fts[i]? = some s.funcType := by
    obtain ⟨ft, there, is⟩ := exists_getElem?_of_forall₂ all at_
    have named : (types.map Signature.funcType)[t]? = some ft := is
    rw [List.getElem?_map, listed, Option.map_some] at named
    rw [there, named]
  have typed := typeIndices_of_imports fun i mem =>
    let ⟨t, _, type, _⟩ := import_typed parts.declarations (i := i) mem
    ⟨t, type⟩
  rw [← importedFuncs_assembled imported tableExport table exports] at typed
  have here' : b.functions.toList[k]? = some f := by rw [Array.getElem?_toList, here]
  obtain ⟨i, low, found, code, stands⟩ := stands_of_funcIndicesFrom parts.declarations 0
    (b.functions.toList.countP Function.isImported) here'
  refine ⟨i, by rw [moduleLayout, List.getElem?_toArray]; exact found, ?_⟩
  cases code with
  | imported kind listed =>
    obtain ⟨n, rfl, at_⟩ := stands
    obtain ⟨t, there, type⟩ := exists_getElem?_of_forall₂ typed at_
    cases type
    refine type_at listed ?_
    rw [Nat.zero_add, List.getElem?_append_left (List.getElem?_eq_some_iff.1 there).1, there]
  | defined kind code =>
    obtain ⟨n, rfl, at_⟩ := stands
    cases code with
    | mk listed =>
      refine type_at listed ?_
      rw [← length_imports parts.declarations, typed.length_eq,
        List.getElem?_append_right (Nat.le_add_right _ _), Nat.add_sub_cancel_left,
        List.getElem?_map, assembled, List.getElem?_append_left (List.getElem?_eq_some_iff.1 at_).1,
        at_, Option.map_some]

end WasmBuilder.Lower
