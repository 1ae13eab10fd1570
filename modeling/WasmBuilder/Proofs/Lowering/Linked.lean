import WasmBuilder.Proofs.Lowering.Indices
import WasmBuilder.Proofs.Lowering.Plain
import WasmBuilder.Proofs.Wasm.Linking

/-!
The module of a build, joined with a host.

Each declared function is found at the index that its calls use, global variables begin with zeros,
and the slots of the table hold the functions that were put there.
-/

set_option autoImplicit false

namespace WasmBuilder.Lower

open Wasm (Datum FuncInstance Instr)

inductive FunctionLinked (b : Build) (types : List Signature) (f : Function) : FuncInstance → Prop
  | host {key : ImportKey} {host : HostFunction} (kind : f.kind = .imported key)
      (typed : host.signature.funcType = f.signature.funcType) :
      FunctionLinked b types f (.host key host)
  | code {scope : Scope} {body : List ExprId} {g : Wasm.Func} (kind : f.kind = .defined scope body)
      (code : FunctionCode (moduleLayout b) types f.signature scope.shapes body g) :
      FunctionLinked b types f (.code f.signature.funcType g.locals g.body)

/-- An instance of the module of a build, before anything of it ran. -/
structure Linked (b : Build) (tableExport : Option String) (types : List Signature)
    (i : Wasm.Instance) : Prop where
  listed : i.program.types = (types.map Signature.funcType).toArray
  signatures : i.program.signatures = i.program.funcs.map FuncInstance.type
  plain : ∀ (n : Nat) (f : FuncInstance), i.program.funcs[n]? = some f → f.IsPlain
  funcs : ∀ (k : Nat) (f : Function), b.functions[k]? = some f → ∃ n function,
    (moduleLayout b).funcIndices[k]? = some n ∧ i.program.funcs[n]? = some function ∧
      FunctionLinked b types f function
  slots : ∀ func ∈ b.table.functions, ∃ f, b.functions[func]? = some f
  globals : i.store.globals.toList = (b.globals.shapes.flatMap Shape.flatten).map fun t => .num (.zero t)
  table : (!b.table.functions.isEmpty || tableExport.isSome) = true →
    (moduleLayout b).Fills b.table.functions i.store

theorem FunctionLinked.type_eq {b : Build} {types : List Signature} {f : Function}
    {function : FuncInstance} (linked : FunctionLinked b types f function) :
    function.type = f.signature.funcType := by
  cases linked with
  | host _ typed => exact typed
  | code => rfl

/-- Calls of a declared function are checked against the signature that it was declared with. -/
theorem Linked.signature_eq {b : Build} {tableExport : Option String} {types : List Signature}
    {i : Wasm.Instance} (linked : Linked b tableExport types i) {k n : Nat} {f : Function}
    (declared : b.functions[k]? = some f) (index : (moduleLayout b).funcIndices[k]? = some n) :
    i.program.signatures[n]? = some f.signature.funcType := by
  obtain ⟨n', function, index', found, known⟩ := linked.funcs k f declared
  cases index.symm.trans index'
  rw [linked.signatures, Array.getElem?_map, found, Option.map_some, known.type_eq]

theorem resolve_memoryImport {host : Imports} {types : List Wasm.FuncType}
    {offered : List (ImportKey × Nat)} {memories : Array Wasm.Memory} {decl : Option MemoryDecl}
    {imports : List Wasm.Import} (imported : memoryImport decl = .ok imports)
    {fs : List FuncInstance} {ms : List Nat}
    (found : Wasm.resolveImports host types offered memories imports = some (fs, ms)) : fs = [] := by
  rcases memoryImport_eq_ok imported with ⟨_, rfl⟩ | ⟨m, _, _, rfl⟩
  · cases found
    rfl
  · obtain ⟨n, _, found⟩ := Option.bind_eq_some_iff.1 found
    obtain ⟨memory, _, found⟩ := Option.bind_eq_some_iff.1 found
    dsimp only at found
    split at found
    next => cases found
    next =>
      cases found
      rfl

section
variable {b : Build} {tableExport : Option String} {types : List Signature} {lowered : List Lowered}
  {start : Option Wasm.Func} {memory : List Wasm.Import} {table : List Nat}
  {exports : List Wasm.Export} (parts : Parts b types lowered start)
  {hostFuncs codeFuncs : List FuncInstance}
  (resolved : List.Forall₂ (Wasm.Resolved (types.map Signature.funcType))
    (lowered.filterMap Lowered.import?) hostFuncs)
  (coded : List.Forall₂ (Wasm.Coded (types.map Signature.funcType))
    (lowered.filterMap Lowered.func? ++ start.toList) codeFuncs)

include parts resolved coded

/-- Imports come first and functions of the module behind them, as calls count them. -/
theorem exists_function {k : Nat} {f : Function} (here : b.functions[k]? = some f) :
    ∃ n function, (moduleLayout b).funcIndices[k]? = some n ∧
      (hostFuncs ++ codeFuncs)[n]? = some function ∧ FunctionLinked b types f function := by
  have here' : b.functions.toList[k]? = some f := by rw [Array.getElem?_toList, here]
  obtain ⟨n, low, found, code, stands⟩ := stands_of_funcIndicesFrom parts.declarations 0
    (b.functions.toList.countP Function.isImported) here'
  have index : (moduleLayout b).funcIndices[k]? = some n := by
    rw [moduleLayout, List.getElem?_toArray]
    exact found
  -- an index counts imports first, and so does the list of functions
  cases code with
  | imported kind listed =>
    obtain ⟨n, rfl, at_⟩ := stands
    obtain ⟨function, there, resolved⟩ := exists_getElem?_of_forall₂ resolved at_
    cases resolved with
    | @mk _ _ host typed =>
      rw [List.getElem?_map, listed, Option.map_some] at typed
      refine ⟨_, _, index, ?_, .host kind (Option.some.inj typed).symm⟩
      rw [Nat.zero_add, List.getElem?_append_left (List.getElem?_eq_some_iff.1 there).1, there]
  | @defined scope body g kind code =>
    obtain ⟨n, rfl, at_⟩ := stands
    have at_' : (lowered.filterMap Lowered.func? ++ start.toList)[n]? = some g := by
      rw [List.getElem?_append_left (List.getElem?_eq_some_iff.1 at_).1, at_]
    obtain ⟨function, there, coded⟩ := exists_getElem?_of_forall₂ coded at_'
    have same := code
    cases coded with
    | @mk type typed =>
      cases code with
      | mk listed =>
        rw [List.getElem?_map, listed, Option.map_some] at typed
        cases typed
        refine ⟨_, _, index, ?_, .code kind same⟩
        rw [← length_imports parts.declarations, resolved.length_eq,
          List.getElem?_append_right (Nat.le_add_right _ _), Nat.add_sub_cancel_left, there]

theorem isPlain_of_mem {function : FuncInstance} (mem : function ∈ hostFuncs ++ codeFuncs) :
    function.IsPlain := by
  rcases List.mem_append.1 mem with outside | inside
  · obtain ⟨n, at_⟩ := List.mem_iff_getElem?.1 outside
    obtain ⟨i, _, resolved⟩ := exists_getElem?_of_forall₂ resolved.flip at_
    cases resolved with
    | mk => trivial
  · obtain ⟨n, at_⟩ := List.mem_iff_getElem?.1 inside
    obtain ⟨g, there, coded⟩ := exists_getElem?_of_forall₂ coded.flip at_
    obtain ⟨_, _, _, code, _⟩ := parts.func_code (List.mem_of_getElem? there)
    cases coded with
    | mk => exact code.isPlain _

end

theorem first_values {ts : List NumType} {globals : List Datum}
    (valued : List.Forall₂ (fun (g : Wasm.Global) d => Wasm.constantValue? g.init = some d)
      (ts.map zeroGlobal) globals) : globals = ts.map fun t => .num (.zero t) := by
  have each := (List.forall₂_map_left_iff.1 valued).imp fun t d value =>
    show Datum.num (.zero t) = d from Option.some.inj value
  have same := List.forall₂_map_left_iff.2 each
  rw [List.forall₂_eq_eq_eq] at same
  exact same.symm

/-- Placing a list of functions in a table of as many slots fills the table, and that is all. -/
theorem place_table {s placed : Wasm.Store} {table : List Nat}
    (done : Wasm.placeElements s (if table.isEmpty then []
      else [⟨.active 0 [.const (.i32 0)], .func, table.map .func⟩]) = some placed) :
    placed.globals = s.globals ∧ ∀ t, s.tables[0]? = some t → t.size = table.length →
      ∃ u, placed.tables[0]? = some u ∧ ∀ slot, u.get? slot = (table[slot]?).map fun n => .func n := by
  by_cases empty : table = []
  · subst empty
    cases done
    refine ⟨rfl, fun t here size => ⟨t, here, fun slot => ?_⟩⟩
    rw [Wasm.Table.get?, size]
    rfl
  · rw [if_neg (by simpa using empty)] at done
    obtain ⟨refs, found, done⟩ := Option.bind_eq_some_iff.1 done
    dsimp only at done
    split at done
    next => cases done
    next =>
      cases done
      have each := List.forall₂_map_left_iff.1 (mapM_eq_some_iff.1 found)
      refine ⟨rfl, fun t here size => ⟨t.poke 0 refs, ?_, fun slot => ?_⟩⟩
      · rw [Wasm.Store.modifyTable, Array.getElem?_modify, if_pos rfl, here]
        rfl
      · rw [Wasm.Table.get?_poke_zero (size.trans each.length_eq)]
        cases chosen : table[slot]? with
        | none =>
          have outside := List.getElem?_eq_none_iff.1 chosen
          exact List.getElem?_eq_none (each.length_eq ▸ outside)
        | some n =>
          obtain ⟨d, there, same⟩ := exists_getElem?_of_forall₂ each chosen
          cases same
          exact there

theorem linked_of_link {b : Build} {tableExport : Option String} {m : Wasm.Module}
    (done : b.lower tableExport = .ok m) {host : Imports} {offered : List (ImportKey × Nat)}
    {made : List Wasm.Memory} {journal : List HostCall} {i : Wasm.Instance}
    (linked : Wasm.link m host offered made journal = some i) :
    ∃ types, m.types = types.map Signature.funcType ∧ Linked b tableExport types i := by
  obtain ⟨types, lowered, start, memory, table, exports, parts, imported, slots, _, rfl⟩ :=
    lower_eq_ok done
  obtain ⟨hostFuncs, _, codeFuncs, globals, _, _, found, coded, valued, placed, listed, funcs,
    signatures⟩ := Wasm.link_eq_some linked rfl
  have functions : ∀ i ∈ lowered.filterMap Lowered.import?, ∃ t, i.type = .func t := by
    intro i mem
    obtain ⟨t, _, type, _⟩ := import_typed parts.declarations mem
    exact ⟨t, type⟩
  -- functions are imported before the memory, so their indices are those of the list
  obtain ⟨fs, none, rfl, resolved, rest⟩ := Wasm.resolveImports_append functions found
  cases resolve_memoryImport imported rest
  rw [List.append_nil] at funcs
  refine ⟨types, rfl, listed, signatures, ?_, ?_, ?_, ?_, ?_⟩
  · intro n f here
    rw [funcs, List.getElem?_toArray] at here
    exact isPlain_of_mem parts resolved coded (List.mem_of_getElem? here)
  · intro k f here
    rw [funcs]
    obtain ⟨n, function, index, there, linked⟩ := exists_function parts resolved coded here
    exact ⟨n, function, index, by rw [List.getElem?_toArray, there], linked⟩
  · intro func mem
    obtain ⟨slot, at_⟩ := List.mem_iff_getElem?.1 mem
    obtain ⟨n, _, index⟩ := exists_getElem?_of_forall₂ (mapM_eq_ok_iff.1 slots) at_
    exact exists_declared (funcIndex_eq_ok_iff.1 index)
  · have store : i.store.globals = globals.toArray := by
      exact (place_table placed).1
    rw [store]
    exact first_values valued
  · intro some
    have looked := mapM_eq_ok_iff.1 slots
    have same : table.isEmpty = b.table.functions.isEmpty := by
      rw [Bool.eq_iff_iff, List.isEmpty_iff_length_eq_zero, List.isEmpty_iff_length_eq_zero,
        looked.length_eq]
    have table' : ((assembled b tableExport types lowered start memory table exports).tables.map
        Wasm.Table.ofType).toArray[0]? = Option.some (Wasm.Table.ofType (tableType table.length)) := by
      simp [assembled, same, some]
    obtain ⟨u, there, held⟩ := (place_table placed).2 _ table' rfl
    refine ⟨u, there, fun slot => ?_⟩
    rw [held]
    cases chosen : b.table.functions[slot]? with
    | none =>
      have outside := List.getElem?_eq_none_iff.1 chosen
      rw [List.getElem?_eq_none (looked.length_eq ▸ outside)]
      rfl
    | some func =>
      obtain ⟨n, here, index⟩ := exists_getElem?_of_forall₂ looked chosen
      rw [here, Option.bind_some, funcIndex_eq_ok_iff.1 index]

theorem Linked.storeKept {b : Build} {tableExport : Option String} {types : List Signature}
    {i : Wasm.Instance} (known : Linked b tableExport types i) : Wasm.StoreKept i.store i.store := by
  refine ⟨fun d mem => ?_, rfl, rfl⟩
  rw [known.globals] at mem
  obtain ⟨t, -, rfl⟩ := List.mem_map.1 mem
  exact ⟨.zero t, rfl⟩

end WasmBuilder.Lower
