import Mathlib.Data.List.Forall2
import WasmBuilder.Proofs.Moves
import WasmBuilder.Wasm.Instance

/-!
What linking makes of a module.
-/

set_option autoImplicit false

namespace WasmBuilder.Wasm

inductive Resolved (types : List FuncType) : Import → FuncInstance → Prop
  | mk {key : ImportKey} {t : Nat} {f : HostFunction} (typed : types[t]? = some f.signature.funcType) :
      Resolved types ⟨key, .func t⟩ (.host key f)

theorem resolved_of_resolveFunc {host : Imports} {types : List FuncType} {key : ImportKey} {t : Nat}
    {function : FuncInstance} (found : resolveFunc host types key t = some function) :
    Resolved types ⟨key, .func t⟩ function := by
  unfold resolveFunc at found
  split at found
  next f s _ listed =>
    split at found
    next same =>
      cases found
      exact .mk (same ▸ listed)
    next => cases found
  next => cases found

inductive Found (host : Imports) (types : List FuncType) : Import → FuncInstance → Prop
  | mk {key : ImportKey} {t : Nat} {function : FuncInstance}
      (found : resolveFunc host types key t = some function) :
      Found host types ⟨key, .func t⟩ function

theorem found_of_resolveImports {host : Imports} {types : List FuncType}
    {offered : List (ImportKey × Nat)} {memories : Array Memory} {first rest : List Import}
    (functions : ∀ i ∈ first, ∃ t, i.type = .func t) {fs : List FuncInstance} {ms : List Nat}
    (found : resolveImports host types offered memories (first ++ rest) = some (fs, ms)) :
    ∃ fs₁ fs₂, fs = fs₁ ++ fs₂ ∧ List.Forall₂ (Found host types) first fs₁ ∧
      resolveImports host types offered memories rest = some (fs₂, ms) := by
  induction first generalizing fs with
  | nil => exact ⟨[], fs, rfl, .nil, found⟩
  | cons i first ih =>
    obtain ⟨key, type⟩ := i
    obtain ⟨t, rfl⟩ : ∃ t, type = .func t := functions _ List.mem_cons_self
    obtain ⟨f, one, found⟩ := Option.bind_eq_some_iff.1 found
    obtain ⟨⟨others, ms'⟩, later, found⟩ := Option.bind_eq_some_iff.1 found
    cases found
    obtain ⟨fs₁, fs₂, rfl, resolved, memory⟩ :=
      ih (fun j mem => functions j (List.mem_cons_of_mem _ mem)) later
    exact ⟨f :: fs₁, fs₂, rfl, .cons (.mk one) resolved, memory⟩

theorem resolveImports_append {host : Imports} {types : List FuncType}
    {offered : List (ImportKey × Nat)} {memories : Array Memory} {first rest : List Import}
    (functions : ∀ i ∈ first, ∃ t, i.type = .func t) {fs : List FuncInstance} {ms : List Nat}
    (found : resolveImports host types offered memories (first ++ rest) = some (fs, ms)) :
    ∃ fs₁ fs₂, fs = fs₁ ++ fs₂ ∧ List.Forall₂ (Resolved types) first fs₁ ∧
      resolveImports host types offered memories rest = some (fs₂, ms) := by
  obtain ⟨fs₁, fs₂, same, found, rest⟩ := found_of_resolveImports functions found
  refine ⟨fs₁, fs₂, same, found.imp fun i f found => ?_, rest⟩
  cases found with
  | mk found => exact resolved_of_resolveFunc found

inductive Coded (types : List FuncType) : Func → FuncInstance → Prop
  | mk {g : Func} {type : FuncType} (typed : types[g.typeIndex]? = some type) :
      Coded types g (.code type g.locals g.body)

/-- What runs when a module is linked: its imports, which have frames of the least size, and then its
own functions. -/
structure Joined (m : Module) (host : Imports) (offered : List (ImportKey × Nat)) (made : List Memory)
    (context : Context) (hostFuncs codeFuncs : List FuncInstance) (hostMemories : List Nat)
    (i : Instance) : Prop where
  offers : m.context? = some context
  resolved : resolveImports host m.types offered made.toArray m.imports = some (hostFuncs, hostMemories)
  coded : List.Forall₂ (Coded m.types) m.funcs codeFuncs
  exports : i.exports = m.exports
  types : i.program.types = m.types.toArray
  funcs : i.program.funcs = (hostFuncs ++ codeFuncs).toArray
  signatures : i.program.signatures = i.program.funcs.map FuncInstance.type
  frames : i.program.frames = (frameSizes m context hostFuncs.length).toArray
  memories : i.program.memories = (hostMemories ++
    (m.memories.map Memory.ofType).zipIdx.map fun p => made.length + p.2).toArray

theorem joined_of_link {m : Module} {host : Imports} {offered : List (ImportKey × Nat)}
    {made : List Memory} {journal : List HostCall} {i : Instance}
    (linked : link m host offered made journal = some i) :
    ∃ context hostFuncs codeFuncs hostMemories,
      Joined m host offered made context hostFuncs codeFuncs hostMemories i := by
  unfold link at linked
  obtain ⟨context, checked, linked⟩ := Option.bind_eq_some_iff.1 linked
  obtain ⟨⟨hostFuncs, hostMemories⟩, resolved, linked⟩ := Option.bind_eq_some_iff.1 linked
  dsimp only at linked
  split at linked
  next => cases linked
  next =>
    obtain ⟨codeFuncs, coded, linked⟩ := Option.bind_eq_some_iff.1 linked
    obtain ⟨globals, _, linked⟩ := Option.bind_eq_some_iff.1 linked
    obtain ⟨elements, _, linked⟩ := Option.bind_eq_some_iff.1 linked
    obtain ⟨placed, _, linked⟩ := Option.bind_eq_some_iff.1 linked
    obtain ⟨store, _, linked⟩ := Option.bind_eq_some_iff.1 linked
    cases linked
    refine ⟨context, hostFuncs, codeFuncs, hostMemories, checked, resolved, ?_, rfl, rfl, rfl, rfl, rfl,
      rfl⟩
    refine (mapM_eq_some_iff.1 coded).imp fun g f made => ?_
    obtain ⟨type, typed, made⟩ := Option.bind_eq_some_iff.1 made
    cases made
    exact .mk typed

/-- The first store of a module with nothing of its own in memory: globals have their first values, and
tables are filled. -/
theorem stored_of_link {m : Module} {host : Imports} {offered : List (ImportKey × Nat)}
    {made : List Memory} {journal : List HostCall} {i : Instance}
    (linked : link m host offered made journal = some i) (data : m.data = []) :
    ∃ globals elements, List.Forall₂ (fun g d => constantValue? g.init = some d) m.globals globals ∧
      placeElements
        { globals := globals.toArray
          memories := (made ++ m.memories.map Memory.ofType).toArray
          tables := (m.tables.map Table.ofType).toArray
          elements := elements
          journal := journal } m.elements = some i.store := by
  unfold link at linked
  obtain ⟨context, _, linked⟩ := Option.bind_eq_some_iff.1 linked
  obtain ⟨⟨hostFuncs, hostMemories⟩, _, linked⟩ := Option.bind_eq_some_iff.1 linked
  dsimp only at linked
  split at linked
  next => cases linked
  next =>
    obtain ⟨codeFuncs, _, linked⟩ := Option.bind_eq_some_iff.1 linked
    obtain ⟨globals, valued, linked⟩ := Option.bind_eq_some_iff.1 linked
    obtain ⟨elements, _, linked⟩ := Option.bind_eq_some_iff.1 linked
    obtain ⟨placed, tables, linked⟩ := Option.bind_eq_some_iff.1 linked
    obtain ⟨store, same, linked⟩ := Option.bind_eq_some_iff.1 linked
    rw [data] at same tables
    cases same
    cases linked
    exact ⟨globals, elements.toArray, mapM_eq_some_iff.1 valued, tables⟩

/-- A module with nothing of its own in memory is linked: its functions are those of the host and
then its own, globals have their first values, and tables are filled. -/
theorem link_eq_some {m : Module} {host : Imports} {offered : List (ImportKey × Nat)}
    {made : List Memory} {journal : List HostCall} {i : Instance}
    (linked : link m host offered made journal = some i) (data : m.data = []) :
    ∃ hostFuncs hostMemories codeFuncs globals memories elements,
      resolveImports host m.types offered made.toArray m.imports = some (hostFuncs, hostMemories) ∧
      List.Forall₂ (Coded m.types) m.funcs codeFuncs ∧
      List.Forall₂ (fun g d => constantValue? g.init = some d) m.globals globals ∧
      placeElements
        { globals := globals.toArray
          memories := memories
          tables := (m.tables.map Table.ofType).toArray
          elements := elements
          journal := journal } m.elements = some i.store ∧
      i.program.types = m.types.toArray ∧ i.program.funcs = (hostFuncs ++ codeFuncs).toArray ∧
      i.program.signatures = i.program.funcs.map FuncInstance.type := by
  obtain ⟨_, hostFuncs, codeFuncs, hostMemories, joined⟩ := joined_of_link linked
  obtain ⟨globals, elements, valued, placed⟩ := stored_of_link linked data
  exact ⟨hostFuncs, hostMemories, codeFuncs, globals, _, elements, joined.resolved, joined.coded, valued,
    placed, joined.types, joined.funcs, joined.signatures⟩

theorem typed_of_resolveImports {host : Imports} {types : List FuncType}
    {offered : List (ImportKey × Nat)} {memories : Array Memory} {imports : List Import}
    {fs : List FuncInstance} {ms : List Nat}
    (found : resolveImports host types offered memories imports = some (fs, ms)) :
    List.Forall₂ (fun t f => types[t]? = some f.type) (imports.filterMap (·.type.func?)) fs ∧
      ∀ f ∈ fs, ∃ key function, f = .host key function := by
  induction imports generalizing fs ms with
  | nil =>
    cases found
    exact ⟨.nil, nofun⟩
  | cons i rest ih =>
    obtain ⟨key, type⟩ := i
    cases type with
    | func t =>
      obtain ⟨f, one, found⟩ := Option.bind_eq_some_iff.1 found
      obtain ⟨⟨others, ms'⟩, later, found⟩ := Option.bind_eq_some_iff.1 found
      cases found
      obtain ⟨typed, hosts⟩ := ih later
      cases resolved_of_resolveFunc one with
      | @mk _ _ function here =>
        refine ⟨.cons here typed, fun g mem => ?_⟩
        rcases List.mem_cons.1 mem with rfl | mem
        · exact ⟨key, function, rfl⟩
        · exact hosts g mem
    | memory t =>
      obtain ⟨number, _, found⟩ := Option.bind_eq_some_iff.1 found
      obtain ⟨memory, _, found⟩ := Option.bind_eq_some_iff.1 found
      dsimp only at found
      split at found
      next => cases found
      next =>
        obtain ⟨⟨others, ms'⟩, later, found⟩ := Option.bind_eq_some_iff.1 found
        cases found
        exact ih later
    | table | global => cases found

theorem Module.context_eq {m : Module} {context : Context} (offers : m.context? = some context) :
    context.types = m.types.toArray ∧ context.memories = m.allMemories.toArray ∧
      context.locals = #[] := by
  obtain ⟨funcs, _, is⟩ := Option.bind_eq_some_iff.1 offers
  cases is
  exact ⟨rfl, rfl, rfl⟩

namespace Joined

variable {m : Module} {host : Imports} {offered : List (ImportKey × Nat)} {made : List Memory}
  {context : Context} {hostFuncs codeFuncs : List FuncInstance} {hostMemories : List Nat}
  {i : Instance} (joined : Joined m host offered made context hostFuncs codeFuncs hostMemories i)

include joined

theorem frame_host {n : Nat} (inside : n < hostFuncs.length) : i.program.frame n = 1 := by
  rw [Program.frame, joined.frames, frameSizes, Array.getD_eq_getD_getElem?, List.getElem?_toArray,
    List.getElem?_append_left (by rwa [List.length_replicate]), List.getElem?_replicate,
    if_pos inside]
  rfl

theorem frame_code {n : Nat} {g : Func} {type : FuncType} (here : m.funcs[n]? = some g)
    (typed : m.types[g.typeIndex]? = some type) :
    i.program.frame (hostFuncs.length + n) = Frame.size context type g.locals g.body := by
  have listed : context.types[g.typeIndex]? = some type := by
    obtain ⟨funcs, _, is⟩ := Option.bind_eq_some_iff.1 joined.offers
    cases is
    rw [List.getElem?_toArray, typed]
  rw [Program.frame, joined.frames, frameSizes, Array.getD_eq_getD_getElem?, List.getElem?_toArray,
    List.getElem?_append_right (by rw [List.length_replicate]; exact Nat.le_add_right _ _),
    List.length_replicate, Nat.add_sub_cancel_left, List.getElem?_map, here, Option.map_some, listed]
  rfl

theorem length_hosts : hostFuncs.length = m.importedFuncs.length :=
  (typed_of_resolveImports joined.resolved).1.length_eq.symm

theorem getElem?_host {f : Nat} (inside : f < hostFuncs.length) :
    i.program.funcs[f]? = hostFuncs[f]? := by
  rw [joined.funcs, List.getElem?_toArray, List.getElem?_append_left inside]

theorem getElem?_code (k : Nat) : i.program.funcs[hostFuncs.length + k]? = codeFuncs[k]? := by
  rw [joined.funcs, List.getElem?_toArray, List.getElem?_append_right (Nat.le_add_right _ _),
    Nat.add_sub_cancel_left]

/-- The functions of an instance have the types that its code was checked with. -/
theorem signatures_eq : i.program.signatures = context.funcs := by
  obtain ⟨types, listed, is⟩ := Option.bind_eq_some_iff.1 joined.offers
  cases is
  have typed : (m.importedFuncs ++ m.funcs.map (·.typeIndex)).mapM (fun t => m.types[t]?) =
      some ((hostFuncs ++ codeFuncs).map FuncInstance.type) := by
    rw [mapM_eq_some_iff, List.map_append]
    refine List.rel_append ?_ ?_
    · rw [List.forall₂_map_right_iff]
      exact (typed_of_resolveImports joined.resolved).1
    · rw [List.forall₂_map_left_iff, List.forall₂_map_right_iff]
      refine joined.coded.imp fun g f coded => ?_
      cases coded with
      | mk typed => exact typed
  rw [joined.signatures, joined.funcs, List.map_toArray]
  exact congrArg List.toArray (Option.some.inj (typed.symm.trans listed))

end Joined

namespace Table

@[simp] theorem size_poke (t : Table) (slot : Nat) (refs : List Datum) :
    (t.poke slot refs).size = t.size := by
  induction refs generalizing t slot with
  | nil => rfl
  | cons d rest ih => rw [poke, ih]

theorem peek_poke_of_lt (t : Table) {start slot : Nat} (lt : slot < start) (refs : List Datum) :
    (t.poke start refs).peek slot = t.peek slot := by
  induction refs generalizing t start with
  | nil => rfl
  | cons d rest ih =>
    rw [poke, ih _ (Nat.lt_succ_of_lt lt)]
    have other : start ≠ slot := Nat.ne_of_gt lt
    simp [peek, Std.HashMap.getD_insert, other]

theorem peek_poke (t : Table) (start : Nat) {refs : List Datum} {n : Nat} {d : Datum}
    (here : refs[n]? = some d) : (t.poke start refs).peek (start + n) = d := by
  induction refs generalizing t start n with
  | nil => simp at here
  | cons first rest ih =>
    cases n with
    | zero =>
      cases here
      rw [poke, peek_poke_of_lt _ (Nat.lt_succ_self (start + 0))]
      simp [peek]
    | succ n =>
      rw [poke, ← ih _ (start + 1) here]
      congr 1
      omega

/-- A table that is filled as a whole holds just what it was filled with. -/
theorem get?_poke_zero {t : Table} {refs : List Datum} (whole : t.size = refs.length) (slot : Nat) :
    (t.poke 0 refs).get? slot = refs[slot]? := by
  unfold get?
  rw [size_poke, whole]
  split
  next inside =>
    have here := List.getElem?_eq_getElem inside
    have held := peek_poke t 0 here
    rw [Nat.zero_add] at held
    rw [held, here]
  next outside => exact (List.getElem?_eq_none (Nat.le_of_not_lt outside)).symm

end Table

end WasmBuilder.Wasm
