import WasmBuilder.Proofs.Lowering.Moved
import WasmBuilder.Proofs.Meaning.Correct

/-!
Modules of builds that go on where others end, joined with hosts.

Each function that two builds have in common becomes the same function of the host in both modules, or
code that was moved from the one to the other, with a frame of the same size.
-/

set_option autoImplicit false

namespace WasmBuilder

open Lower (Lowered Parts assembled memoryImport moduleLayout)
open Wasm (Context FuncInstance FuncType Instance Joined Memory Relocation)

namespace Wasm

theorem placeElements_eq_some {s t : Store} {elements : List Element}
    (placed : placeElements s elements = some t) :
    t.globals = s.globals ∧ t.memories = s.memories ∧ t.journal = s.journal := by
  induction elements generalizing s with
  | nil =>
    cases placed
    exact ⟨rfl, rfl, rfl⟩
  | cons e rest ih =>
    unfold placeElements at placed
    split at placed
    · obtain ⟨slot, _, placed⟩ := Option.bind_eq_some_iff.1 placed
      obtain ⟨refs, _, placed⟩ := Option.bind_eq_some_iff.1 placed
      dsimp only at placed
      split at placed
      · cases placed
      · have kept := ih placed
        exact kept
    · exact ih placed
    · exact ih placed

end Wasm

namespace Lower

inductive LoweredLinked (host : Imports) (types : List FuncType) (context : Context) :
    Lowered → FuncInstance → Nat → Prop
  | imported {key : ImportKey} {t : Nat} {f : HostFunction} (found : host.get? key = some (.func f)) :
      LoweredLinked host types context (.imported ⟨key, .func t⟩) (.host key f) 1
  | defined {g : Wasm.Func} {type : FuncType} (typed : types[g.typeIndex]? = some type) :
      LoweredLinked host types context (.defined g) (.code type g.locals g.body)
        (Wasm.Frame.size context type g.locals g.body)

section
variable {b : Build} {tableExport : Option String} {types : List Signature} {lowered : List Lowered}
  {start : Option Wasm.Func} {memory : List Wasm.Import} {table : List Nat}
  {exports : List Wasm.Export} (parts : Parts b types lowered start)

include parts

theorem allMemories_assembled :
    (assembled b tableExport types lowered start memory table exports).allMemories =
      memory.filterMap (·.type.memory?) := by
  have none : (lowered.filterMap Lowered.import?).filterMap (·.type.memory?) = [] := by
    refine List.filterMap_eq_nil_iff.2 fun i mem => ?_
    obtain ⟨t, _, type, _⟩ := import_typed parts.declarations mem
    rw [type]
    rfl
  simp only [Wasm.Module.allMemories, Wasm.Module.importedMemories, assembled, List.filterMap_append,
    none, List.nil_append, List.append_nil]

variable (imported : memoryImport b.memory = .ok memory) {host : Imports}
  {offered : List (ImportKey × Nat)} {made : List Memory} {context : Context}
  {hostFuncs codeFuncs : List FuncInstance} {hostMemories : List Nat} {i : Instance}
  (joined : Joined (assembled b tableExport types lowered start memory table exports) host offered made
    context hostFuncs codeFuncs hostMemories i)

include imported joined

/-- Functions of the host come of declarations, and what the memory stands for does not depend on
them. -/
theorem resolved_of_joined :
    List.Forall₂ (Wasm.Found host (types.map Signature.funcType)) (lowered.filterMap Lowered.import?)
      hostFuncs ∧
    Wasm.resolveImports {} [] offered made.toArray memory = some ([], hostMemories) := by
  have functions : ∀ i ∈ lowered.filterMap Lowered.import?, ∃ t, i.type = .func t := by
    intro i mem
    obtain ⟨t, _, type, _⟩ := import_typed parts.declarations mem
    exact ⟨t, type⟩
  obtain ⟨fs, none, rfl, found, rest⟩ := Wasm.found_of_resolveImports functions joined.resolved
  cases resolve_memoryImport imported rest
  rw [List.append_nil]
  refine ⟨found, ?_⟩
  rcases memoryImport_eq_ok imported with ⟨_, rfl⟩ | ⟨m, _, _, rfl⟩
  · exact rest
  · exact rest

theorem exists_linked {k : Nat} {low : Lowered} (here : lowered[k]? = some low) :
    ∃ n function, b.indexOf? k = some n ∧ i.program.funcs[n]? = some function ∧
      LoweredLinked host (types.map Signature.funcType) context low function (i.program.frame n) := by
  obtain ⟨found, _⟩ := resolved_of_joined parts imported joined
  obtain ⟨n, index, stands⟩ := stands_of_lowered parts.declarations 0
    (b.functions.toList.countP Function.isImported) here
  have at_ : b.indexOf? k = some n := (indexOf?_eq b k).trans index
  -- imports are the first functions of an instance, bodies come behind them in order
  cases low with
  | imported import_ =>
    obtain ⟨n, rfl, listed⟩ := stands
    obtain ⟨function, there, resolved⟩ := exists_getElem?_of_forall₂ found listed
    have inside := (List.getElem?_eq_some_iff.1 there).1
    refine ⟨_, function, at_, ?_, ?_⟩
    · rw [joined.funcs, List.getElem?_toArray, Nat.zero_add, List.getElem?_append_left inside, there]
    · rw [Nat.zero_add, joined.frame_host inside]
      cases resolved with
      | mk resolved =>
        unfold Wasm.resolveFunc at resolved
        split at resolved
        next f s has _ =>
          split at resolved
          · cases resolved
            exact .imported has
          · cases resolved
        next => cases resolved
  | defined g =>
    obtain ⟨n, rfl, listed⟩ := stands
    have listed' : (lowered.filterMap Lowered.func? ++ start.toList)[n]? = some g := by
      rw [List.getElem?_append_left (List.getElem?_eq_some_iff.1 listed).1, listed]
    obtain ⟨function, there, coded⟩ := exists_getElem?_of_forall₂ joined.coded listed'
    rw [← length_imports parts.declarations, found.length_eq] at at_
    refine ⟨_, function, at_, ?_, ?_⟩
    · rw [joined.funcs, List.getElem?_toArray, List.getElem?_append_right (Nat.le_add_right _ _),
        Nat.add_sub_cancel_left, there]
    · cases coded with
      | mk typed =>
        rw [joined.frame_code listed' typed]
        exact .defined typed

end

/-- What two builds have in common is lowered first, and to the same. -/
theorem moves_of_runs {b c : Build} {K L : List Signature} {R : Relocation}
    (shares : Shares (moduleLayout b) (moduleLayout c) K L R)
    (functions : b.functions.toList <+: c.functions.toList) {lowered lowered' : List Lowered}
    {s t : LowerState} (run : b.functions.toList.mapM (declaration (moduleLayout b)) {} = .ok (lowered, s))
    (run' : c.functions.toList.mapM (declaration (moduleLayout c)) {} = .ok (lowered', t))
    (le : s.types.toList <+: K) (le' : t.types.toList <+: L) {k : Nat} {low : Lowered}
    (here : lowered[k]? = some low) : ∃ low', lowered'[k]? = some low' ∧ low.Moves R low' := by
  obtain ⟨more, same⟩ := functions
  rw [← same, List.mapM_append] at run'
  obtain ⟨⟨first, u⟩, common, rest⟩ := bind_eq_ok_iff.1 run'
  obtain ⟨⟨others, v⟩, added, rest⟩ := bind_eq_ok_iff.1 rest
  cases rest
  obtain ⟨_, -, -, moves⟩ :=
    abreast_declarations shares b.functions.toList {} {} lowered s first u rfl run common
  obtain ⟨grown, _⟩ := Emits.mapM (emits_declaration (moduleLayout c)) more u others _ added
  obtain ⟨low', there, moved⟩ := exists_getElem?_of_forall₂ (moves le (grown.trans le')) here
  exact ⟨low', getElem?_of_prefix (List.prefix_append _ _) there, moved⟩

/-- What was moved is the same function of the host, or moved code with a frame of the same size. -/
theorem Lowered.Moves.function {R : Relocation} {host host' : Imports} {types types' : List FuncType}
    {context context' : Context} (contexts : R.Contexts context context')
    (listed : ∀ {i j : Nat}, R.type i j → types'[j]? = types[i]?) {low low' : Lowered}
    (moves : low.Moves R low') (hosts : ∀ key t, low = .imported ⟨key, .func t⟩ →
      host'.get? key = host.get? key)
    {function function' : FuncInstance} {size size' : Nat}
    (linked : LoweredLinked host types context low function size)
    (linked' : LoweredLinked host' types' context' low' function' size') :
    R.Function function function' ∧ size' = size := by
  cases moves with
  | @imported key i j _ =>
    cases linked with
    | imported found =>
      cases linked' with
      | imported found' =>
        rw [hosts key i rfl, found] at found'
        cases found'
        exact ⟨.host, rfl⟩
  | defined same moves =>
    cases linked with
    | defined typed =>
      cases linked' with
      | defined typed' =>
        cases typed.symm.trans ((listed same).symm.trans typed')
        exact ⟨.code moves, moves.size contexts _ _⟩

theorem slots_of_link {b : Build} {tableExport : Option String} {m : Wasm.Module}
    (done : b.lower tableExport = .ok m) {host : Imports} {offered : List (ImportKey × Nat)}
    {made : List Memory} {journal : List HostCall} {i : Instance}
    (linked : Wasm.link m host offered made journal = some i) : b.table.functions.length < 2 ^ 32 := by
  by_cases none : b.table.functions.length = 0
  · rw [none]
    decide
  · have creatable := Wasm.creatable_of_link linked (tableType b.table.functions.length)
    rw [tables_of_lower done, if_neg fun empty => none empty.1] at creatable
    exact of_decide_eq_true (creatable (List.mem_singleton_self _))

section
variable {b c : Build} (continues : b.Continues c) {m n : Wasm.Module}

include continues

theorem contexts_of_offers {tableExport tableExport' : Option String} {types types' : List Signature}
    {context context' : Context} (offers : Offers b tableExport types context)
    (offers' : Offers c tableExport' types' context') (given : m.context? = some context)
    (given' : n.context? = some context') (memories : n.allMemories = m.allMemories) :
    (b.relocation c m n).Contexts context context' := by
  obtain ⟨listed, stores, locals⟩ := Wasm.Module.context_eq given
  obtain ⟨listed', stores', locals'⟩ := Wasm.Module.context_eq given'
  constructor
  · rintro i j ⟨type, here, there⟩
    rw [listed, listed', List.getElem?_toArray, List.getElem?_toArray, here, there]
  · rintro f g ⟨k, at_, at_'⟩
    obtain ⟨function, here⟩ := exists_declared at_
    obtain ⟨f', index, typed⟩ := offers.funcs k function here
    obtain ⟨g', index', typed'⟩ := offers'.funcs k function (continues.function here)
    cases at_.symm.trans index
    cases at_'.symm.trans index'
    rw [typed, typed']
  · intro x y same
    rw [← Array.getElem?_toList, ← Array.getElem?_toList, offers.globals, offers'.globals,
      List.getElem?_map, List.getElem?_map, same.type]
  · rintro slot i j ⟨k, f, _, _, _, here, there⟩
    rw [listed, listed', List.getElem?_toArray, List.getElem?_toArray, here, there]
  · rw [stores, stores', memories]
  · rw [locals, locals']

variable {tableExport tableExport' : Option String} (done : b.lower tableExport = .ok m)
  (done' : c.lower tableExport' = .ok n) {host host' : Imports} {offered : List (ImportKey × Nat)}
  {made : List Memory} {journal journal' : List HostCall} {i j : Instance}
  (linked : Wasm.link m host offered made journal = some i)
  (linked' : Wasm.link n host' offered made journal' = some j)

include done done' linked linked'

theorem relates_of_link (memories : j.program.memories = i.program.memories) :
    (b.relocation c m n).Relates i.program j.program i.store j.store := by
  obtain ⟨types, listed, known⟩ := linked_of_link done linked
  obtain ⟨types', listed', known'⟩ := linked_of_link done' linked'
  have globals (b : Build) (s : Wasm.Store) (first : s.globals.toList =
      (b.globals.shapes.flatMap Shape.flatten).map fun t => .num (.zero t)) :
      s.globals.size = (b.globals.shapes.flatMap Shape.flatten).length := by
    rw [← Array.length_toList, first, List.length_map]
  constructor
  · rintro x y ⟨type, here, there⟩
    rw [known.listed, known'.listed, ← listed, ← listed', List.getElem?_toArray,
      List.getElem?_toArray, here, there]
  · rintro f g ⟨k, at_, at_'⟩
    obtain ⟨function, here⟩ := exists_declared at_
    rw [known.signature_eq here at_, known'.signature_eq (continues.function here) at_']
  · exact memories
  -- the tables differ in indices only, so a slot leads to the same function in both
  · rintro slot x y ⟨k, f, held, held', here, typed, typed'⟩
    obtain ⟨g, index⟩ := exists_funcIndex here
    obtain ⟨g', index'⟩ := exists_funcIndex (continues.function here)
    obtain ⟨_, target⟩ := target_of_link done linked held here index typed
    obtain ⟨_, target'⟩ :=
      target_of_link done' linked' held' (continues.function here) index' typed'
    rw [BitVec.ofNat_toNat, BitVec.setWidth_eq] at target target'
    exact ⟨g, g', target, target', k, index, index'⟩
  · intro x y same
    rw [globals b i.store known.globals, globals c j.store known'.globals]
    exact same.inside
  · exact fun first second => first.unique second

section
variable (coherent : b.Coherent) (valid : m.isValid = true) (valid' : n.isValid = true)
  (hosts : ∀ x ∈ m.imports, host'.get? x.key = host.get? x.key)

include coherent valid valid' hosts

theorem moved_of_link : j.program.memories = i.program.memories ∧
    ∀ k f g, b.indexOf? k = some f → c.indexOf? k = some g → ∃ first second,
      i.program.funcs[f]? = some first ∧ j.program.funcs[g]? = some second ∧
      (b.relocation c m n).Function first second ∧ j.program.frame g = i.program.frame f := by
  obtain ⟨words, -⟩ := Build.words_of_isValid done valid
  obtain ⟨words', -⟩ := Build.words_of_isValid done' valid'
  have shares {K L : List Signature} (listed : m.types = K.map Signature.funcType)
      (listed' : n.types = L.map Signature.funcType) :=
    continues.shares coherent listed listed' words words' (slots_of_link done linked)
  obtain ⟨types, lowered, start, memory, table, exports, s, parts, run, le, imported, slots, -, rfl⟩ :=
    lower_runs done
  obtain ⟨types', lowered', start', memory', table', exports', t, parts', run', le', imported', slots',
    -, rfl⟩ := lower_runs done'
  obtain rfl : memory = memory' := by
    rw [continues.memory, imported] at imported'
    exact Except.ok.inj imported'
  obtain ⟨context, hostFuncs, codeFuncs, hostMemories, joined⟩ := Wasm.joined_of_link linked
  obtain ⟨context', hostFuncs', codeFuncs', hostMemories', joined'⟩ := Wasm.joined_of_link linked'
  obtain ⟨_, given, offers⟩ := parts.exists_context imported slots
  obtain ⟨_, given', offers'⟩ := parts'.exists_context imported' slots'
  cases given.symm.trans joined.offers
  cases given'.symm.trans joined'.offers
  have contexts := contexts_of_offers continues offers offers' given given' (by
    rw [allMemories_assembled parts, allMemories_assembled parts'])
  constructor
  · obtain ⟨-, found⟩ := resolved_of_joined parts imported joined
    obtain ⟨-, found'⟩ := resolved_of_joined parts' imported' joined'
    cases found.symm.trans found'
    rw [joined.memories, joined'.memories]
    rfl
  · intro k f g at_ at_'
    obtain ⟨declared, here⟩ := exists_declared at_
    rw [← Array.getElem?_toList] at here
    obtain ⟨low, became, _⟩ := exists_getElem?_of_forall₂ parts.declarations here
    obtain ⟨low', became', moves⟩ :=
      moves_of_runs (shares rfl rfl) continues.functions run run' le le' became
    obtain ⟨f', first, index, found, is⟩ := exists_linked parts imported joined became
    obtain ⟨g', second, index', found', is'⟩ := exists_linked parts' imported' joined' became'
    cases at_.symm.trans index
    cases at_'.symm.trans index'
    refine ⟨first, second, found, found', moves.function contexts ?_ (fun key t same => ?_) is is'⟩
    · rintro x y ⟨type, there, there'⟩
      exact there'.trans there.symm
    · apply hosts ⟨key, .func t⟩
      exact List.mem_append_left _ (List.mem_filterMap.2 ⟨low, List.mem_of_getElem? became, same ▸ rfl⟩)

/-- The module of a build that goes on where another one ends holds all its functions. -/
theorem embeds_of_link : (b.relocation c m n).Embeds i.program j.program i.store j.store := by
  obtain ⟨memories, functions⟩ :=
    moved_of_link continues done done' linked linked' coherent valid valid' hosts
  have relates := relates_of_link continues done done' linked linked' memories
  refine { relates with funcs := ?_, frames := ?_ }
  · rintro f g ⟨k, at_, at_'⟩
    obtain ⟨first, second, here, there, moved, -⟩ := functions k f g at_ at_'
    exact ⟨first, second, here, there, moved⟩
  · rintro f g ⟨k, at_, at_'⟩
    obtain ⟨_, _, -, -, -, same⟩ := functions k f g at_ at_'
    exact same

end

end

end Lower

end WasmBuilder
