import Mathlib
import WasmBuilder.Proofs.Course.Registry
import WasmBuilder.Proofs.Lowering.Plain
import WasmBuilder.Proofs.Wasm.RoundTrip

/-!
Loading what was built.

A module imports what its build declares, and the build keeps the host items for that. The module has
no memory of its own, and its table is as large as what is put there, so nothing else can fail before
the start function runs. What is written is read back, as all numbers in it are small.
-/

set_option autoImplicit false

namespace WasmBuilder

open Wasm (Provided Ready Table creatable)

namespace Build

variable {b : Build} {tableExport : Option String} {m : Wasm.Module} {log : Registrations}

def OthersCreatable (b : Build) : Prop :=
  ∀ key limits, b.imports.get? key = some (.memory limits) →
    (∀ decl, b.memory = some decl → decl.key ≠ key) → creatable limits = true

open Lower in
/-- All that a module imports is there. -/
theorem Recorded.provided (recorded : b.Recorded log) (undisturbed : log.Undisturbed)
    (done : b.lower tableExport = .ok m) : ∀ i ∈ m.imports, Provided b.imports m.types i := by
  obtain ⟨types, lowered, start, memory, table, exports, parts, imported, _, _, rfl⟩ :=
    lower_eq_ok done
  intro i mem
  rcases List.mem_append.1 mem with function | other
  · obtain ⟨f, declared, key, t, kind, rfl, typed⟩ := import_declared parts.declarations function
    obtain ⟨k, here⟩ := List.mem_iff_getElem?.1 declared
    rw [Array.getElem?_toList] at here
    obtain ⟨host, found, same⟩ := recorded.exists_host undisturbed here kind
    apply Provided.func found
    simp [assembled, typed, same]
  · rcases memoryImport_eq_ok imported with ⟨_, rfl⟩ | ⟨decl, is, _, rfl⟩
    · cases other
    · rw [List.mem_singleton.1 other]
      exact .memory (recorded.get?_memory undisturbed is)

open Lower in
theorem creatable_memory (done : b.lower tableExport = .ok m) (valid : m.isValid = true)
    {decl : MemoryDecl} (is : b.memory = some decl) : creatable decl.limits = true := by
  obtain ⟨types, lowered, start, memory, table, exports, _, imported, _, _, rfl⟩ := lower_eq_ok done
  rcases memoryImport_eq_ok imported with ⟨none, _⟩ | ⟨other, is', fits, rfl⟩
  · cases none.symm.trans is
  · cases is.symm.trans is'
    have ⟨_, memories⟩ := Wasm.stores_of_isValid valid
    have sizes := memories (.ofLimits ⟨decl.initial, some decl.maximum⟩) (by
      simp [Wasm.Module.allMemories, Wasm.Module.importedMemories, assembled,
        Wasm.ImportType.memory?])
    exact (Bool.and_eq_true_iff.1 sizes).1

theorem creatable_offered (distinct : (b.imports.entries.map (·.1)).Nodup)
    (others : b.OthersCreatable)
    (own : ∀ decl, b.memory = some decl → b.imports.get? decl.key = some (.memory decl.limits) ∧
      creatable decl.limits = true) :
    ∀ o ∈ Wasm.offeredMemories b.imports, creatable o.2 = true := by
  rintro ⟨key, limits⟩ mem
  obtain ⟨⟨k, item⟩, listed, is⟩ := List.mem_filterMap.1 mem
  have here : b.imports.get? key = some (.memory limits) := by
    apply Imports.get?_of_mem distinct
    cases item with
    | func => cases is
    | memory =>
      cases is
      exact listed
  by_cases imported : ∃ decl, b.memory = some decl ∧ decl.key = key
  · obtain ⟨decl, has, rfl⟩ := imported
    obtain ⟨found, made⟩ := own decl has
    cases found.symm.trans here
    exact made
  · apply others key limits here
    intro decl has same
    exact imported ⟨decl, has, same⟩

theorem exists_placed (table : List Nat) (s : Wasm.Store)
    (tables : s.tables = ([Lower.tableType table.length].map Table.ofType).toArray) :
    ∃ t, Wasm.placeElements s [⟨.active 0 [.const (.i32 0)], .func, table.map .func⟩] = some t := by
  have refs : Wasm.Element.refs? ⟨.active 0 [.const (.i32 0)], .func, table.map .func⟩ =
      some (table.map fun n => .func (some n)) := by
    rw [Wasm.Element.refs?, mapM_eq_some_iff, List.forall₂_map_left_iff,
      List.forall₂_map_right_iff]
    exact List.forall₂_same.2 fun _ _ => rfl
  have offset : Wasm.constantOffset? [.const (.i32 0)] = some 0 := rfl
  have holds : s.holdsSlots 0 0 table.length = true := by
    simp [Wasm.Store.holdsSlots, tables, Table.holds, Table.ofType, Lower.tableType]
  simp only [Wasm.placeElements, offset, refs, bind, Option.bind, List.length_map, holds]
  exact ⟨_, rfl⟩

open Lower in
theorem fits_of_lower (done : b.lower tableExport = .ok m) (valid : m.isValid = true) : m.Fits := by
  obtain ⟨types, lowered, start, memory, table, exports, _, imported, _, _, rfl⟩ := lower_eq_ok done
  have ⟨tables, _⟩ := Wasm.stores_of_isValid valid
  constructor
  · rfl
  · intro t mem
    have sizes := tables t (List.mem_append_right _ mem)
    have is : t = tableType table.length := by
      simp only [assembled] at mem
      split at mem
      · exact List.mem_singleton.1 mem
      · cases mem
    subst is
    -- validity bounds the table, whose size is a word then
    have bound : table.length ≤ 2 ^ 32 - 1 :=
      of_decide_eq_true (Bool.and_eq_true_iff.1 sizes).1
    exact decide_eq_true (show table.length < 2 ^ 32 by omega)
  · intro g mem
    obtain ⟨t, _, rfl⟩ := List.mem_map.1 mem
    exact ⟨_, rfl⟩
  · intro e mem
    simp only [assembled] at mem
    split at mem
    · cases mem
    · rw [List.mem_singleton.1 mem]
      exact ⟨[], rfl⟩
  · intro s same
    cases empty : table.isEmpty with
    | true => exact ⟨s, by simp [assembled, empty, Wasm.placeElements]⟩
    | false =>
      simp only [assembled, empty, Bool.not_false, Bool.true_or, if_true, Bool.false_eq_true,
        if_false] at same ⊢
      exact exists_placed table s same
  · rfl

open Lower in
/-- What a build puts in a module can be written so that it is read back. -/
theorem isPlain_of_lower (done : b.lower tableExport = .ok m) : m.IsPlain := by
  obtain ⟨types, lowered, start, memory, table, exports, parts, _, _, _, rfl⟩ := lower_eq_ok done
  constructor
  · exact fun f mem => parts.plain mem
  · intro g mem
    obtain ⟨t, _, rfl⟩ := List.mem_map.1 mem
    rfl
  · intro e mem
    simp only [assembled] at mem
    split at mem
    · cases mem
    · exact ⟨0, [.const (.i32 0)], table, List.mem_singleton.1 mem, rfl⟩
  · rfl

theorem compile_eq_ok {options : CompileOptions} {bytes : List UInt8} {c : Build}
    (done : compile options b = .ok bytes c) :
    ∃ m, assemble options b = .ok m c ∧ bytes = m.encode := by
  simp only [compile, bind, EStateM.bind] at done
  cases run : assemble options b with
  | error e d => simp [run] at done
  | ok m d =>
    rw [run] at done
    cases done
    exact ⟨m, rfl, rfl⟩

theorem compile_of_assemble {options : CompileOptions} {c : Build}
    (done : assemble options b = .ok m c) : compile options b = .ok m.encode c := by
  simp only [compile, bind, EStateM.bind, done]
  rfl

end Build

namespace Session

variable {permits : Session → Body.Step → Prop} {s : Session} {log : Registrations}
  {options : CompileOptions} {bytes : List UInt8} {c : Build}

/-- A binary that can be loaded with the imports of the build that it was made of. -/
structure Loadable (c : Build) (bytes : List UInt8) (m : Wasm.Module) : Prop where
  encoded : bytes = m.encode
  valid : m.isValid = true
  provided : ∀ i ∈ m.imports, Provided c.imports m.types i
  creatable : ∀ decl, c.memory = some decl → creatable decl.limits = true
  loads : c.OthersCreatable → bytes.length < 2 ^ 32 → ∀ journal, ∃ i, Ready m c.imports journal i ∧
    ∀ bounds, c.load bytes bounds journal = i.started bounds m.start journal

/-- A build that compiles can be loaded, unless the key of an import was taken by another item
later. -/
theorem compiled_build_loads (history : History permits s log) (validated : options.validate = true)
    (done : Build.compile options s.build = .ok bytes c)
    (undisturbed : Registrations.Undisturbed (s.build.registersFor options.memory ++ log)) :
    ∃ m, Build.assemble options s.build = .ok m c ∧ Loadable c bytes m := by
  obtain ⟨m, done, encoded⟩ := Build.compile_eq_ok done
  have ⟨_, trims, lowered, valid⟩ := Build.assemble_eq_ok done
  have recorded : c.Recorded (s.build.registersFor options.memory ++ log) :=
    trims.quiets.sameImports.recorded ((recorded_of_history history).importing options.memory)
  have provided := recorded.provided undisturbed lowered
  have creatable (decl : MemoryDecl) (is : c.memory = some decl) :=
    Build.creatable_memory lowered (valid validated) is
  refine ⟨m, done, encoded, valid validated, provided, creatable, fun others short journal => ?_⟩
  have offered := Build.creatable_offered recorded.distinct others fun decl is =>
    ⟨recorded.get?_memory undisturbed is, creatable decl is⟩
  obtain ⟨i, ready⟩ := Wasm.exists_ready (valid validated)
    (Build.fits_of_lower lowered (valid validated)) provided offered journal
  subst encoded
  have read := Wasm.decode_encode ((Build.isPlain_of_lower lowered).writable (valid validated) short)
  refine ⟨i, ready, fun bounds => ?_⟩
  rw [Build.load, Wasm.load_of_decode read (valid validated), ready.instantiates]

def watching (id : String) (type : NumType) : ExternalDecl :=
  { key := ⟨"env", "watch"⟩, id := some id, params := [("x", .num type)] }

def recording (signature : Signature) : HostFunction := .returning signature .calls []

def narrowBuild : Build where
  functions := #[⟨"narrow", [.num .i32], .none, .imported ⟨"env", "watch"⟩⟩]
  callables := #[⟨"narrow", 0, .external, [("x", .num .i32)], .none⟩]
  imports := ⟨[(⟨"env", "watch"⟩, .func (recording ⟨[.i32], []⟩))]⟩

def sharedBuild : Build where
  functions := narrowBuild.functions.push ⟨"wide", [.num .i64], .none, .imported ⟨"env", "watch"⟩⟩
  callables := narrowBuild.callables.push ⟨"wide", 1, .external, [("x", .num .i64)], .none⟩
  imports := ⟨[(⟨"env", "watch"⟩, .func (recording ⟨[.i64], []⟩))]⟩

def sharedModule : Wasm.Module where
  types := [⟨[.num .i32], []⟩, ⟨[.num .i64], []⟩]
  imports := [⟨⟨"env", "watch"⟩, .func 0⟩, ⟨⟨"env", "watch"⟩, .func 1⟩]

def firstMemory : MemoryDecl := ⟨⟨"env", "first"⟩, 1, 1⟩

def secondMemory : MemoryDecl := ⟨⟨"env", "second"⟩, 1, 2⟩

def replacedBuild : Build := (narrowBuild.withMemory firstMemory).withMemory secondMemory

def replacedModule : Wasm.Module where
  types := [⟨[.num .i32], []⟩]
  imports := [⟨⟨"env", "watch"⟩, .func 0⟩, ⟨⟨"env", "second"⟩, .memory (.ofLimits ⟨1, some 2⟩)⟩]

theorem history_narrowBuild : History (fun _ _ => True) ⟨narrowBuild, none, []⟩
    [(⟨"env", "watch"⟩, .func ⟨[.i32], []⟩)] :=
  History.start.external rfl (watching "narrow" .i32) rfl (by simp [Build.isTaken, fresh]) recording
    rfl

theorem history_sharedBuild : History (fun _ _ => True) ⟨sharedBuild, none, []⟩
    [(⟨"env", "watch"⟩, .func ⟨[.i64], []⟩), (⟨"env", "watch"⟩, .func ⟨[.i32], []⟩)] :=
  history_narrowBuild.external rfl (watching "wide" .i64) rfl
    (by simp [Build.isTaken, narrowBuild]) recording rfl

theorem lower_sharedBuild : sharedBuild.lower none = .ok sharedModule := by cbv

theorem lower_replacedBuild : replacedBuild.lower none = .ok replacedModule := by cbv

theorem othersCreatable_replacedBuild : replacedBuild.OthersCreatable := by
  intro key limits here apart
  have listed : replacedBuild.imports = (narrowBuild.imports.insert firstMemory.key
      (.memory firstMemory.limits)).insert secondMemory.key (.memory secondMemory.limits) := rfl
  rw [listed, Imports.get?_insert, if_neg (apart secondMemory rfl).symm, Imports.get?_insert] at here
  split at here
  · cases here
    rfl
  · simp [narrowBuild, Imports.get?, Imports.lookup_cons] at here

theorem compiled_build_loads_of_replaced : ∃ (s : Session) (log : Registrations)
    (options : CompileOptions) (bytes : List UInt8) (c : Build) (m : Wasm.Module),
    History (fun _ _ => True) s log ∧ options.validate = true ∧
    Build.compile options s.build = .ok bytes c ∧
    Registrations.Undisturbed (s.build.registersFor options.memory ++ log) ∧ Loadable c bytes m ∧
    ∀ journal, ∃ i, Ready m c.imports journal i ∧
      ∀ bounds, c.load bytes bounds journal = .ok i journal := by
  have history : History (fun _ _ => True) ⟨narrowBuild.withMemory firstMemory, none, []⟩ _ :=
    history_narrowBuild.chore rfl (.useMemory firstMemory) trivial
  have done : Build.assemble { memory := some secondMemory } (narrowBuild.withMemory firstMemory) =
      .ok replacedModule replacedBuild :=
    Build.assemble_of_lower rfl rfl lower_replacedBuild fun _ => by decide +kernel
  have undisturbed : Registrations.Undisturbed [(secondMemory.key, .memory secondMemory.limits),
      (firstMemory.key, .memory firstMemory.limits), (⟨"env", "watch"⟩, .func ⟨[.i32], []⟩)] := by
    constructor
    · intro key signature mem
      simp at mem
      obtain ⟨rfl, rfl⟩ := mem
      rfl
    · intro key limits last
      cases last
      rfl
  have compiled := Build.compile_of_assemble done
  obtain ⟨m, done', loadable⟩ := compiled_build_loads history rfl compiled undisturbed
  cases done.symm.trans done'
  refine ⟨_, _, _, _, _, _, history, rfl, compiled, undisturbed, loadable, ?_⟩
  exact loadable.loads othersCreatable_replacedBuild (by cbv)

/-- Builds that compile and cannot be loaded: where two functions of different types share a key,
loading fails; where a memory was replaced that can never be made, the program ends. -/
theorem unloadable_builds :
    (∃ (s : Session) (bytes : List UInt8) (c : Build),
      Reached (fun _ _ => True) s ∧ s.body = none ∧ Build.compile {} s.build = .ok bytes c ∧
      ∀ bounds journal,
        c.load bytes bounds journal = .error (.failed .notInstantiable) journal) ∧
    ∃ (s : Session) (bytes : List UInt8) (c : Build),
      Reached (fun _ _ => True) s ∧ s.body = none ∧ Build.compile {} s.build = .ok bytes c ∧
      ∀ bounds journal, c.load bytes bounds journal = .error .panicked journal := by
  constructor
  · have done : Build.assemble {} sharedBuild = .ok sharedModule sharedBuild :=
      Build.assemble_of_lower rfl rfl lower_sharedBuild fun _ => by decide +kernel
    refine ⟨_, _, _, history_sharedBuild.reached, rfl, Build.compile_of_assemble done, ?_⟩
    intro bounds journal
    -- the host has the wide function alone, and the module asks for the narrow one first
    have unresolved : Wasm.resolveImports sharedBuild.imports sharedModule.types [] #[]
        sharedModule.imports = none := rfl
    have unlinked : Wasm.link sharedModule sharedBuild.imports [] [] journal = none := by
      cases linked : Wasm.link sharedModule sharedBuild.imports [] [] journal with
      | none => rfl
      | some i =>
        obtain ⟨_, _, _, _, _, _, resolved, _⟩ := Wasm.link_eq_some linked rfl
        cases unresolved.symm.trans resolved
    have created : Wasm.createMemories (Wasm.offeredMemories sharedBuild.imports) = .ok [] := rfl
    rw [Build.load, Wasm.load_of_decode (m := sharedModule) (by cbv) (by decide +kernel),
      Wasm.instantiate_of_created created]
    erw [unlinked]
  · let upended : MemoryDecl := ⟨⟨"env", "first"⟩, 2, 1⟩
    let b : Build := (({} : Build).withMemory upended).withMemory secondMemory
    let m : Wasm.Module := { imports := [⟨⟨"env", "second"⟩, .memory (.ofLimits ⟨1, some 2⟩)⟩] }
    have reached : Reached (fun _ _ => True) ⟨b, none, []⟩ :=
      (Reached.start.chore rfl (.useMemory upended) rfl).chore rfl (.useMemory secondMemory) rfl
    have done : Build.assemble {} b = .ok m b :=
      Build.assemble_of_lower rfl rfl rfl fun _ => by decide +kernel
    refine ⟨_, _, _, reached, rfl, Build.compile_of_assemble done, ?_⟩
    intro bounds journal
    rw [Build.load, Wasm.load_of_decode (m := m) (by cbv) (by decide +kernel)]
    rfl

end Session

end WasmBuilder
