import WasmBuilder.Proofs.Course.Registered
import WasmBuilder.Proofs.Lowering.Joined
import WasmBuilder.Proofs.Simplify.Continued
import WasmBuilder.Proofs.Wasm.Resembling

/-!
Exports and further declarations.

When more is declared behind a build, its functions may get other indices, its types stand elsewhere
and its globals may move. Its exports do what they did nevertheless: called with the same arguments
where globals, memories and the host are the same, they answer the same and leave the same.
-/

set_option autoImplicit false

namespace WasmBuilder

open Lower (memoryImport moduleLayout funcExport)
open Wasm (Instance)

namespace Lower

section
variable {b : Build} {tableExport : Option String} {m : Wasm.Module}
  (done : b.lower tableExport = .ok m)

include done

theorem registered_of_lower (registered : b.Registered) :
    ∀ i ∈ m.imports, (b.imports.get? i.key).isSome = true := by
  obtain ⟨types, lowered, start, memory, table, exports, parts, imported, _, _, rfl⟩ :=
    lower_eq_ok done
  intro i mem
  rcases List.mem_append.1 mem with function | other
  · obtain ⟨f, declared, key, t, kind, rfl, _⟩ := import_declared parts.declarations function
    obtain ⟨k, here⟩ := List.mem_iff_getElem?.1 declared
    rw [Array.getElem?_toList] at here
    exact registered.functions k f key here kind
  · rcases memoryImport_eq_ok imported with ⟨_, rfl⟩ | ⟨decl, is, _, rfl⟩
    · cases other
    · rw [List.mem_singleton.1 other]
      exact registered.memory decl is

theorem globals_of_lower :
    m.globals.length = (b.globals.shapes.flatMap Shape.flatten).length := by
  obtain ⟨types, lowered, start, memory, table, exports, _, _, _, _, rfl⟩ := lower_eq_ok done
  rw [assembled, List.length_map]

theorem memories_of_link {host : Imports} {offered : List (ImportKey × Nat)} {made : List Wasm.Memory}
    {journal : List HostCall} {i : Instance} (linked : Wasm.link m host offered made journal = some i) :
    i.store.memories = made.toArray ∧ i.store.journal = journal := by
  obtain ⟨types, lowered, start, memory, table, exports, _, _, _, _, rfl⟩ := lower_eq_ok done
  obtain ⟨globals, elements, _, placed⟩ := Wasm.stored_of_link linked rfl
  obtain ⟨-, memories, journal⟩ := Wasm.placeElements_eq_some placed
  refine ⟨memories.trans ?_, journal⟩
  exact congrArg List.toArray (List.append_nil made)

end

/-- The first export of a name is that of the first function that was exported under it. -/
theorem find?_exports {b : Build} {exported : List (String × Nat)} {made : List Wasm.Export}
    (each : List.Forall₂ (ExportOf b) exported made) (name : String) :
    (made.find? fun e => e.name = name && e.kind == .func).map (·.index) =
      (exported.lookup name).bind b.indexOf? := by
  induction each with
  | nil => rfl
  | @cons e x exported made first _ ih =>
    by_cases same : e.1 = name
    · have found : (decide (x.name = name) && x.kind == .func) = true := by
        rw [first.name, first.kind]
        simp [same]
      simp only [List.find?_cons, found, List.lookup, same, beq_self_eq_true]
      exact first.index.symm
    · have other : (name == e.1) = false := beq_eq_false_iff_ne.2 (Ne.symm same)
      have passed : (decide (x.name = name) && x.kind == .func) = false := by
        rw [first.name]
        simp [same]
      simp only [List.find?_cons, passed, List.lookup, other]
      exact ih

theorem exportedFunc?_of_link {b : Build} {tableExport : Option String} {m : Wasm.Module}
    (done : b.lower tableExport = .ok m) {host : Imports} {offered : List (ImportKey × Nat)}
    {made : List Wasm.Memory} {journal : List HostCall} {i : Instance}
    (linked : Wasm.link m host offered made journal = some i) (name : String) :
    i.exportedFunc? name = (b.exports.lookup name).bind b.indexOf? := by
  obtain ⟨_, spaces⟩ := indexSpaces done
  obtain ⟨exports, each, all⟩ := spaces.exports
  obtain ⟨_, _, _, _, joined⟩ := Wasm.joined_of_link linked
  have table : (tableExport.toList.map fun name => (⟨name, .table, 0⟩ : Wasm.Export)).find?
      (fun e => e.name = name && e.kind == .func) = none := by
    refine List.find?_eq_none.2 fun e mem => ?_
    obtain ⟨other, -, rfl⟩ := List.mem_map.1 mem
    simp
  rw [Instance.exportedFunc?, joined.exports, all, List.find?_append, table, Option.or_none,
    find?_exports each]

/-- In a valid module, what is exported under a name is found under it: no other export has the
name. -/
theorem exportedFunc?_of_mem {b : Build} {tableExport : Option String} {m : Wasm.Module}
    (done : b.lower tableExport = .ok m) {host : Imports} {offered : List (ImportKey × Nat)}
    {made : List Wasm.Memory} {journal : List HostCall} {i : Instance}
    (linked : Wasm.link m host offered made journal = some i) (valid : m.isValid = true) {name : String}
    {k : Nat} (mem : (name, k) ∈ b.exports) : i.exportedFunc? name = b.indexOf? k := by
  have distinct : (m.exports.map (·.name)).Nodup := by
    unfold Wasm.Module.isValid at valid
    split at valid
    next => cases valid
    next =>
      simp only [Bool.and_eq_true, decide_eq_true_eq] at valid
      exact valid.1.1.1.1.2
  obtain ⟨types, spaces⟩ := indexSpaces done
  obtain ⟨exports, each, all⟩ := spaces.exports
  have names : exports.map (·.name) = b.exports.map (·.1) := by
    rw [← List.forall₂_eq_eq_eq, List.forall₂_map_left_iff, List.forall₂_map_right_iff]
    exact each.flip.imp fun x e export_ => export_.name
  rw [all, List.map_append, names] at distinct
  have found : b.exports.lookup name = some k := by
    obtain ⟨before, behind, is⟩ := List.append_of_mem mem
    refine List.lookup_eq_some_iff.2 ⟨before, behind, is, fun e earlier => ?_⟩
    have apart := (List.nodup_append.1 distinct).1
    rw [is, List.map_append] at apart
    rw [bne_iff_ne]
    exact ((List.nodup_append.1 apart).2.2 e.1 (List.mem_map_of_mem earlier) name
      (List.mem_cons_self)).symm
  rw [exportedFunc?_of_link done linked, found, Option.bind_some]

end Lower

namespace Build

/-- A module that has more in it than another one, from a build that goes on where the build of the
other one ends. It finds what the other one imports, has its globals, and answers calls of its exports
alike, joined with any hosts that have the same for what the other one imports. -/
structure Undisturbed (c d : Build) (m n : Wasm.Module) : Prop where
  imports : ∀ x ∈ m.imports, d.imports.get? x.key = c.imports.get? x.key
  offered : Wasm.offeredMemories d.imports = Wasm.offeredMemories c.imports
  globals : ∀ x < m.globals.length, ∃ y < n.globals.length, SameGlobal c d x y
  apart : ∀ {x y x' y' : Nat}, SameGlobal c d x x' → SameGlobal c d y y' → (y = x ↔ y' = x')
  serves : ∀ {host host' : Imports} {offered : List (ImportKey × Nat)} {made : List Wasm.Memory}
    {journal journal' : List HostCall} {i j : Instance},
    (∀ x ∈ m.imports, host'.get? x.key = host.get? x.key) →
    Wasm.link m host offered made journal = some i →
    Wasm.link n host' offered made journal' = some j →
    (c.relocation d m n).Serves i j ∧
      (journal' = journal → (c.relocation d m n).Matches i.store j.store i.store j.store)

section
variable {c d : Build} {tableExport tableExport' : Option String} {m n : Wasm.Module}
  (done : c.lower tableExport = .ok m) (done' : d.lower tableExport' = .ok n)

include done done'

theorem matches_of_link {host host' : Imports} {offered : List (ImportKey × Nat)}
    {made : List Wasm.Memory} {journal : List HostCall} {i j : Instance}
    (linked : Wasm.link m host offered made journal = some i)
    (linked' : Wasm.link n host' offered made journal = some j) :
    (c.relocation d m n).Matches i.store j.store i.store j.store := by
  obtain ⟨memories, journal⟩ := Lower.memories_of_link done linked
  obtain ⟨memories', journal'⟩ := Lower.memories_of_link done' linked'
  obtain ⟨_, _, known⟩ := Lower.linked_of_link done linked
  obtain ⟨_, _, known'⟩ := Lower.linked_of_link done' linked'
  refine ⟨memories'.trans memories.symm, journal'.trans journal.symm, rfl, rfl, rfl, rfl, ?_⟩
  intro x y same
  rw [← Array.getElem?_toList, ← Array.getElem?_toList, known.globals, known'.globals,
    List.getElem?_map, List.getElem?_map, same.type]

variable (continues : c.Continues d)

include continues

/-- What is exported under a name stays exported under it, as the first of that name. -/
theorem Continues.exportedFunc? {host host' : Imports} {offered offered' : List (ImportKey × Nat)}
    {made made' : List Wasm.Memory} {journal journal' : List HostCall} {i j : Instance}
    (linked : Wasm.link m host offered made journal = some i)
    (linked' : Wasm.link n host' offered' made' journal' = some j) {name : String} {f : Nat}
    (here : i.exportedFunc? name = some f) :
    ∃ g, j.exportedFunc? name = some g ∧ (c.relocation d m n).func f g := by
  rw [Lower.exportedFunc?_of_link done linked] at here
  obtain ⟨k, found, index⟩ := Option.bind_eq_some_iff.1 here
  obtain ⟨function, declared⟩ := Lower.exists_declared index
  obtain ⟨g, index'⟩ := Lower.exists_funcIndex (continues.function declared)
  obtain ⟨more, same⟩ := continues.exports
  refine ⟨g, ?_, k, index, index'⟩
  rw [Lower.exportedFunc?_of_link done' linked', ← same, List.lookup_append, found]
  exact index'

/-- What a build leaves of the module of another one that it goes on from. -/
theorem Continues.undisturbed (coherent : c.Coherent) (valid : m.isValid = true)
    (valid' : n.isValid = true) (imports : ∀ x ∈ m.imports, d.imports.get? x.key = c.imports.get? x.key)
    (offered : Wasm.offeredMemories d.imports = Wasm.offeredMemories c.imports) :
    Undisturbed c d m n := by
  refine ⟨imports, offered, fun x inside => ?_, fun first second => first.unique second, ?_⟩
  · rw [Lower.globals_of_lower done] at inside
    obtain ⟨y, same⟩ := continues.exists_sameGlobal inside
    exact ⟨y, (Lower.globals_of_lower done').symm ▸ same.inside.2, same⟩
  · intro host host' offered made journal journal' i j hosts linked linked'
    have embeds := Lower.embeds_of_link continues done done' linked linked' coherent valid valid' hosts
    have resembles : (c.relocation d m n).Resembles i j :=
      ⟨embeds, fun _ _ => continues.exportedFunc? done done' linked linked'⟩
    refine ⟨resembles.serves, ?_⟩
    rintro rfl
    exact matches_of_link done done' linked linked'

end

end Build

namespace Session

variable {s t : Session} {options : CompileOptions} {c d : Build} {m n : Wasm.Module}

theorem isCalm_of_reached (reached : Reached Lawful s) (idle : s.body = none) : s.build.IsCalm := by
  obtain ⟨_, _, contributed⟩ := exists_contributed reached
  have labelled := (sound_of_reached reached).labelled
  have calm := (awaits_of_contributed contributed).calm
  rw [arena_of_idle idle] at labelled calm
  exact ⟨labelled, calm⟩

theorem reached_assembled (reached : Reached Lawful s) (idle : s.body = none)
    (done : Build.assemble options s.build = .ok m c) : Reached Lawful { s with build := c } := by
  apply reached.chore idle (.assemble options)
  rw [Build.Chore.run, Build.left_discard, Build.left, done]

theorem Extended.imports_eq (extended : Extended s t) (idle : s.body = none) (idle' : t.body = none)
    (done : Build.assemble options s.build = .ok m c) (done' : Build.assemble options t.build = .ok n d) :
    (∀ key, (c.imports.get? key).isSome = true → d.imports.get? key = c.imports.get? key) ∧
      Wasm.offeredMemories d.imports = Wasm.offeredMemories c.imports := by
  obtain ⟨_, trims, _⟩ := Build.assemble_eq_ok done
  obtain ⟨_, trims', _⟩ := Build.assemble_eq_ok done'
  obtain ⟨continues, grown⟩ := extended.continues
  rw [current_of_idle idle, current_of_idle idle'] at continues
  rw [trims.quiets.sameImports.items, trims'.quiets.sameImports.items]
  exact Build.imports_importing grown continues.memory options.memory

/-- Later declarations do not disturb earlier exports. When functions, functions of the host under new
keys and exports under new names are declared behind a build, the exports of the build do in the new
module what they did in the old one. -/
theorem exports_undisturbed (reached : Reached Lawful s) (idle : s.body = none)
    (extended : Extended s t) (idle' : t.body = none)
    (done : Build.assemble options s.build = .ok m c) (done' : Build.assemble options t.build = .ok n d)
    (valid : m.isValid = true) (valid' : n.isValid = true) : Build.Undisturbed c d m n := by
  obtain ⟨_, _, lowered, _⟩ := Build.assemble_eq_ok done
  obtain ⟨_, _, lowered', _⟩ := Build.assemble_eq_ok done'
  have after := reached_assembled reached idle done
  have coherent : c.Coherent := by
    rw [← current_rebuilt idle c s.handed]
    exact coherent_of_reached after
  have continues : s.build.Continues t.build := by
    rw [← current_of_idle idle, ← current_of_idle idle']
    exact extended.continues.1
  have assembled := continues.assemble (isCalm_of_reached reached idle)
    (isCalm_of_reached (reached.leads extended.leads) idle') done done'
  obtain ⟨kept, offered⟩ := extended.imports_eq idle idle' done done'
  have registered := Lower.registered_of_lower lowered (registered_of_reached after)
  exact assembled.undisturbed lowered lowered' coherent valid valid'
    (fun x mem => kept x.key (registered x mem)) offered

def readingBuild : Build where
  arena := ⟨#[⟨.globalGet 1 (.num .i32), some (.num .i32)⟩, ⟨.ret (some 0), some .none⟩]⟩
  functions := #[⟨"get", [], .num .i32, .defined {} [1]⟩]
  callables := #[⟨"get", 0, .direct, [], .num .i32⟩]
  globals := ⟨#[⟨"late", .auto, .global⟩, ⟨"count", .num .i32, .global⟩]⟩
  exports := [("get", 0)]

def settingBuild : Build :=
  { readingBuild with
    arena := ⟨readingBuild.arena.entries ++ #[⟨.const (.i32 7), some (.num .i32)⟩,
      ⟨.globalSet 0 (.num .i32) 2, some .none⟩]⟩
    functions := readingBuild.functions ++ #[
      ⟨"watch", [.num .i32], .none, .imported ⟨"env", "watch"⟩⟩,
      ⟨"set", [], .none, .defined {} [3]⟩]
    callables := readingBuild.callables ++ #[⟨"watch", 1, .external, [("x", .num .i32)], .none⟩,
      ⟨"set", 2, .indirect 0, [], .none⟩]
    globals := ⟨#[⟨"late", .num .i32, .global⟩, ⟨"count", .num .i32, .global⟩]⟩
    table := ⟨#[(2, ⟨0, "set", [], .none⟩)]⟩
    exports := [("get", 0), ("set", 2)]
    imports := ⟨[(⟨"env", "watch"⟩, .func (.returning ⟨[.i32], []⟩ .calls []))]⟩ }

theorem lawful_readingBuild : Reached Lawful ⟨readingBuild, none, [.plain 0]⟩ := by
  let draft : Build.Draft := ⟨false, "get", { id := some "get", result := .num .i32 }⟩
  let empty : Build := { globals := readingBuild.globals }
  let body : Body := empty.newBody {} .local (.num .i32)
  let read : Body := { body with arena := ⟨readingBuild.arena.entries.take 1⟩ }
  have opened : Reached Lawful ⟨empty, some (.globals, empty.newBody {} .global .none), []⟩ :=
    Reached.start.next
      (@Next.openGlobals _ fresh [("late", .auto), ("count", .num .i32)] _ _ rfl rfl)
  have declared : Reached Lawful ⟨empty, none, []⟩ := opened.close rfl rfl
  have begun : Reached Lawful ⟨empty, some (.function draft, body), []⟩ :=
    declared.next
      (.openFunction rfl (Build.openFunction_of_free rfl (by simp [empty, Build.isTaken])))
  have looked : Reached Lawful ⟨empty, some (.function draft, read), [.plain 0]⟩ :=
    begun.take rfl (.read "count") (lawful_of_nil rfl rfl) rfl
  have given := looked.take rfl (.giveResult [0]) (lawful_of_head rfl rfl rfl)
    (show Body.Step.run (.giveResult [0]) read = .ok none
      { read with arena := readingBuild.arena, statements := [1] } from rfl)
  have left : Build.left (Opening.close (.function draft)
      { read with arena := readingBuild.arena, statements := [1] }) empty =
      { readingBuild with exports := [], pending := [0] } := by
    rw [Build.left, Opening.close]
    simp only [bind, EStateM.bind, Build.closeFunction_run]
    rfl
  exact (given.close rfl left).chore rfl (.exportAs "get" 0) rfl

theorem extended_settingBuild :
    Extended ⟨readingBuild, none, [.plain 0]⟩ ⟨settingBuild, none, [.plain 3, .plain 2, .plain 0]⟩ := by
  let watch : ExternalDecl := ⟨⟨"env", "watch"⟩, some "watch", [("x", .num .i32)], .none⟩
  let draft : Build.Draft := ⟨true, "set", { id := some "set", result := .none }⟩
  let watched : Build := readingBuild.added (Build.externalFunction watch "watch") .external
    watch.params readingBuild.table settingBuild.imports false
  let body : Body := watched.newBody {} .local .none
  let made : Body := { body with arena := ⟨settingBuild.arena.entries.take 3⟩ }
  let written : Body := { body with arena := settingBuild.arena, globals := settingBuild.globals }
  let declared : Build := { settingBuild with exports := [("get", 0)], pending := [2] }
  let filled : Body := { written with statements := [3] }
  have registered : Extended ⟨readingBuild, none, [.plain 0]⟩ ⟨watched, none, [.plain 0]⟩ :=
    .single (.external rfl rfl (@Build.external_of_free readingBuild watch "watch" rfl
      (by simp [readingBuild, Build.isTaken]) fun signature => .returning signature .calls []))
  have begun : Extended ⟨readingBuild, none, [.plain 0]⟩
      ⟨watched, some (.function draft, body), [.plain 0]⟩ :=
    registered.tail (.openFunction rfl (Build.openFunction_of_free rfl (by
      simp [watched, Build.added, Build.externalFunction, readingBuild, Build.isTaken, watch])))
  have seven : Extended ⟨readingBuild, none, [.plain 0]⟩
      ⟨watched, some (.function draft, made), [.plain 2, .plain 0]⟩ :=
    begun.take rfl (.literal (.int 7) .i32) (lawful_of_nil rfl rfl) rfl
  have set : Extended ⟨readingBuild, none, [.plain 0]⟩
      ⟨watched, some (.function draft, written), [.plain 3, .plain 2, .plain 0]⟩ :=
    seven.take rfl (.write "late" 2) (lawful_of_head rfl rfl rfl) rfl
  have run : Extended ⟨readingBuild, none, [.plain 0]⟩
      ⟨watched, some (.function draft, filled), [.plain 3, .plain 2, .plain 0]⟩ :=
    set.take rfl (.exec [3]) (lawful_of_head rfl rfl rfl) rfl
  have closes : Build.closeFunction draft filled watched = .ok 2 declared := by
    have append : watched.table.append 2 "set" [] .none = .ok settingBuild.table := by
      simp [watched, Build.added, readingBuild, settingBuild, IndirectTable.append, IndirectTable.size]
    exact Build.closeFunction_of_append rfl append
  have closed : Extended ⟨readingBuild, none, [.plain 0]⟩
      ⟨declared, none, [.plain 3, .plain 2, .plain 0]⟩ := run.tail (.closeFunction rfl closes)
  exact closed.tail (@Appends.exportAs _ "set" 2 _ rfl (by simp [declared]) rfl)

def readingModule : Wasm.Module where
  types := [⟨[], [.num .i32]⟩]
  funcs := [⟨0, [], [.globalGet 0, .ret]⟩]
  globals := [⟨⟨.num .i32, true⟩, [.const (.i32 0)]⟩]
  exports := [⟨"get", .func, 0⟩]

def settingModule : Wasm.Module where
  types := [⟨[], [.num .i32]⟩, ⟨[.num .i32], []⟩, ⟨[], []⟩]
  imports := [⟨⟨"env", "watch"⟩, .func 1⟩]
  funcs := [⟨0, [], [.globalGet 1, .ret]⟩, ⟨2, [], [.const (.i32 7), .globalSet 0]⟩]
  tables := [Lower.tableType 1]
  globals := [⟨⟨.num .i32, true⟩, [.const (.i32 0)]⟩, ⟨⟨.num .i32, true⟩, [.const (.i32 0)]⟩]
  exports := [⟨"get", .func, 1⟩, ⟨"set", .func, 2⟩]
  elements := [⟨.active 0 [.const (.i32 0)], .func, [.func 2]⟩]

/-- The function that reads has another index now, and so has the global that it reads. -/
theorem exports_undisturbed_of_setting : ∃ (s t : Session) (m n : Wasm.Module) (i j : Instance),
    Reached Lawful s ∧ s.body = none ∧ Extended s t ∧ t.body = none ∧
    Build.assemble {} s.build = .ok m s.build ∧ Build.assemble {} t.build = .ok n t.build ∧
    m.isValid = true ∧ n.isValid = true ∧
    Wasm.link m s.build.imports [] [] [] = some i ∧ Wasm.link n t.build.imports [] [] [] = some j ∧
    i.exportedFunc? "get" = some 0 ∧ j.exportedFunc? "get" = some 1 ∧
    Build.SameGlobal s.build t.build 0 1 ∧ Build.Undisturbed s.build t.build m n := by
  have lowered : readingBuild.lower none = .ok readingModule := by cbv
  have lowered' : settingBuild.lower none = .ok settingModule := by cbv
  have valid : readingModule.isValid = true := by decide +kernel
  have valid' : settingModule.isValid = true := by decide +kernel
  have done : Build.assemble {} readingBuild = .ok readingModule readingBuild :=
    Build.assemble_of_lower rfl (by cbv) lowered fun _ => valid
  have done' : Build.assemble {} settingBuild = .ok settingModule settingBuild :=
    Build.assemble_of_lower rfl (by cbv) lowered' fun _ => valid'
  obtain ⟨i, linked⟩ := Option.isSome_iff_exists.1
    (show (Wasm.link readingModule readingBuild.imports [] [] []).isSome = true by decide +kernel)
  obtain ⟨j, linked'⟩ := Option.isSome_iff_exists.1
    (show (Wasm.link settingModule settingBuild.imports [] [] []).isSome = true by decide +kernel)
  have undisturbed := exports_undisturbed lawful_readingBuild rfl extended_settingBuild rfl done done'
    valid valid'
  refine ⟨_, _, _, _, i, j, lawful_readingBuild, rfl, extended_settingBuild, rfl, done, done', valid,
    valid', linked, linked', ?_, ?_, ?_, undisturbed⟩
  · rw [Lower.exportedFunc?_of_link lowered linked]
    rfl
  · rw [Lower.exportedFunc?_of_link lowered' linked']
    rfl
  · exact @Build.SameGlobal.mk _ _ 1 0 1 0 (.num .i32) rfl rfl rfl rfl Nat.one_pos

end Session

end WasmBuilder
