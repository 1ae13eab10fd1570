import WasmBuilder.Proofs.Course.Appends
import WasmBuilder.Proofs.Course.Registry
import WasmBuilder.Wasm.Instance

/-!
What further declarations leave of the registry.

All that a build imports is registered under its key. Functions that are registered under new keys
later take neither the place of it nor that of any memory, so modules find what they found before.
-/

set_option autoImplicit false

namespace WasmBuilder

open Wasm (offeredMemories)

namespace Imports

variable {i j : Imports} {key : ImportKey} {item : ImportItem}

theorem insertEntry_append (entries more : List (ImportKey × ImportItem)) :
    insertEntry key item (entries ++ more) =
      if (entries.lookup key).isSome then insertEntry key item entries ++ more
      else entries ++ insertEntry key item more := by
  induction entries with
  | nil => rfl
  | cons e rest ih =>
    rw [List.cons_append, insertEntry, insertEntry, lookup_cons]
    by_cases here : key = e.1
    · simp [here]
    · simp only [if_neg here, ih]
      split <;> rfl

theorem offeredMemories_append (entries more : List (ImportKey × ImportItem)) :
    offeredMemories ⟨entries ++ more⟩ = offeredMemories ⟨entries⟩ ++ offeredMemories ⟨more⟩ :=
  List.filterMap_append

section
variable {entries : List (ImportKey × ImportItem)} (functions : ∀ e ∈ entries, ∃ f, e.2 = .func f)

include functions

theorem offeredMemories_of_functions : offeredMemories ⟨entries⟩ = [] := by
  refine List.filterMap_eq_nil_iff.2 fun e mem => ?_
  obtain ⟨f, is⟩ := functions e mem
  rw [is]

theorem offeredMemories_insertEntry (limits : MemoryLimits) :
    offeredMemories ⟨insertEntry key (.memory limits) entries⟩ = [(key, limits)] := by
  induction entries with
  | nil => rfl
  | cons e rest ih =>
    have others : ∀ e ∈ rest, ∃ f, e.2 = .func f :=
      fun e mem => functions e (List.mem_cons_of_mem _ mem)
    rw [insertEntry]
    split
    · rw [← List.singleton_append, offeredMemories_append, offeredMemories_of_functions others]
      rfl
    · have first : offeredMemories ⟨[e]⟩ = [] := offeredMemories_of_functions fun e' mem =>
        functions e' (List.mem_singleton.1 mem ▸ List.mem_cons_self)
      rw [← List.singleton_append, offeredMemories_append, ih others, first]
      rfl

end

namespace Extends

variable (extended : Extends i j)

include extended

theorem get?_eq (there : (i.get? key).isSome = true) : j.get? key = i.get? key := by
  obtain ⟨more, same, _⟩ := extended
  obtain ⟨item, found⟩ := Option.isSome_iff_exists.1 there
  rw [get?] at found
  rw [get?, get?, same, List.lookup_append, found, Option.some_or]

theorem offeredMemories_eq : offeredMemories j = offeredMemories i := by
  obtain ⟨more, same, functions⟩ := extended
  have whole := offeredMemories_append i.entries more
  rw [offeredMemories_of_functions functions, List.append_nil, ← same] at whole
  exact whole

theorem offeredMemories_insert (key : ImportKey) (limits : MemoryLimits) :
    offeredMemories (j.insert key (.memory limits)) = offeredMemories (i.insert key (.memory limits)) := by
  obtain ⟨more, same, functions⟩ := extended
  rw [insert, insert, same, insertEntry_append]
  cases found : i.entries.lookup key with
  | some item =>
    rw [Option.isSome_some, if_pos rfl, offeredMemories_append, offeredMemories_of_functions functions,
      List.append_nil]
  | none =>
    rw [Option.isSome_none, if_neg Bool.false_ne_true, offeredMemories_append,
      offeredMemories_insertEntry functions, insertEntry_of_new found, offeredMemories_append]
    rfl

end Extends

end Imports

namespace Build

variable {b c : Build}

structure Registered (b : Build) : Prop where
  functions : ∀ (k : Nat) (f : Function) (key : ImportKey), b.functions[k]? = some f →
    f.kind = .imported key → (b.imports.get? key).isSome = true
  memory : ∀ decl, b.memory = some decl → (b.imports.get? decl.key).isSome = true

theorem SameImports.registered (same : b.SameImports c) (registered : b.Registered) :
    c.Registered := by
  constructor
  · intro k f key here kind
    rw [same.items]
    exact registered.functions k f key (same.functions k f key here kind) kind
  · intro decl is
    rw [same.items]
    exact registered.memory decl (same.memory.symm.trans is)

namespace Registered

variable (registered : b.Registered)

include registered

/-- What is registered stays registered when something else is. -/
theorem insert (key : ImportKey) (item : ImportItem) :
    Registered { b with imports := b.imports.insert key item } := by
  have kept (other : ImportKey) (there : (b.imports.get? other).isSome = true) :
      ((b.imports.insert key item).get? other).isSome = true := by
    rw [Imports.get?_insert]
    split
    · rfl
    · exact there
  exact ⟨fun k f key here kind => kept key (registered.functions k f key here kind),
    fun decl is => kept decl.key (registered.memory decl is)⟩

theorem withMemory (decl : MemoryDecl) : (b.withMemory decl).Registered := by
  have inserted := registered.insert decl.key (.memory ⟨decl.initial, some decl.maximum⟩)
  refine { inserted with memory := ?_ }
  rintro _ ⟨⟩
  rw [Build.withMemory, Imports.get?_insert, if_pos rfl]
  rfl

theorem importing (memory : Option MemoryDecl) : (b.importing memory).Registered := by
  rcases importing_cases b memory with same | ⟨decl, other⟩
  · rwa [same]
  · rw [other]
    exact registered.withMemory decl

theorem external (decl : ExternalDecl) (id : String) (host : Signature → HostFunction) :
    (b.added (externalFunction decl id) .external decl.params b.table
      (b.imports.insert decl.key (.func (host decl.signature))) false).Registered := by
  have inserted := registered.insert decl.key (.func (host decl.signature))
  refine { inserted with functions := fun k f key here kind => ?_ }
  rw [added, Array.getElem?_push] at here
  split at here
  · cases here
    cases kind
    rw [added, Imports.get?_insert, if_pos rfl]
    rfl
  · exact inserted.functions k f key here kind

theorem chore (chore : Chore) : (left chore.run b).Registered := by
  have quiet (quiet : chore.isQuiet = true) : (left chore.run b).Registered :=
    (Quiets.sameImports (left_of_moves (quiets_chore quiet))).registered registered
  cases chore with
  | exportAs | adopt | fail | simplify => exact quiet rfl
  | useMemory decl => exact registered.withMemory decl
  | external decl host =>
    rw [Chore.run, left_discard, left]
    rcases external_cases decl host b with ⟨e, failed⟩ | ⟨id, declared⟩
    · rw [failed]
      exact (Quiet.sameImports .fail).registered registered
    · rw [declared]
      exact registered.external decl id host
  | assemble options =>
    rw [show left (Chore.assemble options).run b = left (Build.assemble options) b from
      left_discard (Build.assemble options) b]
    cases failed : b.failed with
    | true =>
      have same : left (Build.assemble options) b = b := by
        rw [left, assemble_run, failed]
        rfl
      rwa [same]
    | false =>
      have trims := trims_left_assemble options failed
      exact trims.quiets.sameImports.registered (registered.importing options.memory)

end Registered

/-- Where the registry of another build only has more functions, a memory that is imported in both
leaves what was registered in one as it is in the other. -/
theorem imports_importing (extended : b.imports.Extends c.imports) (memory : c.memory = b.memory)
    (wanted : Option MemoryDecl) :
    (∀ key, ((b.importing wanted).imports.get? key).isSome = true →
      (c.importing wanted).imports.get? key = (b.importing wanted).imports.get? key) ∧
    offeredMemories (c.importing wanted).imports = offeredMemories (b.importing wanted).imports := by
  have kept (key : ImportKey) (there : (b.imports.get? key).isSome = true) :
      c.imports.get? key = b.imports.get? key := extended.get?_eq there
  cases wanted with
  | none => exact ⟨kept, extended.offeredMemories_eq⟩
  | some decl =>
    rw [Build.importing, Build.importing, memory]
    split
    · exact ⟨kept, extended.offeredMemories_eq⟩
    · refine ⟨fun key there => ?_, extended.offeredMemories_insert decl.key _⟩
      simp only [Build.withMemory, Imports.get?_insert] at there ⊢
      split
      · rfl
      next other => exact kept key (by rwa [if_neg other] at there)

end Build

namespace Session

variable {permits : Session → Body.Step → Prop} {s t : Session}

theorem registered_of_reached (reached : Reached permits s) : s.build.Registered := by
  induction reached with
  | start => exact ⟨fun k f key here => by simp [fresh] at here, fun decl here => by cases here⟩
  | @next s t reached step ih =>
    by_cases busy : s.body ≠ none ∨ t.body ≠ none
    · exact (step.sameImports reached busy).registered ih
    · cases step with
      | refuse idle refused =>
        exact ((Build.quiets_openFunction _ _).of_error refused).sameImports.registered ih
      | literal idle made => exact ((Build.quiets_literal _ _).of_ok made).1.sameImports.registered ih
      | chore idle chore => exact ih.chore chore
      | openFunction | openGlobals => exact absurd (.inr (Option.some_ne_none _)) busy
      | take | stumble => exact absurd (.inr (Option.some_ne_none _)) busy
      | close is | abandon is => exact absurd (.inl (by rw [is]; exact Option.some_ne_none _)) busy

end Session

end WasmBuilder
