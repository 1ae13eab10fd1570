import WasmBuilder.Proofs.Course.Session

/-!
What a session registers with the host.

Functions of the host and memories are registered under keys, and a key stands for what was registered
last. So what a build imports is what the host has, unless the key was taken by something else later.
-/

set_option autoImplicit false

namespace WasmBuilder

/-- What modules see of an item: the signature of a function, the sizes of a memory. -/
inductive ImportItem.Kind where
  | func (signature : Signature)
  | memory (limits : MemoryLimits)
  deriving DecidableEq

def ImportItem.kind : ImportItem → Kind
  | func f => .func f.signature
  | memory limits => .memory limits

def MemoryDecl.limits (decl : MemoryDecl) : MemoryLimits := ⟨decl.initial, some decl.maximum⟩

abbrev Registrations := List (ImportKey × ImportItem.Kind)

namespace Registrations

def lastMemory? (log : Registrations) : Option (ImportKey × MemoryLimits) :=
  log.findSome? fun e => match e.2 with | .memory limits => some (e.1, limits) | .func _ => none

/-- Nothing of another kind took the key of a function, or of the last memory, later. -/
structure Undisturbed (log : Registrations) : Prop where
  functions : ∀ key signature, (key, .func signature) ∈ log →
    log.lookup key = some (.func signature)
  memory : ∀ key limits, log.lastMemory? = some (key, limits) →
    log.lookup key = some (.memory limits)

end Registrations

namespace Imports

theorem mem_insertEntry {key : ImportKey} {item : ImportItem} {e : ImportKey × ImportItem}
    {entries : List (ImportKey × ImportItem)} (mem : e ∈ insertEntry key item entries) :
    e = (key, item) ∨ e ∈ entries := by
  induction entries with
  | nil => exact .inl (List.mem_singleton.1 mem)
  | cons first rest ih =>
    rw [insertEntry] at mem
    split at mem
    · exact (List.mem_cons.1 mem).imp_right (List.mem_cons_of_mem _)
    · rcases List.mem_cons.1 mem with rfl | later
      · exact .inr List.mem_cons_self
      · exact (ih later).imp_right (List.mem_cons_of_mem _)

theorem nodup_insertEntry {key : ImportKey} {item : ImportItem}
    {entries : List (ImportKey × ImportItem)} (distinct : (entries.map (·.1)).Nodup) :
    ((insertEntry key item entries).map (·.1)).Nodup := by
  induction entries with
  | nil => exact List.nodup_cons.2 ⟨List.not_mem_nil, List.nodup_nil⟩
  | cons first rest ih =>
    obtain ⟨new, distinct⟩ := List.nodup_cons.1 distinct
    rw [insertEntry]
    split
    next same =>
      subst same
      exact List.nodup_cons.2 ⟨new, distinct⟩
    next other =>
      refine List.nodup_cons.2 ⟨?_, ih distinct⟩
      intro mem
      obtain ⟨e, mem, same⟩ := List.mem_map.1 mem
      rcases mem_insertEntry mem with rfl | old
      · exact other same
      · exact new (List.mem_map.2 ⟨e, old, same⟩)

/-- What is listed is what is found, as no key is listed twice. -/
theorem get?_of_mem {imports : Imports} (distinct : (imports.entries.map (·.1)).Nodup)
    {key : ImportKey} {item : ImportItem} (mem : (key, item) ∈ imports.entries) :
    imports.get? key = some item := by
  unfold get?
  generalize imports.entries = entries at distinct mem
  induction entries with
  | nil => cases mem
  | cons first rest ih =>
    obtain ⟨new, distinct⟩ := List.nodup_cons.1 distinct
    rw [lookup_cons]
    rcases List.mem_cons.1 mem with rfl | later
    · exact if_pos rfl
    · have other : key ≠ first.1 := by
        rintro rfl
        exact new (List.mem_map.2 ⟨_, later, rfl⟩)
      rw [if_neg other]
      exact ih distinct later

end Imports

namespace Build

def registersFor (b : Build) : Option MemoryDecl → Registrations
  | none => []
  | some decl => if b.memory = some decl then [] else [(decl.key, .memory decl.limits)]

def Chore.registers (b : Build) : Chore → Registrations
  | external decl host =>
    match Build.external decl host b with
    | .ok _ _ => [(decl.key, .func decl.signature)]
    | .error _ _ => []
  | useMemory decl => [(decl.key, .memory decl.limits)]
  | assemble options => if b.failed then [] else b.registersFor options.memory
  | exportAs .. | adopt .. | fail | simplify => []

/-- Functions of the host have the signatures that they are declared with. -/
def Chore.IsTyped : Chore → Prop
  | external decl host => (host decl.signature).signature = decl.signature
  | _ => True

structure Recorded (b : Build) (log : Registrations) : Prop where
  distinct : (b.imports.entries.map (·.1)).Nodup
  items : ∀ key, (b.imports.get? key).map ImportItem.kind = log.lookup key
  functions : ∀ (k : Nat) (f : Function) (key : ImportKey), b.functions[k]? = some f →
    f.kind = .imported key → (key, .func f.signature) ∈ log
  memory : b.memory.map (fun decl => (decl.key, decl.limits)) = log.lastMemory?

structure SameImports (b c : Build) : Prop where
  items : c.imports = b.imports
  memory : c.memory = b.memory
  functions : ∀ (k : Nat) (f : Function) (key : ImportKey), c.functions[k]? = some f →
    f.kind = .imported key → b.functions[k]? = some f

namespace SameImports

variable {b c d : Build}

theorem refl (b : Build) : SameImports b b := ⟨rfl, rfl, fun _ _ _ here _ => here⟩

theorem trans (first : SameImports b c) (second : SameImports c d) : SameImports b d := by
  constructor
  · exact second.items.trans first.items
  · exact second.memory.trans first.memory
  · intro k f key here kind
    exact first.functions k f key (second.functions k f key here kind) kind

theorem recorded (same : SameImports b c) {log : Registrations} (recorded : b.Recorded log) :
    c.Recorded log := by
  constructor
  · rw [same.items]
    exact recorded.distinct
  · rw [same.items]
    exact recorded.items
  · intro k f key here kind
    exact recorded.functions k f key (same.functions k f key here kind) kind
  · rw [same.memory]
    exact recorded.memory

end SameImports

variable {b c : Build} {log : Registrations}

theorem sameImports_setBody (ref : BodyRef) (body : List ExprId) :
    SameImports b (b.setBody ref body) := by
  cases ref with
  | start => exact { SameImports.refl b with }
  | function i =>
    refine { SameImports.refl b with functions := fun k g key here kind => ?_ }
    -- another body is for functions that have one
    rw [setBody, Array.getElem?_modify] at here
    split at here
    · obtain ⟨f, there, is⟩ := Option.map_eq_some_iff.1 here
      have becomes := becomes_withBody f body
      rw [is] at becomes
      cases becomes with
      | same => exact there
      | trimmed => cases kind
    · exact here

theorem Quiet.sameImports (quiet : Quiet b c) : SameImports b c := by
  cases quiet with
  | fail | startBody | pending | exports | library => exact { SameImports.refl b with }
  | rewrite rewrite =>
    cases rewrite with
    | arena => exact { SameImports.refl b with }
    | setBody ref body => exact sameImports_setBody ref body

theorem Quiets.sameImports (quiets : Quiets b c) : SameImports b c := by
  induction quiets with
  | refl => exact .refl b
  | tail _ quiet ih => exact ih.trans quiet.sameImports

theorem sameImports_added {f : Function} (defined : f.isImported = false) (kind : CallKind)
    (params : Bindings) (table : IndirectTable) (isExported : Bool) :
    SameImports b (b.added f kind params table b.imports isExported) := by
  refine { SameImports.refl b with functions := fun k g key here imported => ?_ }
  rw [added, Array.getElem?_push] at here
  split at here
  · cases here
    rw [Function.isImported, imported] at defined
    cases defined
  · exact here

theorem items_insert (items : ∀ key, (b.imports.get? key).map ImportItem.kind = log.lookup key)
    (key : ImportKey) (item : ImportItem) (k : ImportKey) :
    ((b.imports.insert key item).get? k).map ImportItem.kind =
      ((key, item.kind) :: log).lookup k := by
  rw [Imports.get?_insert]
  by_cases is : k = key
  · rw [if_pos is, is]
    simp
  · have apart : (k == key) = false := beq_eq_false_iff_ne.2 is
    rw [if_neg is, items]
    simp only [List.lookup_cons, apart]

namespace Recorded

variable (recorded : b.Recorded log)

include recorded

theorem withMemory (decl : MemoryDecl) :
    (b.withMemory decl).Recorded ((decl.key, .memory decl.limits) :: log) := by
  constructor
  · exact Imports.nodup_insertEntry recorded.distinct
  · exact items_insert recorded.items decl.key (.memory decl.limits)
  · intro k f key here kind
    exact List.mem_cons_of_mem _ (recorded.functions k f key here kind)
  · rfl

theorem external {decl : ExternalDecl} {host : Signature → HostFunction}
    (typed : (host decl.signature).signature = decl.signature) (id : String) :
    (b.added (externalFunction decl id) .external decl.params b.table
      (b.imports.insert decl.key (.func (host decl.signature))) false).Recorded
      ((decl.key, .func decl.signature) :: log) := by
  constructor
  · exact Imports.nodup_insertEntry recorded.distinct
  · intro key
    have items := items_insert recorded.items decl.key (.func (host decl.signature)) key
    rwa [ImportItem.kind, typed] at items
  · intro k f key here kind
    rw [added, Array.getElem?_push] at here
    split at here
    · cases here
      cases kind
      have same : (externalFunction decl id).signature = decl.signature := by
        simp [externalFunction, Function.signature, ExternalDecl.signature, Bindings.flatten,
          List.flatMap_map]
      rw [same]
      exact List.mem_cons_self
    · exact List.mem_cons_of_mem _ (recorded.functions k f key here kind)
  · exact recorded.memory

theorem importing (memory : Option MemoryDecl) :
    (b.importing memory).Recorded (b.registersFor memory ++ log) := by
  cases memory with
  | none => exact recorded
  | some decl =>
    by_cases same : b.memory = some decl
    · rw [Build.importing, if_pos same, registersFor, if_pos same]
      exact recorded
    · rw [Build.importing, if_neg same, registersFor, if_neg same]
      exact recorded.withMemory decl

/-- The host has each function that is imported, with the signature that it is imported with. -/
theorem exists_host (undisturbed : log.Undisturbed) {k : Nat} {f : Function} {key : ImportKey}
    (here : b.functions[k]? = some f) (kind : f.kind = .imported key) :
    ∃ host, b.imports.get? key = some (.func host) ∧ host.signature = f.signature := by
  have kept := undisturbed.functions key f.signature (recorded.functions k f key here kind)
  obtain ⟨item, found, is⟩ := Option.map_eq_some_iff.1 ((recorded.items key).trans kept)
  cases item with
  | func host => exact ⟨host, found, ImportItem.Kind.func.inj is⟩
  | memory => cases is

theorem get?_memory (undisturbed : log.Undisturbed) {decl : MemoryDecl}
    (is : b.memory = some decl) : b.imports.get? decl.key = some (.memory decl.limits) := by
  have last := recorded.memory
  rw [is] at last
  have kept := undisturbed.memory decl.key decl.limits last.symm
  obtain ⟨item, found, is⟩ := Option.map_eq_some_iff.1 ((recorded.items decl.key).trans kept)
  cases item with
  | func => cases is
  | memory limits => rw [found, ImportItem.Kind.memory.inj is]

theorem chore {chore : Chore} (typed : chore.IsTyped) :
    (left chore.run b).Recorded (chore.registers b ++ log) := by
  have quiet (quiet : chore.isQuiet = true) : (left chore.run b).Recorded log :=
    (Quiets.sameImports (left_of_moves (quiets_chore quiet))).recorded recorded
  cases chore with
  | exportAs | adopt | fail | simplify => exact quiet rfl
  | useMemory decl => exact recorded.withMemory decl
  | external decl host =>
    rcases external_cases decl host b with ⟨e, failed⟩ | ⟨id, declared⟩
    · rw [Chore.run, left_discard, left, Chore.registers, failed]
      exact (Quiet.sameImports .fail).recorded recorded
    · rw [Chore.run, left_discard, left, Chore.registers, declared]
      exact recorded.external typed id
  | assemble options =>
    rw [show left (Chore.assemble options).run b = left (Build.assemble options) b from
      left_discard (Build.assemble options) b, Chore.registers]
    cases failed : b.failed with
    | true =>
      have same : left (Build.assemble options) b = b := by
        rw [left, assemble_run, failed]
        rfl
      rw [same]
      exact recorded
    | false =>
      have trims := trims_left_assemble options failed
      exact trims.quiets.sameImports.recorded (recorded.importing options.memory)

end Recorded

end Build

namespace Session

variable {permits : Session → Body.Step → Prop} {s t : Session} {log : Registrations}

/-- Sessions that were reached with these registrations, the latest first. -/
inductive History (permits : Session → Body.Step → Prop) : Session → Registrations → Prop
  | start : History permits fresh []
  /-- A body is opened, goes on, or is done. -/
  | body {s t : Session} {log : Registrations} (history : History permits s log)
      (step : Next permits s t) (busy : s.body ≠ none ∨ t.body ≠ none) : History permits t log
  | refuse {s : Session} {log : Registrations} {isIndirect : Bool} {decl : FunctionDecl}
      {e : BuildError} {b : Build} (history : History permits s log) (idle : s.body = none)
      (refused : Build.openFunction isIndirect decl s.build = .error e b) :
      History permits { s with build := b } log
  | literal {s : Session} {log : Registrations} {value : Number} {shape : Shape} {id : ExprId}
      {b : Build} (history : History permits s log) (idle : s.body = none)
      (made : Build.literal value shape s.build = .ok id b) :
      History permits { s with build := b, handed := .plain id :: s.handed } log
  | chore {s : Session} {log : Registrations} (history : History permits s log)
      (idle : s.body = none) (chore : Build.Chore) (typed : chore.IsTyped) :
      History permits { s with build := Build.left chore.run s.build }
        (chore.registers s.build ++ log)

theorem History.reached (history : History permits s log) : Reached permits s := by
  induction history with
  | start => exact .start
  | body _ step _ reached => exact reached.next step
  | refuse _ idle refused reached => exact reached.next (.refuse idle refused)
  | literal _ idle made reached => exact reached.next (.literal idle made)
  | chore _ idle chore _ reached => exact reached.next (.chore idle chore)

/-- A function of the host is registered where its id is free. -/
theorem History.external (history : History permits s log) (idle : s.body = none)
    (decl : ExternalDecl) {id : String} (named : decl.id = some id)
    (free : s.build.isTaken id = false) (host : Signature → HostFunction)
    (typed : (host decl.signature).signature = decl.signature) :
    History permits
      { s with
        build := s.build.added (Build.externalFunction decl id) .external decl.params s.build.table
          (s.build.imports.insert decl.key (.func (host decl.signature))) false }
      ((decl.key, .func decl.signature) :: log) := by
  have next := history.chore idle (.external decl host) typed
  rwa [Build.left_external_of_free named free, Build.Chore.registers,
    Build.external_of_free named free] at next

/-- A body has nothing to do with imports, until it is done and after. -/
theorem Next.sameImports (step : Next permits s t) (reached : Reached permits s)
    (busy : s.body ≠ none ∨ t.body ≠ none) : s.build.SameImports t.build := by
  cases step with
  | openFunction idle opened =>
    obtain ⟨-, rfl, -⟩ := (Build.quiets_openFunction _ _).of_ok opened
    exact .refl _
  | openGlobals idle opened =>
    cases opened
    exact { Build.SameImports.refl s.build with }
  | take | stumble => exact .refl _
  | refuse idle | literal idle | chore idle => simp [idle] at busy
  | @abandon _ body e before =>
    have same := (Build.quiets_abandon (b := s.build) body e).sameImports
    exact { same with }
  | @close opening body before =>
    have matched := matched_of_reached reached
    rw [current_of_busy before] at matched
    have same : s.build.Matched := { matched with }
    cases opening with
    | globals => exact { Build.SameImports.refl s.build with }
    | function draft =>
      obtain ⟨kind, table, isExported, run⟩ := Build.closeFunction_eq_ok same draft body
      show s.build.SameImports (Build.left (do let _ ← Build.closeFunction draft body) s.build)
      rw [Build.left_discard, Build.left, run]
      exact { Build.sameImports_added (b := s.build.withBody body) rfl kind draft.decl.params table
        isExported with }

/-- Registrations tell what the host has and what is imported, throughout a session. -/
theorem recorded_of_history (history : History permits s log) : s.build.Recorded log := by
  induction history with
  | start =>
    constructor
    · exact List.nodup_nil
    · exact fun _ => rfl
    · intro k f key here
      simp [fresh] at here
    · rfl
  | body history step busy recorded =>
    exact (step.sameImports history.reached busy).recorded recorded
  | refuse _ idle refused recorded =>
    exact ((Build.quiets_openFunction _ _).of_error refused).sameImports.recorded recorded
  | literal _ idle made recorded =>
    exact ((Build.quiets_literal _ _).of_ok made).1.sameImports.recorded recorded
  | chore _ idle chore typed recorded => exact recorded.chore typed

end Session

end WasmBuilder
