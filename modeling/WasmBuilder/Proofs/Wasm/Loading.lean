import WasmBuilder.Proofs.Wasm.Linking

/-!
When a module can be loaded.

Loading fails before the start function runs only where a memory cannot be made, where the host lacks
an import, or where something of the module does not fit in its place.
-/

set_option autoImplicit false

namespace WasmBuilder.Wasm

/-- The host has what an import asks for: a function of its type, or a memory of its sizes. -/
inductive Provided (host : Imports) (types : List FuncType) : Import → Prop
  | func {key : ImportKey} {t : Nat} {f : HostFunction} (here : host.get? key = some (.func f))
      (typed : types[t]? = some f.signature.funcType) : Provided host types ⟨key, .func t⟩
  | memory {key : ImportKey} {limits : MemoryLimits} (here : host.get? key = some (.memory limits)) :
      Provided host types ⟨key, .memory (.ofLimits ⟨limits.initial, limits.maximum⟩)⟩

def offeredNumbers (host : Imports) : List (ImportKey × Nat) :=
  (offeredMemories host).zipIdx.map fun p => (p.1.1, p.2)

def freshMemories (host : Imports) : List Memory := (offeredMemories host).map fun o => .ofLimits o.2

theorem createMemories_eq_ok {offers : List (ImportKey × MemoryLimits)}
    (all : ∀ o ∈ offers, creatable o.2 = true) :
    createMemories offers = .ok (offers.map fun o => .ofLimits o.2) := by
  induction offers with
  | nil => rfl
  | cons o rest ih =>
    have first := all o List.mem_cons_self
    have others := ih fun o mem => all o (List.mem_cons_of_mem _ mem)
    rw [createMemories, first, others]
    rfl

theorem lookup_offeredMemories {host : Imports} {key : ImportKey} {limits : MemoryLimits}
    (here : host.get? key = some (.memory limits)) :
    (offeredMemories host).lookup key = some limits := by
  unfold Imports.get? at here
  unfold offeredMemories
  generalize host.entries = entries at here
  induction entries with
  | nil => cases here
  | cons e rest ih =>
    obtain ⟨k, item⟩ := e
    rw [Imports.lookup_cons] at here
    split at here
    next same =>
      cases same
      cases here
      simp
    next other =>
      have apart : (key == k) = false := beq_eq_false_iff_ne.2 other
      cases item with
      | func => simpa using ih here
      | memory => simpa [List.lookup_cons, apart] using ih here

theorem lookup_zipIdx {offers : List (ImportKey × MemoryLimits)} {key : ImportKey}
    {limits : MemoryLimits} (here : offers.lookup key = some limits) (start : Nat) :
    ∃ n, ((offers.zipIdx start).map fun p => (p.1.1, p.2)).lookup key = some (start + n) ∧
      offers[n]? = some (key, limits) := by
  induction offers generalizing start with
  | nil => cases here
  | cons o rest ih =>
    obtain ⟨k, l⟩ := o
    by_cases same : key = k
    · subst same
      have first : l = limits := by simpa [List.lookup_cons] using here
      exact ⟨0, by simp, by rw [first]; rfl⟩
    · have apart : (key == k) = false := beq_eq_false_iff_ne.2 same
      simp only [List.lookup_cons, apart] at here
      obtain ⟨n, found, there⟩ := ih here (start + 1)
      refine ⟨n + 1, ?_, there⟩
      simp only [List.zipIdx_cons, List.map_cons, List.lookup_cons, apart, found]
      congr 1
      omega

theorem satisfies_ofLimits (l : MemoryLimits) :
    (Memory.ofLimits l).satisfies (.ofLimits ⟨l.initial, l.maximum⟩) = true := by
  obtain ⟨initial, maximum⟩ := l
  cases maximum <;>
    simp [Memory.satisfies, Memory.ofLimits, Memory.ofType, MemoryType.ofLimits]

theorem exists_resolveImports {host : Imports} {types : List FuncType} {imports : List Import}
    (provided : ∀ i ∈ imports, Provided host types i) :
    ∃ fs ms, resolveImports host types (offeredNumbers host) (freshMemories host).toArray imports =
      some (fs, ms) := by
  induction imports with
  | nil => exact ⟨[], [], rfl⟩
  | cons i rest ih =>
    obtain ⟨fs, ms, others⟩ := ih fun j mem => provided j (List.mem_cons_of_mem _ mem)
    cases provided i List.mem_cons_self with
    | @func key t f here typed =>
      have found : resolveFunc host types key t = some (.host key f) := by
        simp [resolveFunc, here, typed]
      refine ⟨.host key f :: fs, ms, ?_⟩
      simp only [resolveImports, found, others]
      rfl
    | @memory key limits here =>
      have ⟨n, number, there⟩ := lookup_zipIdx (lookup_offeredMemories here) 0
      rw [Nat.zero_add] at number
      have made : (freshMemories host).toArray[n]? = some (.ofLimits limits) := by
        rw [List.getElem?_toArray, freshMemories, List.getElem?_map, there]
        rfl
      have number : (offeredNumbers host).lookup key = some n := number
      refine ⟨fs, n :: ms, ?_⟩
      simp only [resolveImports, number, made, others, bind, Option.bind, satisfies_ofLimits]
      rfl

/-- What makes a module fit in its place, apart from what it imports. -/
structure Module.Fits (m : Module) : Prop where
  memories : m.memories = []
  tables : ∀ t ∈ m.tables, t.isCreatable = true
  globals : ∀ g ∈ m.globals, ∃ d, constantValue? g.init = some d
  elements : ∀ e ∈ m.elements, ∃ ds, e.available? = some ds
  places : ∀ s : Store, s.tables = (m.tables.map Table.ofType).toArray →
    ∃ t, placeElements s m.elements = some t
  data : m.data = []

theorem exists_type {m : Module} {c : Context} (context : m.context? = some c) {f : Func}
    (mem : f ∈ m.funcs) : ∃ t, m.types[f.typeIndex]? = some t := by
  obtain ⟨types, listed, _⟩ := Option.bind_eq_some_iff.1 context
  have index : f.typeIndex ∈ m.importedFuncs ++ m.funcs.map (·.typeIndex) :=
    List.mem_append_right _ (List.mem_map.2 ⟨f, mem, rfl⟩)
  obtain ⟨n, here⟩ := List.mem_iff_getElem?.1 index
  obtain ⟨t, _, found⟩ := exists_getElem?_of_forall₂ (mapM_eq_some_iff.1 listed) here
  exact ⟨t, found⟩

theorem exists_link {m : Module} {c : Context} {host : Imports} (context : m.context? = some c)
    (fits : m.Fits) (provided : ∀ i ∈ m.imports, Provided host m.types i)
    (journal : List HostCall) :
    ∃ i, link m host (offeredNumbers host) (freshMemories host) journal = some i := by
  obtain ⟨fs, ms, resolved⟩ := exists_resolveImports provided
  have tables : m.tables.all TableType.isCreatable = true := List.all_eq_true.2 fits.tables
  obtain ⟨code, coded⟩ : ∃ code, (m.funcs.mapM fun f => m.types[f.typeIndex]?.bind fun t =>
      some (FuncInstance.code t f.locals f.body)) = some code := by
    apply exists_mapM_eq_some
    intro f mem
    obtain ⟨t, found⟩ := exists_type context mem
    exact ⟨.code t f.locals f.body, by rw [found]; rfl⟩
  obtain ⟨globals, valued⟩ := exists_mapM_eq_some fits.globals
  obtain ⟨elements, available⟩ := exists_mapM_eq_some fits.elements
  obtain ⟨store, placed⟩ := fits.places
    { globals := globals.toArray
      memories := (freshMemories host).toArray
      tables := (m.tables.map Table.ofType).toArray
      elements := elements.toArray
      journal } rfl
  simp only [link, context, resolved, fits.memories, tables, coded, valued, available, fits.data,
    Option.bind_eq_bind, Option.bind_some, Option.pure_def, List.all_nil, Bool.and_self,
    Bool.not_true, Bool.false_eq_true, if_false, List.map_nil, List.append_nil, placed, placeData]
  exact ⟨_, rfl⟩

/-- What is left of loading once an instance is there: its start function runs. -/
def Instance.started (i : Instance) (bounds : Bounds) : Option Nat → HostM Instance
  | none => return i
  | some f =>
    match i.invoke bounds f [] with
    | .done _ store => do
      set store.journal
      return { i with store }
    | .trap _ store => do
      set store.journal
      throw (.failed .notInstantiable)
    | .exhausted => throw (.failed .notInstantiable)

theorem stores_of_isValid {m : Module} (valid : m.isValid = true) :
    (∀ t ∈ m.allTables, t.isValid = true) ∧ ∀ t ∈ m.allMemories, t.isValid = true := by
  rw [Module.isValid] at valid
  split at valid
  · cases valid
  · simp only [Bool.and_eq_true, List.all_eq_true] at valid
    obtain ⟨⟨⟨⟨⟨⟨⟨⟨⟨⟨⟨-, tables⟩, -⟩, memories⟩, -⟩, -⟩, -⟩, -⟩, -⟩, -⟩, -⟩, -⟩ := valid
    exact ⟨tables, memories⟩

/-- An instance is made, and only the start function is left to run. -/
structure Ready (m : Module) (host : Imports) (journal : List HostCall) (i : Instance) : Prop where
  created : createMemories (offeredMemories host) = .ok (freshMemories host)
  linked : link m host (offeredNumbers host) (freshMemories host) journal = some i
  instantiates : ∀ bounds, instantiate m host bounds journal = i.started bounds m.start journal

theorem instantiate_of_created {m : Module} {host : Imports} {made : List Memory}
    (created : createMemories (offeredMemories host) = .ok made) (bounds : Bounds)
    (journal : List HostCall) :
    instantiate m host bounds journal =
      match link m host (offeredNumbers host) made journal with
      | none => .error (.failed .notInstantiable) journal
      | some i => i.started bounds m.start journal := by
  have numbered : (offeredMemories host).zipIdx.map (fun p => (p.1.1, p.2)) = offeredNumbers host :=
    rfl
  have noted : (get : HostM _) journal = .ok journal journal := rfl
  simp only [instantiate, created, numbered, bind, EStateM.bind, noted]
  cases link m host (offeredNumbers host) made journal <;> rfl

theorem load_of_decode {bytes : List UInt8} {m : Module} (read : Module.decode bytes = some m)
    (valid : m.isValid = true) (host : Imports) (bounds : Bounds) :
    load bytes host bounds = instantiate m host bounds := by
  simp only [load, read, valid]
  rfl

/-- A valid module that fits is ready where the host has its imports and all memories can be
made. -/
theorem exists_ready {m : Module} {host : Imports} (valid : m.isValid = true) (fits : m.Fits)
    (provided : ∀ i ∈ m.imports, Provided host m.types i)
    (all : ∀ o ∈ offeredMemories host, creatable o.2 = true) (journal : List HostCall) :
    ∃ i, Ready m host journal i := by
  obtain ⟨c, context⟩ : ∃ c, m.context? = some c := by
    rw [Module.isValid] at valid
    split at valid
    · cases valid
    next c context => exact ⟨c, context⟩
  obtain ⟨i, linked⟩ := exists_link context fits provided journal
  have created := createMemories_eq_ok all
  refine ⟨i, created, linked, fun bounds => ?_⟩
  rw [instantiate_of_created created, ← freshMemories, linked]

end WasmBuilder.Wasm
