import WasmBuilder.Proofs.Declarations.Turns

/-!
The lists of a build along whole runs.

Functions, callables, table slots, exports and the callables that wait for their export are kept in
five lists that only their numbers join. The events of a run tell what stands in each of them.
-/

set_option autoImplicit false

namespace WasmBuilder.Build

def declared (events : List Event) : List (Nat × Declaration) :=
  events.filterMap fun
    | .declared callable d => some (callable, d)
    | .failed _ => none

@[simp] theorem declared_append (past now : List Event) :
    declared (past ++ now) = declared past ++ declared now := List.filterMap_append ..

@[simp] theorem declared_singleton (callable : Nat) (d : Declaration) :
    declared [.declared callable d] = [(callable, d)] := rfl

@[simp] theorem declared_failed (e : BuildError) : declared [.failed e] = [] := rfl

namespace Declaration

def isExported : Declaration → Bool
  | function _ decl => decl.isExported
  | external _ => false

/-- A callable is what was declared, under the id that was asked for. -/
inductive Describes : Declaration → Callable → Prop
  | direct {decl : FunctionDecl} {c : Callable} (named : Names decl.id c.id)
      (params : c.params = decl.params) (kind : c.kind = .direct) : Describes (function false decl) c
  | indirect {decl : FunctionDecl} {c : Callable} {slot : Nat} (named : Names decl.id c.id)
      (params : c.params = decl.params) (kind : c.kind = .indirect slot) :
      Describes (function true decl) c
  | external {decl : ExternalDecl} {c : Callable} (named : Names decl.id c.id)
      (params : c.params = decl.params) (result : c.result = decl.result)
      (kind : c.kind = .external) : Describes (external decl) c

theorem Describes.kind_ne {d : Declaration} {c : Callable} (describes : d.Describes c)
    (exported : d.isExported = true) : c.kind ≠ .external := by
  cases describes with
  | direct _ _ kind | indirect _ _ kind => rw [kind]; exact nofun
  | external => cases exported

end Declaration

/-- The lists of a build agree with each other and with the events that led to them. -/
structure Ledger (events : List Event) (b : Build) : Prop where
  matched : b.Matched
  numbered : (declared events).map (·.1) = List.range b.callables.size
  described : ∀ p ∈ declared events, ∃ c, b.callables[p.1]? = some c ∧ p.2.Describes c
  ids : (b.callables.toList.map (·.id)).Nodup
  ascending : b.table.functions.Pairwise (· < ·)
  infos : ∀ (slot : Nat) (e : Nat × IndirectInfo), b.table.entries[slot]? = some e →
    ∃ c, b.callables[e.1]? = some c ∧ e.2 = ⟨slot, c.id, c.params, c.result⟩
  once : (b.exports.map (·.2) ++ b.pending).Nodup
  awaited : ∀ callable, callable ∈ b.exports.map (·.2) ++ b.pending ↔
    ∃ d, (callable, d) ∈ declared events ∧ d.isExported = true

theorem ledger_empty : Ledger [] {} := by
  constructor
  · exact matched_empty
  all_goals simp [declared, IndirectTable.functions]

namespace Ledger

variable {b c : Build} {past now : List Event} (ledger : Ledger past b)

include ledger

theorem lt_size {p : Nat × Declaration} (mem : p ∈ declared past) : p.1 < b.callables.size := by
  have listed : p.1 ∈ (declared past).map (·.1) := List.mem_map_of_mem mem
  rw [ledger.numbered] at listed
  exact List.mem_range.1 listed

theorem size_notMem : b.callables.size ∉ b.exports.map (·.2) ++ b.pending := by
  intro mem
  obtain ⟨d, listed, _⟩ := (ledger.awaited _).1 mem
  exact absurd (ledger.lt_size listed) (Nat.lt_irrefl _)

theorem id_notMem {id : String} (free : b.isTaken id = false) :
    id ∉ b.callables.toList.map (·.id) := by
  intro mem
  obtain ⟨c, listed, rfl⟩ := List.mem_map.1 mem
  obtain ⟨i, here⟩ := Array.mem_iff_getElem?.1 (Array.mem_toList_iff.1 listed)
  obtain ⟨f, there, tells⟩ := ledger.matched.tells i c here
  have taken : b.isTaken c.id = true :=
    Array.any_eq_true'.2 ⟨f, Array.mem_of_getElem? there, decide_eq_true tells.id.symm⟩
  rw [taken] at free
  cases free

theorem steady (matched : c.Matched) (steady : Steady b c) : Ledger past c where
  matched
  numbered := by rw [steady.callables]; exact ledger.numbered
  described := by rw [steady.callables]; exact ledger.described
  ids := by rw [steady.callables]; exact ledger.ids
  ascending := by rw [steady.table]; exact ledger.ascending
  infos := by rw [steady.table, steady.callables]; exact ledger.infos
  once := by rw [steady.exports, steady.pending]; exact ledger.once
  awaited := by rw [steady.exports, steady.pending]; exact ledger.awaited

theorem fail (e : BuildError) : Ledger (past ++ [Event.failed e]) { b with failed := true } := by
  have same : declared (past ++ [Event.failed e]) = declared past := by simp
  have steady := ledger.steady (c := { b with failed := true })
  constructor
  · exact { ledger.matched with }
  all_goals simp only [same]
  exacts [ledger.numbered, ledger.described, ledger.ids, ledger.ascending, ledger.infos, ledger.once,
    ledger.awaited]

/-- A declaration adds the next callable, under an id that is free. -/
theorem declare {d : Declaration} {f : Function} {kind : CallKind} {params : Bindings}
    {table : IndirectTable} {imports : Imports}
    (matched : (b.added f kind params table imports d.isExported).Matched)
    (free : b.isTaken f.id = false)
    (describes : d.Describes ⟨f.id, b.functions.size, kind, params, f.result⟩)
    (ascending : table.functions.Pairwise (· < ·))
    (infos : ∀ (slot : Nat) (e : Nat × IndirectInfo), table.entries[slot]? = some e →
      b.table.entries[slot]? = some e ∨
        e = (b.functions.size, ⟨slot, f.id, params, f.result⟩)) :
    Ledger (past ++ [Event.declared b.callables.size d])
      (b.added f kind params table imports d.isExported) := by
  let new : Callable := ⟨f.id, b.functions.size, kind, params, f.result⟩
  have last : (b.callables.push new)[b.callables.size]? = some new := Array.getElem?_push_size
  have waiting : (b.exports.map (·.2) ++
      if d.isExported then b.callables.size :: b.pending else b.pending).Perm
      ((if d.isExported then [b.callables.size] else []) ++ (b.exports.map (·.2) ++ b.pending)) := by
    split
    · exact List.perm_middle
    · exact .refl _
  -- the fields of the ledger in turn: the new callable stands behind all others
  constructor
  · exact matched
  · simp [added, ledger.numbered, List.range_succ]
  · intro p mem
    rcases List.mem_append.1 (declared_append past _ ▸ mem) with old | isNew
    · obtain ⟨c, here, describes⟩ := ledger.described p old
      exact ⟨c, getElem?_push_of_some here new, describes⟩
    · cases List.mem_singleton.1 isNew
      exact ⟨new, last, describes⟩
  · show ((b.callables.push new).toList.map (·.id)).Nodup
    rw [Array.toList_push, List.map_append]
    apply (List.perm_append_singleton f.id _).nodup_iff.2
    exact List.nodup_cons.2 ⟨ledger.id_notMem free, ledger.ids⟩
  · exact ascending
  · intro slot e here
    rcases infos slot e here with old | rfl
    · obtain ⟨c, there, is⟩ := ledger.infos slot e old
      exact ⟨c, getElem?_push_of_some there new, is⟩
    · exact ⟨new, ledger.matched.size ▸ last, rfl⟩
  · apply waiting.nodup_iff.2
    split
    · exact List.nodup_cons.2 ⟨ledger.size_notMem, ledger.once⟩
    · exact ledger.once
  · intro callable
    refine waiting.mem_iff.trans ?_
    rw [List.mem_append, ledger.awaited, declared_append, declared_singleton]
    constructor
    · rintro (isNew | ⟨d, mem, exported⟩)
      · split at isNew
        next exported =>
          rw [List.mem_singleton.1 isNew]
          exact ⟨d, by simp, exported⟩
        next => cases isNew
      · exact ⟨d, List.mem_append_left _ mem, exported⟩
    · rintro ⟨other, mem, exported⟩
      rcases List.mem_append.1 mem with old | isNew
      · exact .inr ⟨other, old, exported⟩
      · cases List.mem_singleton.1 isNew
        exact .inl (by simp [exported])

theorem ascending_append {id : String} {params : Bindings} {result : Shape} {table : IndirectTable}
    (appended : b.table.append b.functions.size id params result = .ok table) :
    table.functions.Pairwise (· < ·) := by
  have functions : table.functions = b.table.functions ++ [b.functions.size] := by
    simp [IndirectTable.functions, IndirectTable.entries_append appended]
  rw [functions]
  refine List.pairwise_append.2 ⟨ledger.ascending, List.pairwise_singleton _ _, ?_⟩
  intro func listed next isNext
  obtain ⟨e, mem, rfl⟩ := List.mem_map.1 listed
  obtain ⟨slot, here⟩ := Array.mem_iff_getElem?.1 (Array.mem_toList_iff.1 mem)
  obtain ⟨c, declared, _⟩ := ledger.matched.occupied slot e.1 e.2 here
  rw [List.mem_singleton.1 isNext, ← ledger.matched.size]
  exact (Array.getElem?_eq_some_iff.1 declared).1

/-- An export takes a callable out of those that wait. -/
theorem exported (name : String) {callable : Nat} {d : Callable} (awaited : callable ∈ b.pending)
    (here : b.callables[callable]? = some d)
    (matched : { b with
      pending := b.pending.erase callable, exports := b.exports ++ [(name, d.func)] }.Matched) :
    Ledger past { b with
      pending := b.pending.erase callable, exports := b.exports ++ [(name, d.func)] } := by
  obtain ⟨f, there, tells⟩ := ledger.matched.tells callable d here
  have moved : ((b.exports ++ [(name, d.func)]).map (·.2) ++ b.pending.erase callable).Perm
      (b.exports.map (·.2) ++ b.pending) := by
    rw [tells.func, List.map_append, List.append_assoc]
    exact (List.perm_cons_erase awaited).symm.append_left _
  refine { ledger with matched, once := moved.nodup_iff.2 ledger.once, awaited := fun other => ?_ }
  exact moved.mem_iff.trans (ledger.awaited other)

theorem turn (turn : Turn b now c) : Ledger (past ++ now) c := by
  have matched := turn.matched ledger.matched
  cases turn with
  | steady _ steady =>
    rw [List.append_nil]
    exact ledger.steady matched steady
  | fail e => exact ledger.fail e
  | direct draft body named free =>
    exact ledger.declare matched free (.direct named rfl rfl) ledger.ascending
      fun _ _ here => .inl here
  | external decl id host named free =>
    exact ledger.declare matched free (.external named rfl rfl rfl) ledger.ascending
      fun _ _ here => .inl here
  | indirect draft body named free appended =>
    apply ledger.declare matched free (.indirect named rfl rfl) (ledger.ascending_append appended)
    intro slot e here
    rw [IndirectTable.entries_append appended, Array.getElem?_push] at here
    split at here
    next is =>
      cases here
      exact .inr (by rw [is]; rfl)
    next => exact .inl here
  | exported name awaited here =>
    rw [List.append_nil]
    exact ledger.exported name awaited here matched
  | dropped awaited missing =>
    -- every callable that waits for its export was declared
    obtain ⟨d, listed, _⟩ := (ledger.awaited _).1 (List.mem_append_right _ awaited)
    obtain ⟨c, here, _⟩ := ledger.described _ listed
    cases missing.symm.trans here

theorem turns (turns : Turns b now c) : Ledger (past ++ now) c := by
  induction turns with
  | refl =>
    rw [List.append_nil]
    exact ledger
  | tail _ turn ih =>
    rw [← List.append_assoc]
    exact ih.turn turn

theorem exists_exported {e : String × Nat} (mem : e ∈ b.exports) :
    ∃ f, b.functions[e.2]? = some f ∧ f.isImported = false := by
  have listed : e.2 ∈ b.exports.map (·.2) ++ b.pending :=
    List.mem_append_left _ (List.mem_map_of_mem mem)
  obtain ⟨d, isDeclared, forExport⟩ := (ledger.awaited _).1 listed
  obtain ⟨c, here, describes⟩ := ledger.described _ isDeclared
  obtain ⟨f, there, tells⟩ := ledger.matched.tells _ c here
  have notImported := tells.external.not.1 (describes.kind_ne forExport)
  exact ⟨f, there, Bool.eq_false_iff.2 notImported⟩

end Ledger

/-- What the lists of a build say of each other and of the run that led to them. -/
structure Consistent (events : List Event) (b : Build) : Prop where
  size : b.callables.size = b.functions.size
  tells : ∀ (i : Nat) (c : Callable), b.callables[i]? = some c →
    ∃ f, b.functions[i]? = some f ∧ c.Tells i f
  numbered : (declared events).map (·.1) = List.range b.callables.size
  described : ∀ p ∈ declared events, ∃ c, b.callables[p.1]? = some c ∧ p.2.Describes c
  ids : (b.callables.toList.map (·.id)).Nodup
  slots : ∀ slot func : Nat, (∃ info, b.table.entries[slot]? = some (func, info)) ↔
    ∃ c, b.callables[func]? = some c ∧ c.kind = .indirect slot
  ascending : b.table.functions.Pairwise (· < ·)
  infos : ∀ (slot : Nat) (e : Nat × IndirectInfo), b.table.entries[slot]? = some e →
    ∃ c, b.callables[e.1]? = some c ∧ e.2 = ⟨slot, c.id, c.params, c.result⟩
  exported : ∀ e ∈ b.exports, ∃ f, b.functions[e.2]? = some f ∧ f.isImported = false
  once : (b.exports.map (·.2)).Nodup
  pending : ∀ callable, callable ∈ b.pending ↔
    (∃ d, (callable, d) ∈ declared events ∧ d.isExported = true) ∧
      callable ∉ b.exports.map (·.2)

theorem Ledger.consistent {events : List Event} {b : Build} (ledger : Ledger events b) :
    Consistent events b := by
  obtain ⟨exportsOnce, pendingOnce, apart⟩ := List.nodup_append.1 ledger.once
  refine { ledger.matched, ledger with
    slots := fun slot func => ?_
    exported := fun e mem => ledger.exists_exported mem
    once := exportsOnce
    pending := fun callable => ?_ }
  · constructor
    · rintro ⟨info, here⟩
      exact ledger.matched.occupied slot func info here
    · rintro ⟨c, here, kind⟩
      exact ledger.matched.slot func c slot here kind
  · rw [← ledger.awaited, List.mem_append]
    constructor
    · intro waits
      exact ⟨.inr waits, fun exported => apart _ exported _ waits rfl⟩
    · rintro ⟨exported | waits, notExported⟩
      · exact absurd exported notExported
      · exact waits

theorem runAll_append (ops more : List Operation) (b : Build) :
    runAll (ops ++ more) b = runAll more (runAll ops b) := by
  induction ops generalizing b with
  | nil => rfl
  | cons op rest ih => exact ih _

/-- What was there when a library had taken some of its operations is there when it is mounted. -/
theorem later_mount {b : Build} {key : String} (new : b.mounted? key = none)
    (inside rest : List Operation) (outcome : Except BuildError Library) :
    Later (runAll inside b) (left (Operation.mount key (inside ++ rest) outcome).run b) := by
  have built : Later (runAll inside b) (runAll (inside ++ rest) b) := by
    rw [runAll_append]
    exact (turns_runAll rest _).later
  rw [left, mount_run, new]
  cases outcome with
  | error e => exact built.trans (Turn.fail e).later
  | ok library =>
    obtain ⟨c, run, turns⟩ := turns_adopt key library (runAll (inside ++ rest) b)
    dsimp only
    rw [run]
    exact built.trans turns.later

/-- In every run the lists of the build agree with each other and with what was declared, and what is
in them stays as the run goes on, through the operations of libraries too. -/
theorem lists_agree_throughout (ops more : List Operation) :
    Consistent (eventsAll ops {}) (runAll ops {}) ∧
      Later (runAll ops {}) (runAll (ops ++ more) {}) ∧
      ∀ (key : String) (rest : List Operation) (outcome : Except BuildError Library),
        (runAll ops {}).mounted? key = none →
        Later (runAll (ops ++ more) {})
          (left (Operation.mount key (more ++ rest) outcome).run (runAll ops {})) := by
  refine ⟨?_, ?_, ?_⟩
  · exact (ledger_empty.turns (turns_runAll ops {})).consistent
  · rw [runAll_append]
    exact (turns_runAll more _).later
  · intro key rest outcome new
    rw [runAll_append]
    exact later_mount new more rest outcome

end WasmBuilder.Build
