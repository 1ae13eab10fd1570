import WasmBuilder.Proofs.Course.References
import WasmBuilder.Proofs.Course.Tiers

/-!
Further declarations.

Functions with and without bodies, and exports under new names, are added behind what a build has. What
is there stays in its place, but for variables that had no shape and get one from a later body.

A node that reads or writes a global carries the shape that the global has for good. Together with what
labels say, and with what calls are made of, this is all that code of a build relies on.
-/

set_option autoImplicit false

namespace WasmBuilder

namespace Build

def AccessesTyped (b : Build) : Prop :=
  ∀ (id : ExprId) (node : Node) (global : Nat) (shape : Shape), b.arena.node id = .ok node →
    node.access? = some (.global, global, shape) → shape ≠ .auto ∧
      ∃ slot, b.globals.slots[global]? = some slot ∧ slot.shape = shape

/-- Labels, accesses to globals and calls in the expressions of a build are true. -/
structure Coherent (b : Build) : Prop where
  matched : b.Matched
  labelled : b.arena.Labelled
  accesses : b.AccessesTyped
  calls : ∀ (id : ExprId) (node : Node), b.arena.node id = .ok node → node.isCall = true →
    ∃ k, b.Calls id k

end Build

namespace Session

variable {s t : Session}

theorem carries_of_made (step : Next Lawful s t) {id : ExprId} {node : Node}
    (made : s.arena.size ≤ id) (here : t.arena.node id = .ok node) :
    node.access? = none ∨ ∃ opening body, t.body = some (opening, body) ∧ body.Carries node := by
  -- only steps of a body and literals make expressions
  have nothing (size : t.arena.size = s.arena.size) : False :=
    absurd (Arena.lt_size_of_node here) (Nat.not_lt.2 (size ▸ made))
  have go {opening : Opening} {body next : Body} {step : Body.Step}
      (busy : s.body = some (opening, body)) (may : s.Lawful step) (leaves : step.Leaves body next)
      (here : next.arena.node id = .ok node) : next.Carries node := by
    rw [arena_of_busy busy] at made
    exact (step.course_of_leaves may.1 leaves).carries made here
  cases step with
  | take busy may done => exact .inr ⟨_, _, rfl, go busy may (.inl ⟨_, done⟩) here⟩
  | stumble busy may failed => exact .inr ⟨_, _, rfl, go busy may (.inr ⟨_, failed⟩) here⟩
  | openFunction idle opened =>
    obtain ⟨-, rfl, id, ⟨⟩⟩ := (Build.quiets_openFunction _ _).of_ok opened
    exact (nothing (congrArg Arena.size (arena_of_idle idle).symm)).elim
  | refuse idle refused =>
    have wanes := (Build.wanes_openFunction _ _).of_error refused
    exact (nothing (by rw [arena_rebuilt idle, arena_of_idle idle, wanes.sheds.size])).elim
  | openGlobals idle opened =>
    cases opened
    exact (nothing (congrArg Arena.size (arena_of_idle idle).symm)).elim
  | @close opening body busy =>
    have arena : (Build.left (opening.close body) s.build).arena = body.arena := by
      cases opening with
      | function draft => exact (Build.close_function draft body s.build).1
      | globals => rfl
    exact (nothing (by rw [arena_of_idle rfl, arena, arena_of_busy busy])).elim
  | abandon busy => exact (nothing (by rw [arena_of_busy busy]; rfl)).elim
  | @literal value shape new b idle done =>
    rw [arena_of_idle idle] at made
    rw [arena_of_idle (s := { s with build := b, handed := .plain new :: s.handed }) idle] at here
    cases shape with
    | num t =>
      cases done
      rw [Arena.node_of_push made here]
      exact .inl rfl
    | none | auto | tuple | record => cases done
  | chore idle chore =>
    have wanes := Build.wanes_chore (b := s.build) chore
    exact (nothing (by rw [arena_rebuilt idle, arena_of_idle idle, wanes.sheds.size])).elim

theorem accessesTyped_of_reached (reached : Reached Lawful s) : s.current.AccessesTyped := by
  induction reached with
  | start => exact fun id node _ _ here => absurd (Arena.lt_size_of_node here) (Nat.not_lt_zero _)
  | @next s t reached step ih =>
    intro id node global shape here accesses
    rw [arena_current] at here
    by_cases old : id < s.arena.size
    · -- only operations give way to others, so the node was there
      obtain ⟨before, there⟩ := Arena.exists_node_of_lt old
      obtain ⟨other, here', folded⟩ := step.folds reached id before there
      cases here.symm.trans here'
      cases folded with
      | constant => cases accesses
      | same =>
        rw [← arena_current] at there
        obtain ⟨known, slot, declared, rfl⟩ := ih id node global shape there accesses
        exact ⟨known, slot, step.link.later.globals.of_known declared known, rfl⟩
    · rcases carries_of_made step (Nat.not_lt.1 old) here with none | ⟨opening, body, busy, carries⟩
      · rw [none] at accesses
        cases accesses
      · rw [current_of_busy busy]
        exact carries .global global shape accesses

theorem coherent_of_reached (reached : Reached Lawful s) : s.current.Coherent where
  matched := matched_of_reached reached
  labelled := arena_current s ▸ (sound_of_reached reached).labelled
  accesses := accessesTyped_of_reached reached
  calls := (tiered_of_reached reached).calls

end Session

namespace Imports

variable {i j : Imports}

def Extends (i j : Imports) : Prop :=
  ∃ more, j.entries = i.entries ++ more ∧ ∀ e ∈ more, ∃ f, e.2 = .func f

theorem Extends.refl (i : Imports) : Extends i i := ⟨[], (List.append_nil _).symm, nofun⟩

theorem Extends.trans {k : Imports} (first : Extends i j) (second : Extends j k) : Extends i k := by
  obtain ⟨more, same, functions⟩ := first
  obtain ⟨others, same', functions'⟩ := second
  refine ⟨more ++ others, by rw [same', same, List.append_assoc], fun e mem => ?_⟩
  rcases List.mem_append.1 mem with old | new
  · exact functions e old
  · exact functions' e new

theorem insertEntry_of_new {key : ImportKey} {item : ImportItem}
    {entries : List (ImportKey × ImportItem)} (new : entries.lookup key = none) :
    insertEntry key item entries = entries ++ [(key, item)] := by
  induction entries with
  | nil => rfl
  | cons e rest ih =>
    rw [lookup_cons] at new
    split at new
    · cases new
    next other => rw [insertEntry, if_neg other, ih new, List.cons_append]

theorem extends_insert {key : ImportKey} (new : i.get? key = none) (f : HostFunction) :
    Extends i (i.insert key (.func f)) := by
  refine ⟨[(key, .func f)], insertEntry_of_new new, fun e mem => ?_⟩
  rw [List.mem_singleton.1 mem]
  exact ⟨f, rfl⟩

end Imports

namespace Build

/-- All that is in a build is in another one, and in its place there. -/
structure Continues (b c : Build) : Prop where
  arena : b.arena.Continues c.arena
  functions : b.functions.toList <+: c.functions.toList
  globals : b.globals.Grows c.globals
  table : b.table.functions <+: c.table.functions
  exports : b.exports <+: c.exports
  memory : c.memory = b.memory

namespace Continues

variable {b c d : Build}

theorem refl (b : Build) : Continues b b :=
  ⟨.refl _, List.prefix_rfl, .refl _, List.prefix_rfl, List.prefix_rfl, rfl⟩

theorem trans (first : Continues b c) (second : Continues c d) : Continues b d where
  arena id node here := second.arena id node (first.arena id node here)
  functions := first.functions.trans second.functions
  globals := first.globals.trans second.globals
  table := first.table.trans second.table
  exports := first.exports.trans second.exports
  memory := second.memory.trans first.memory

theorem function (continues : Continues b c) {k : Nat} {f : Function}
    (here : b.functions[k]? = some f) : c.functions[k]? = some f := by
  rw [← Array.getElem?_toList] at here ⊢
  obtain ⟨more, same⟩ := continues.functions
  rw [← same, List.getElem?_append_left (List.getElem?_eq_some_iff.1 here).1, here]

end Continues

variable {b : Build}

theorem continues_added (f : Function) (kind : CallKind) (params : Bindings) {table : IndirectTable}
    (grown : b.table.functions <+: table.functions) (imports : Imports) (isExported : Bool) :
    b.Continues (b.added f kind params table imports isExported) where
  arena := .refl _
  functions := by
    rw [added, Array.toList_push]
    exact List.prefix_append _ _
  globals := .refl _
  table := grown
  exports := List.prefix_rfl
  memory := rfl

theorem continues_closeFunction {draft : Draft} {body : Body} {k : Nat} {c : Build}
    (closed : closeFunction draft body b = .ok k c) :
    (b.withBody body).Continues c ∧ c.imports = b.imports := by
  rw [closeFunction_run] at closed
  dsimp only at closed
  split at closed
  · split at closed
    next table appended =>
      cases closed
      refine ⟨continues_added _ _ _ ?_ _ _, rfl⟩
      rw [IndirectTable.functions, IndirectTable.functions, IndirectTable.entries_append appended,
        Array.toList_push, List.map_append]
      exact List.prefix_append _ _
    next => cases closed
  · cases closed
    exact ⟨continues_added _ _ _ List.prefix_rfl _ _, rfl⟩

theorem continues_external {decl : ExternalDecl} {host : Signature → HostFunction} {k : Nat}
    {c : Build} (new : b.imports.get? decl.key = none) (done : external decl host b = .ok k c) :
    b.Continues c ∧ b.imports.Extends c.imports := by
  rcases external_cases decl host b with ⟨e, failed⟩ | ⟨id, declared⟩
  · cases failed.symm.trans done
  · cases declared.symm.trans done
    exact ⟨continues_added _ _ _ List.prefix_rfl _ _, Imports.extends_insert new _⟩

theorem continues_exportAs {name : String} {callable : Nat} {did : Bool} {c : Build}
    (done : exportAs name callable b = .ok did c) : b.Continues c ∧ c.imports = b.imports := by
  rw [exportAs_run] at done
  dsimp only at done
  split at done
  · split at done
    · cases done
      exact ⟨{ Continues.refl b with exports := List.prefix_append _ _ }, rfl⟩
    · cases done
      exact ⟨{ Continues.refl b with }, rfl⟩
  · cases done
    exact ⟨.refl b, rfl⟩

end Build

namespace Session

variable {s t u : Session}

/-- A step of further declarations: of functions, which are not given up once they are begun, of
functions of the host under new keys, and of exports under new names. -/
inductive Appends : Session → Session → Prop
  | openFunction {s : Session} {isIndirect : Bool} {decl : FunctionDecl} {draft : Build.Draft}
      {body : Body} {b : Build} (idle : s.body = none)
      (opened : Build.openFunction isIndirect decl s.build = .ok (draft, body) b) :
      Appends s { s with build := b, body := some (.function draft, body) }
  | take {s : Session} {opening : Opening} {body next : Body} {step : Body.Step}
      {handed : Option Operand} (busy : s.body = some (opening, body)) (may : s.Lawful step)
      (done : step.run body = .ok handed next) :
      Appends s { s with body := some (opening, next), handed := handed.toList ++ s.handed }
  | stumble {s : Session} {opening : Opening} {body next : Body} {step : Body.Step}
      {e : BuildError} (busy : s.body = some (opening, body)) (may : s.Lawful step)
      (failed : step.run body = .error e next) :
      Appends s { s with body := some (opening, next) }
  | closeFunction {s : Session} {draft : Build.Draft} {body : Body} {k : Nat} {b : Build}
      (busy : s.body = some (.function draft, body))
      (closed : Build.closeFunction draft body s.build = .ok k b) :
      Appends s { s with build := b, body := none }
  | external {s : Session} {decl : ExternalDecl} {host : Signature → HostFunction} {k : Nat}
      {b : Build} (idle : s.body = none) (new : s.build.imports.get? decl.key = none)
      (done : Build.external decl host s.build = .ok k b) : Appends s { s with build := b }
  | exportAs {s : Session} {name : String} {callable : Nat} {b : Build} (idle : s.body = none)
      (new : ∀ e ∈ s.build.exports, e.1 ≠ name)
      (done : Build.exportAs name callable s.build = .ok true b) : Appends s { s with build := b }

/-- Further declarations are steps of the session. -/
theorem Appends.next (step : Appends s t) : Next Lawful s t := by
  have chore {s : Session} {b : Build} {α : Type} {m : BuildM α} {x : α} (done : m s.build = .ok x b) :
      Build.left (do let _ ← m) s.build = b := by
    rw [Build.left_discard, Build.left, done]
  cases step with
  | openFunction idle opened => exact .openFunction idle opened
  | take busy may done => exact .take busy may done
  | stumble busy may failed => exact .stumble busy may failed
  | closeFunction busy closed =>
    rw [← chore closed]
    exact .close busy
  | @external decl host _ _ idle _ done =>
    rw [← chore done]
    exact .chore idle (.external decl host)
  | @exportAs name callable _ idle _ done =>
    rw [← chore done]
    exact .chore idle (.exportAs name callable)

/-- What was there stays in its place, and no key is taken from the host. -/
theorem Appends.continues (step : Appends s t) :
    s.current.Continues t.current ∧ s.build.imports.Extends t.build.imports := by
  have goes {opening : Opening} {body next : Body} (busy : s.body = some (opening, body))
      (later : body.Later next) (handed : List Operand) :
      s.current.Continues (Session.current ⟨s.build, some (opening, next), handed⟩) := by
    rw [current_of_busy busy]
    exact { Build.Continues.refl (s.build.withBody body) with
      arena := later.continues, globals := later.globals }
  cases step with
  | openFunction idle opened =>
    obtain ⟨-, rfl, id, ⟨⟩⟩ := (Build.quiets_openFunction _ _).of_ok opened
    rw [current_of_idle idle]
    exact ⟨.refl s.build, .refl _⟩
  | take busy may done => exact ⟨goes busy ((Body.Step.later_run _).of_ok done).1 _, .refl _⟩
  | stumble busy may failed => exact ⟨goes busy ((Body.Step.later_run _).of_error failed) _, .refl _⟩
  | closeFunction busy closed =>
    obtain ⟨continues, same⟩ := Build.continues_closeFunction closed
    rw [current_of_busy busy, same]
    exact ⟨continues, .refl _⟩
  | external idle new done =>
    rw [current_of_idle idle, current_rebuilt idle]
    exact Build.continues_external new done
  | exportAs idle new done =>
    obtain ⟨continues, same⟩ := Build.continues_exportAs done
    rw [current_of_idle idle, current_rebuilt idle, same]
    exact ⟨continues, .refl _⟩

def Extended : Session → Session → Prop := Relation.ReflTransGen Appends

theorem Extended.leads (extended : Extended s t) : Leads Lawful s t :=
  extended.lift id fun _ _ => Appends.next

theorem Extended.take (extended : Extended s t) {opening : Opening} {body next : Body}
    (busy : t.body = some (opening, body)) (step : Body.Step) (may : t.Lawful step)
    {handed : Option Operand} (done : step.run body = .ok handed next) :
    Extended s { t with body := some (opening, next), handed := handed.toList ++ t.handed } :=
  extended.tail (.take busy may done)

theorem Extended.continues (extended : Extended s t) :
    s.current.Continues t.current ∧ s.build.imports.Extends t.build.imports := by
  induction extended with
  | refl => exact ⟨.refl _, .refl _⟩
  | tail _ step ih => exact ⟨ih.1.trans step.continues.1, ih.2.trans step.continues.2⟩

end Session

end WasmBuilder
