import WasmBuilder.Proofs.Course.Session

/-!
Variables are bound once and for all.

A name means its last declaration, a slot takes its shape from the first value that is stored in it,
and from then on all that has to do with the slot agrees on the shape: reads and writes that follow,
the nodes they make, and the places that variables get when the build is compiled.
-/

set_option autoImplicit false

namespace WasmBuilder

namespace Body

/-- A name is read from the slot that it means, if this has a shape. -/
structure Reads (b : Body) (name : String) : Prop where
  known : ∀ {storage : Storage} {index : Nat} {slot : Slot}, b.Means name storage index slot →
    slot.shape ≠ .auto → read name b = .ok (.ofShape b.arena.size slot.shape)
      { b with arena := b.arena.push (readNode storage index slot.shape) (some slot.shape) }
  fails_iff : ∀ {e : BuildError} {c : Body}, read name b = .error e c ↔
    e = .unknownVariable name ∧ c = b ∧ (b.Unbound name ∨
      ∃ storage index slot, b.Means name storage index slot ∧ slot.shape = .auto)

theorem reads (b : Body) (name : String) : b.Reads name where
  known := read_of_known
  fails_iff := read_eq_error_iff

/-- A write goes where `Binds` tells, from where its name is read afterwards. One that fails changes
nothing. -/
structure Writes (b : Body) (name : String) (value : ExprId) : Prop where
  done_iff : ∀ {id : ExprId} {c : Body}, write name value b = .ok id c ↔
    ∃ storage index shape d, b.Binds name value storage index shape d ∧ id = d.arena.size ∧
      c = { d with arena := d.arena.push (writeNode storage index shape value) (some .none) }
  accepted_iff : ∀ {storage : Storage} {index : Nat} {slot : Slot}, b.Means name storage index slot →
    slot.shape ≠ .auto → ((∃ id c, write name value b = .ok id c) ↔ b.Admits slot.shape value)
  rejected : ∀ {e : BuildError} {c : Body}, write name value b = .error e c → c = b
  reads_back : ∀ {id : ExprId} {c : Body}, write name value b = .ok id c →
    ∃ storage index shape, c.arena.node id = .ok (writeNode storage index shape value) ∧
      read name c = .ok (.ofShape c.arena.size shape)
        { c with arena := c.arena.push (readNode storage index shape) (some shape) }

theorem writes (b : Body) (name : String) (value : ExprId) : b.Writes name value where
  done_iff := write_eq_ok_iff
  accepted_iff means known := by
    constructor
    · rintro ⟨id, c, done⟩
      obtain ⟨_, _, _, _, binds, _⟩ := write_eq_ok_iff.1 done
      cases binds with
      | typed means' _ admits =>
        obtain ⟨-, -, rfl⟩ := means.unique means'
        exact admits
      | first means' isOpen =>
        obtain ⟨-, -, rfl⟩ := means.unique means'
        exact absurd isOpen known
      | new unbound => exact absurd unbound means.not_unbound
    · intro admits
      exact ⟨_, _, write_eq_ok_iff.2 ⟨_, _, _, _, .typed means known admits, rfl, rfl⟩⟩
  rejected := write_error
  reads_back := read_of_write

/-- On the way from one body to another a write stored a value in an open slot, which took its
shape from the value. -/
structure Types (b c : Body) (storage : Storage) (index : Nat) (before after : Slot) : Prop where
  wasOpen : before.shape = .auto
  stored : ∃ d e name value id place, Course b d ∧ write name value d = .ok id e ∧ Course e c ∧
    d.scope place = d.scope storage ∧ d.Means name place index before ∧
    d.arena.settle value = .ok after.shape

theorem types_of_changed {b c : Body} {step : Step} (leaves : step.Leaves b c) {storage : Storage}
    {index : Nat} {before after : Slot} (here : (b.scope storage).slots[index]? = some before)
    (there : (c.scope storage).slots[index]? = some after) (changed : after ≠ before) :
    b.Types c storage index before after := by
  constructor
  · by_contra known
    have kept := ((step.later_of_leaves leaves).scope storage).of_known here known
    exact changed (Option.some.inj (there.symm.trans kept))
  · cases raw : step.isRaw with
    | false => exact (step.course_of_leaves raw leaves).settled_of_changed here there changed
    | true =>
      -- a raw step has nothing to do with variables
      cases step with
      | raw node shape =>
        rcases leaves with ⟨_, done⟩ | ⟨_, failed⟩
        · cases done
          have same : ({ b with arena := b.arena.push node (some shape) } : Body).scope storage =
              b.scope storage := by cases storage <;> rfl
          rw [same, here] at there
          exact absurd (Option.some.inj there).symm changed
        · cases failed
      | read | write | assign | field | giveResult | exec | block | call | literal | tuple | record
      | binary | unary | choose | loop | load | store | memorySize | memoryGrow => cases raw

end Body

def Opening.AddsOwn : Opening → Body → Body → Prop
  | .function _, body, next => next.globals.size = body.globals.size
  | .globals, _, next => next.locals.size = 0

theorem Opening.Suits.addsOwn {opening : Opening} {body next : Body} (suits : opening.Suits body)
    (later : body.Later next) : opening.AddsOwn body next := by
  cases opening with
  | function => exact later.ownGlobals (by rw [show body.fresh = .local from suits]; exact nofun)
  | globals => exact (suits.later later).2

namespace Build

def localShapes (b : Build) (func : Nat) : List Shape :=
  match b.functions[func]? with
  | some ⟨_, _, _, .defined scope _⟩ => scope.shapes
  | _ => []

theorem Later.localShapes {b c : Build} (later : b.Later c) {func : Nat} {f : Function}
    (here : b.functions[func]? = some f) {scope : Scope} {body : List ExprId}
    (kind : f.kind = .defined scope body) : c.localShapes func = scope.shapes := by
  have ⟨g, there, becomes⟩ := later.functions func f here
  have ⟨kept, same⟩ := becomes.defined kind
  obtain ⟨id, params, result, kind⟩ := g
  cases same
  simp only [Build.localShapes, there]

end Build

namespace Session

variable {permits : Session → Body.Step → Prop} {s t u : Session}

/-- A global that changes in a step of a session is typed by a write of the open body. -/
theorem types_of_changed (step : Next permits t u) {index : Nat} {before after : Slot}
    (here : t.current.globals.slots[index]? = some before)
    (there : u.current.globals.slots[index]? = some after) (changed : after ≠ before) :
    ∃ opening body next, t.body = some (opening, body) ∧ u.body = some (opening, next) ∧
      body.Types next .global index before after := by
  cases step.link with
  | @body opening body next busy still same step leaves =>
    rw [current_of_busy busy] at here
    rw [current_of_busy still] at there
    exact ⟨opening, body, next, busy, still, Body.types_of_changed leaves here there changed⟩
  | globals idle opened =>
    rw [current_of_idle idle] at here
    rw [opened, Scope.slots_declareAll here] at there
    exact absurd (Option.some.inj there).symm changed
  | edits course =>
    rw [course.globals_eq, here] at there
    exact absurd (Option.some.inj there).symm changed

theorem carried_global {opening : Opening} {next : Body} (busy : s.body = some (opening, next))
    {id index : Nat} {node : Node} {shape : Shape} (made : next.arena.node id = .ok node)
    (carries : next.Carries node) (accesses : node.access? = some (.global, index, shape))
    (leads : Leads permits s t) :
    t.current.arena.node id = .ok node ∧ t.current.globals.shapes[index]? = some shape := by
  have later := leads.later
  rw [current_of_busy busy] at later
  have ⟨known, slot, here, takes⟩ := carries _ _ _ accesses
  constructor
  · exact later.lasts.fixed id node made (Node.isFixed_of_access? (by rw [accesses]; exact nofun))
  · rw [← takes]
    exact Scope.shapes_of_slot (later.globals.of_known here (takes ▸ known))

/-- A node that accesses a local carries the shape that the local has when the function is done and
from then on. -/
theorem carried_local (reached : Reached permits s) {draft : Build.Draft} {next : Body}
    (busy : s.body = some (.function draft, next)) {id index : Nat} {node : Node} {shape : Shape}
    (made : next.arena.node id = .ok node) (carries : next.Carries node)
    (accesses : node.access? = some (.local, index, shape)) (works : Works permits s t)
    {done : Body} (still : t.body = some (.function draft, done)) {func : Nat} {b : Build}
    (closed : Build.closeFunction draft done t.build = .ok func b) {handed : List Operand}
    (leads : Leads permits ⟨b, none, handed⟩ u) :
    u.current.arena.node id = .ok node ∧ (u.current.localShapes func)[index]? = some shape := by
  have ⟨done', busy', went, _⟩ := works.later busy
  cases still.symm.trans busy'
  have matched := matched_of_reached (reached.leads works.leads)
  rw [current_of_busy still] at matched
  have same : t.build.Matched := { matched with }
  obtain ⟨kind, table, isExported, run⟩ := Build.closeFunction_eq_ok same draft done
  cases closed.symm.trans run
  have later := leads.later
  rw [current_of_idle rfl] at later
  have ⟨known, slot, here, takes⟩ := went.carries carries _ _ _ accesses
  constructor
  · apply later.lasts.fixed id node (went.continues id node made)
    exact Node.isFixed_of_access? (by rw [accesses]; exact nofun)
  · have there : (t.build.functions.push (draft.function done))[t.build.functions.size]? =
        some (draft.function done) := Array.getElem?_push_size
    rw [later.localShapes there rfl, ← takes]
    exact Scope.shapes_of_slot here

/-- What is true of the variables of an open body, and of all that comes of it. -/
structure BindsOnce (permits : Session → Body.Step → Prop) (s : Session) (opening : Opening)
    (body : Body) : Prop where
  reads : ∀ name, body.Reads name
  writes : ∀ name value, body.Writes name value
  /-- What any step does to the variables of the body. -/
  steps : ∀ (step : Body.Step) (next : Body), step.Leaves body next →
    body.Later next ∧ opening.AddsOwn body next ∧
    ∀ storage index before after, (body.scope storage).slots[index]? = some before →
      (next.scope storage).slots[index]? = some after → after ≠ before →
      body.Types next storage index before after
  /-- What other bodies, and all that is between bodies, do to the variables that there are. -/
  sessions : ∀ t, Leads permits s t → s.current.Later t.current ∧ ∀ u, Next permits t u →
    ∀ index before after, t.current.globals.slots[index]? = some before →
      u.current.globals.slots[index]? = some after → after ≠ before →
      ∃ opening body next, t.body = some (opening, body) ∧ u.body = some (opening, next) ∧
        body.Types next .global index before after
  /-- Nodes that access globals carry the shapes that these have in the end. -/
  globals : ∀ (step : Body.Step) (next : Body) (handed : List Operand), step.isRaw = false →
    step.Leaves body next → ∀ id node index shape, body.arena.size ≤ id →
    next.arena.node id = .ok node → node.access? = some (.global, index, shape) →
    shape ≠ .auto ∧ ∀ t, Leads permits ⟨s.build, some (opening, next), handed⟩ t →
      t.current.arena.node id = .ok node ∧ t.current.globals.shapes[index]? = some shape
  /-- Nodes that access locals carry the shapes that these have in the finished function. -/
  locals : ∀ (step : Body.Step) (next : Body) (handed : List Operand), step.isRaw = false →
    step.Leaves body next → Next permits s ⟨s.build, some (opening, next), handed⟩ →
    ∀ id node index shape, body.arena.size ≤ id →
    next.arena.node id = .ok node → node.access? = some (.local, index, shape) →
    shape ≠ .auto ∧ ∀ t draft done func b handed' u, opening = .function draft →
      Works permits ⟨s.build, some (opening, next), handed⟩ t → t.body = some (opening, done) →
      Build.closeFunction draft done t.build = .ok func b → Leads permits ⟨b, none, handed'⟩ u →
      u.current.arena.node id = .ok node ∧ (u.current.localShapes func)[index]? = some shape

/-- Variables are bound once and for all. A name means its last declaration, a slot takes its shape
from the first value that is stored in it, and what was made of a variable stays true of it. -/
theorem variables_bind_once (reached : Reached permits s) {opening : Opening} {body : Body}
    (busy : s.body = some (opening, body)) : BindsOnce permits s opening body where
  reads := body.reads
  writes := body.writes
  steps step next leaves := by
    have later := step.later_of_leaves leaves
    have suits := (orderly_of_reached reached).suits opening body busy
    exact ⟨later, suits.addsOwn later, fun _ _ _ _ => Body.types_of_changed leaves⟩
  sessions t leads := ⟨leads.later, fun u step _ _ _ => types_of_changed step⟩
  globals step next handed notRaw leaves id node index shape behind made accesses := by
    have carries := (step.course_of_leaves notRaw leaves).carries behind made
    exact ⟨(carries _ _ _ accesses).1, fun t leads => carried_global rfl made carries accesses leads⟩
  locals step next handed notRaw leaves onward id node index shape behind made accesses := by
    have carries := (step.course_of_leaves notRaw leaves).carries behind made
    refine ⟨(carries _ _ _ accesses).1, ?_⟩
    rintro t draft done func b handed' u rfl works still closed leads
    exact carried_local (reached.next onward) rfl made carries accesses works still closed leads

/-- A function body that stored a number in a global of open shape. -/
theorem variables_bind_once_of_count : ∃ (s : Session) (draft : Build.Draft) (body : Body),
    Reached (fun _ _ => True) s ∧ s.body = some (.function draft, body) ∧
    body.globals.slots[0]? = some ⟨"count", .i32, .global⟩ ∧
    BindsOnce (fun _ _ => True) s (.function draft) body := by
  let global (shape : Shape) : Scope := ⟨#[⟨"count", shape, .global⟩]⟩
  let build : Build := { globals := global .auto }
  let draft : Build.Draft := ⟨false, "touch", { id := some "touch" }⟩
  let body (entries : Array Entry) (shape : Shape) : Body :=
    { arena := ⟨entries⟩, globals := global shape, callables := #[], locals := {}, fresh := .local,
      result := .auto }
  let one : Entry := ⟨.const (.ofNumber (.int 1) .i32), some (.num .i32)⟩
  let set : Entry := ⟨.globalSet 0 .i32 0, some .none⟩
  let init : Body := build.newBody {} .global .none
  have began : Reached (fun _ _ => True) ⟨build, some (.globals, init), []⟩ :=
    Reached.start.next (.openGlobals rfl (rfl : Build.openGlobals [("count", .auto)] _ = _))
  have ended : Next (fun _ _ => True) ⟨build, some (.globals, init), []⟩
    ⟨Build.left (Opening.close .globals init) build, none, []⟩ := .close rfl
  have declared : Reached (fun _ _ => True) ⟨build, none, []⟩ := began.next ended
  have run : Build.openFunction false draft.decl build = .ok (draft, body #[] .auto) build :=
    Build.openFunction_of_free rfl (by simp [build, Build.isTaken])
  have opened : Reached (fun _ _ => True) ⟨build, some (.function draft, body #[] .auto), []⟩ :=
    declared.next (.openFunction rfl run)
  have made : Reached (fun _ _ => True)
      ⟨build, some (.function draft, body #[one] .auto), [.plain 0]⟩ :=
    opened.take rfl (.literal (.int 1) .i32) trivial rfl
  have stored : Reached (fun _ _ => True)
      ⟨build, some (.function draft, body #[one, set] .i32), [.plain 1, .plain 0]⟩ :=
    made.take rfl (.write "count" 0) trivial rfl
  exact ⟨_, draft, _, stored, rfl, rfl, variables_bind_once stored rfl⟩

end Session

end WasmBuilder
