import Mathlib.Logic.Relation
import WasmBuilder.Proofs.Course.Nodes
import WasmBuilder.Proofs.Session
import WasmBuilder.Proofs.Variables.Binding

/-!
The course of a body.

Whatever step a body takes, and whether the step succeeds or fails, what happens to its variables is
a row of single writes, with pieces between them that leave all variables alone. So what one write
does tells what a whole body does.
-/

set_option autoImplicit false

namespace WasmBuilder.Body

/-- A node that reads or writes a variable takes it to have the shape of its slot. -/
def Carries (b : Body) (node : Node) : Prop :=
  ∀ (storage : Storage) (index : Nat) (shape : Shape),
    node.access? = some (storage, index, shape) → shape ≠ .auto ∧
      ∃ slot, (b.scope storage).slots[index]? = some slot ∧ slot.shape = shape

inductive Link (b c : Body) : Prop
  | write {name : String} {value id : ExprId} (done : Body.write name value b = .ok id c)
  | quiet (continues : b.arena.Continues c.arena) (callables : c.callables = b.callables)
      (fresh : c.fresh = b.fresh) (locals : c.locals = b.locals) (globals : c.globals = b.globals)
      (made : ∀ (id : ExprId) (node : Node), b.arena.size ≤ id → c.arena.node id = .ok node →
        b.Carries node)

def Course : Body → Body → Prop := Relation.ReflTransGen Link

instance : IsPreorder Body Course where
  refl _ := .refl
  trans _ _ _ := .trans

/-- A body that came of another one: nodes last, and scopes have grown, the one of new names in
length too. -/
structure Later (b c : Body) : Prop where
  continues : b.arena.Continues c.arena
  callables : c.callables = b.callables
  fresh : c.fresh = b.fresh
  locals : b.locals.Grows c.locals
  globals : b.globals.Grows c.globals
  ownGlobals : b.fresh ≠ .global → c.globals.size = b.globals.size
  ownLocals : b.fresh = .global → c.locals.size = b.locals.size

namespace Later

variable {b c d : Body}

theorem refl (b : Body) : Later b b :=
  ⟨.refl _, rfl, rfl, .refl _, .refl _, fun _ => rfl, fun _ => rfl⟩

theorem trans (first : Later b c) (second : Later c d) : Later b d where
  continues id node here := second.continues id node (first.continues id node here)
  callables := second.callables.trans first.callables
  fresh := second.fresh.trans first.fresh
  locals := first.locals.trans second.locals
  globals := first.globals.trans second.globals
  ownGlobals isLocal :=
    (second.ownGlobals (first.fresh ▸ isLocal)).trans (first.ownGlobals isLocal)
  ownLocals isGlobal :=
    (second.ownLocals (first.fresh.trans isGlobal)).trans (first.ownLocals isGlobal)

instance : IsPreorder Body Later where
  refl := refl
  trans _ _ _ := trans

theorem scope (later : Later b c) (storage : Storage) :
    (b.scope storage).Grows (c.scope storage) := by
  cases storage with
  | global => exact later.globals
  | param | «local» => exact later.locals

theorem carries (later : Later b c) {node : Node} (carries : b.Carries node) : c.Carries node := by
  intro storage index shape accesses
  obtain ⟨known, slot, here, rfl⟩ := carries storage index shape accesses
  exact ⟨known, slot, (later.scope storage).of_known here known, rfl⟩

end Later

variable {b c : Body}

theorem access?_writeNode (storage : Storage) (index : Nat) (shape : Shape) (value : ExprId) :
    ∃ place, b.scope place = b.scope storage ∧
      (writeNode storage index shape value).access? = some (place, index, shape) := by
  cases storage with
  | global => exact ⟨.global, rfl, rfl⟩
  | param | «local» => exact ⟨.local, rfl, rfl⟩

theorem later_of_write {name : String} {value id : ExprId} (done : write name value b = .ok id c) :
    Later b c := by
  obtain ⟨storage, index, shape, d, binds, rfl, rfl⟩ := write_eq_ok_iff.1 done
  have ⟨locals, globals⟩ := binds.grows
  have ⟨ownGlobals, ownLocals⟩ := binds.size_eq
  refine ⟨?_, binds.callables_eq, binds.fresh_eq, locals, globals, ownGlobals, ownLocals⟩
  rw [← binds.arena_eq]
  exact Arena.continues_push _ _ _

theorem carries_of_write {name : String} {value id : ExprId} (done : write name value b = .ok id c)
    {made : ExprId} {node : Node} (behind : b.arena.size ≤ made)
    (here : c.arena.node made = .ok node) : c.Carries node := by
  obtain ⟨storage, index, shape, d, binds, rfl, rfl⟩ := write_eq_ok_iff.1 done
  rw [← binds.arena_eq] at behind
  have is := Arena.node_of_push behind here
  subst is
  intro storage' index' shape' accesses
  have ⟨place, same, is⟩ := access?_writeNode (b := d) storage index shape value
  cases is.symm.trans accesses
  have ⟨slot, at_, takes⟩ := binds.exists_slot
  exact ⟨binds.known, slot, same ▸ at_, takes⟩

namespace Link

theorem later (link : Link b c) : Later b c := by
  cases link with
  | write done => exact later_of_write done
  | quiet continues callables fresh locals globals =>
    exact ⟨continues, callables, fresh, locals ▸ .refl _, globals ▸ .refl _, fun _ => by rw [globals],
      fun _ => by rw [locals]⟩

theorem carries (link : Link b c) {id : ExprId} {node : Node} (behind : b.arena.size ≤ id)
    (here : c.arena.node id = .ok node) : c.Carries node := by
  cases link with
  | write done => exact carries_of_write done behind here
  | quiet continues callables fresh locals globals made =>
    have later := Link.later (.quiet continues callables fresh locals globals made)
    exact later.carries (made id node behind here)

end Link

namespace Course

theorem later (course : Course b c) : Later b c := by
  induction course with
  | refl => exact .refl b
  | tail _ link ih => exact ih.trans link.later

theorem carries (course : Course b c) {id : ExprId} {node : Node} (behind : b.arena.size ≤ id)
    (here : c.arena.node id = .ok node) : c.Carries node := by
  induction course generalizing id node with
  | refl => exact absurd (Arena.lt_size_of_node here) (Nat.not_lt.2 behind)
  | @tail c d first link ih =>
    by_cases old : id < c.arena.size
    · exact link.later.carries (ih behind (link.later.continues.node_of_lt old here))
    · exact link.carries (Nat.le_of_not_lt old) here

/-- A slot that changes took the shape of the value that a write stored in it. -/
theorem settled_of_changed (course : Course b c) {storage : Storage} {index : Nat}
    {before after : Slot} (here : (b.scope storage).slots[index]? = some before)
    (there : (c.scope storage).slots[index]? = some after) (changed : after ≠ before) :
    ∃ d e name value id place, Course b d ∧ write name value d = .ok id e ∧ Course e c ∧
      d.scope place = d.scope storage ∧ d.Means name place index before ∧
      d.arena.settle value = .ok after.shape := by
  induction course generalizing after with
  | refl => exact absurd (Option.some.inj (there.symm.trans here)) changed
  | @tail d e first link ih =>
    have ⟨between, at_, became⟩ := (later first).scope storage index before here
    by_cases still : between = before
    · -- the last link is the one that changes the slot
      subst still
      cases link with
      | write done =>
        obtain ⟨_, _, _, f, binds, rfl, rfl⟩ := write_eq_ok_iff.1 done
        have ⟨place, same, means, settled⟩ := binds.settled_of_changed at_ there changed
        exact ⟨d, _, _, _, _, place, first, done, .refl, same, means, settled⟩
      | quiet _ _ _ locals globals =>
        have same : e.scope storage = d.scope storage := by
          cases storage with
          | global => exact globals
          | param | «local» => exact locals
        rw [same, at_] at there
        exact absurd (Option.some.inj there).symm changed
    · -- it has its shape already, and keeps it
      have known : between.shape ≠ .auto := fun isOpen => still (became.open_of_open isOpen)
      have kept := (link.later.scope storage).of_known at_ known
      cases there.symm.trans kept
      have ⟨f, g, name, value, id, place, one, done, two, facts⟩ := ih at_ still
      exact ⟨f, g, name, value, id, place, one, done, two.tail link, facts⟩

end Course

theorem carries_of_plain {node : Node} (plain : node.access? = none) : b.Carries node := by
  intro storage index shape accesses
  rw [plain] at accesses
  cases accesses

theorem link_push {node : Node} (carries : b.Carries node) (label : Option Shape) :
    Link b { b with arena := b.arena.push node label } := by
  refine .quiet (Arena.continues_push _ _ _) rfl rfl rfl rfl fun id made behind here => ?_
  rw [Arena.node_of_push behind here]
  exact carries

theorem link_of_size_eq (continues : b.arena.Continues c.arena)
    (size : c.arena.size = b.arena.size) (callables : c.callables = b.callables)
    (fresh : c.fresh = b.fresh) (locals : c.locals = b.locals) (globals : c.globals = b.globals) :
    Link b c := by
  apply Link.quiet continues callables fresh locals globals
  intro id node behind here
  have inside := Arena.lt_size_of_node here
  rw [size] at inside
  exact absurd inside (Nat.not_lt.2 behind)

theorem course_ask {α : Type} (question : Body → Except BuildError α) :
    Moves Course b (ask question) fun x t => t = b ∧ question b = .ok x := by
  apply Moves.get_bind
  cases question b with
  | ok x => exact Moves.pure ⟨rfl, rfl⟩
  | error e => exact Moves.throw

theorem course_settle (id : ExprId) : Moves Course b (settle id) fun _ _ => True :=
  (course_ask _).weaken fun _ _ _ _ => trivial

theorem course_emit {node : Node} (plain : node.access? = none) (shape : Shape) :
    Moves Course b (emit node shape) fun _ _ => True :=
  ⟨.single (link_push (carries_of_plain plain) _), trivial⟩

theorem course_emitOperand {node : Node} (plain : node.access? = none) (shape : Shape) :
    Moves Course b (emitOperand node shape) fun _ _ => True :=
  (course_emit plain shape).bind fun _ _ _ _ => Moves.pure trivial

theorem course_read (name : String) : Moves Course b (read name) fun _ _ => True := by
  apply Moves.intro
  · intro o c done
    obtain ⟨storage, index, slot, means, known, -, rfl⟩ := read_eq_ok_iff.1 done
    refine ⟨.single (link_push (fun storage' index' shape accesses => ?_) _), trivial⟩
    have here := means.last.here
    cases means with
    | ofLocal | ofGlobal =>
      cases accesses
      exact ⟨known, slot, here, rfl⟩
  · intro e c failed
    have ⟨_, same, _⟩ := read_eq_error_iff.1 failed
    exact same ▸ .refl

theorem course_write (name : String) (value : ExprId) :
    Moves Course b (write name value) fun _ _ => True := by
  apply Moves.intro
  · exact fun id c done => ⟨.single (.write done), trivial⟩
  · exact fun e c failed => write_error failed ▸ .refl

theorem course_assign (pairs : List (String × ExprId)) :
    Moves Course b (assign pairs) fun _ _ => True := by
  apply (Moves.mapM fun p _ c _ => course_write p.1 p.2).bind
  intro writes c _ _
  exact course_emit rfl .auto

theorem course_field (operand : Operand) (key : FieldKey) :
    Moves Course b (field operand key) fun _ _ => True := by
  apply (course_ask _).bind
  rintro ⟨result, arena⟩ b _ ⟨rfl, done⟩
  obtain ⟨-, index, offset, width, label, rfl⟩ := Arena.field_eq_push done
  have pushed : Moves Course b (modify fun c => { c with
      arena := b.arena.push (.extract operand.id index offset width) label }) fun _ _ => True :=
    Moves.modify (.single (link_push (carries_of_plain rfl) label)) trivial
  exact pushed.bind fun _ _ _ _ => Moves.pure trivial

theorem course_append (items : List ExprId) : Moves Course b (append items) fun _ _ => True :=
  Moves.modify (.single (link_of_size_eq (.refl _) rfl rfl rfl rfl rfl)) trivial

theorem course_giveResult (values : List ExprId) :
    Moves Course b (giveResult values) fun _ _ => True := by
  have ending (c : Body) (last : ExprId) : Moves Course c (do
      append values.dropLast
      append [← emit (.ret (some last)) .none]) fun _ _ => True := by
    apply (course_append _).bind
    intro _ d _ _
    exact (course_emit rfl .none).bind fun id _ _ _ => course_append [id]
  unfold giveResult
  cases values.getLast? with
  | none => exact Moves.throw
  | some last =>
    apply (course_settle last).bind
    intro actual b _ _
    apply Moves.get_bind
    dsimp only
    split
    · -- the first result: the value is labelled anew
      apply (course_ask _).bind
      rintro arena b _ ⟨rfl, relabelled⟩
      have ⟨continues, size⟩ := Arena.continues_relabel relabelled
      have fixed : Moves Course b (modify fun b => { b with arena, result := actual })
          fun _ _ => True :=
        Moves.modify (.single (link_of_size_eq continues size rfl rfl rfl rfl)) trivial
      exact fixed.bind fun _ c _ _ => ending c last
    · split
      · exact (Moves.throw (Q := fun _ _ => True)).bind fun _ c _ _ => ending c last
      · exact ending b last

theorem course_exec (values : List ExprId) : Moves Course b (exec values) fun _ _ => True := by
  unfold exec
  split
  · exact Moves.throw
  · exact course_append values

theorem course_block (values : List ExprId) : Moves Course b (block values) fun _ _ => True := by
  unfold block
  cases values.getLast? with
  | none => exact Moves.throw
  | some last => exact (course_settle last).bind fun shape _ _ _ => course_emitOperand rfl shape

theorem course_reach (c : Callable) (args : List ExprId) : Moves Course b (match c.kind with
    | .indirect slot => do
      let index ← i32 slot
      emitOperand (.callIndirect index args c.signature) c.result
    | .direct | .external => emitOperand (.call c.func args c.signature) c.result)
    fun _ _ => True := by
  cases c.kind with
  | direct | external => exact course_emitOperand rfl _
  | indirect slot => exact (course_emit rfl _).bind fun _ _ _ _ => course_emitOperand rfl _

theorem course_call (callable : Nat) (args : List ExprId) :
    Moves Course b (call callable args) fun _ _ => True := by
  apply Moves.get_bind
  cases b.callables[callable]? with
  | none => exact Moves.throw
  | some c =>
    dsimp only
    split
    · exact (Moves.throw (Q := fun _ _ => True)).bind fun _ _ _ _ => course_reach c args
    · exact course_reach c args

theorem course_tuple (values : List ExprId) : Moves Course b (tuple values) fun _ _ => True :=
  (Moves.mapM fun id _ _ _ => course_settle id).bind fun _ _ _ _ => course_emitOperand rfl _

theorem course_record (fields : List (String × ExprId)) :
    Moves Course b (record fields) fun _ _ => True :=
  (Moves.mapM fun f _ _ _ => course_settle f.2).bind fun _ _ _ _ => course_emitOperand rfl _

theorem course_primitiveOf (id : ExprId) : Moves Course b (primitiveOf id) fun _ _ => True :=
  (course_ask _).weaken fun _ _ _ _ => trivial

theorem course_binary (kind : BinaryKind) (left right : ExprId) :
    Moves Course b (binary kind left right) fun _ _ => True := by
  apply (course_primitiveOf left).bind
  intro leftType b _ _
  apply (course_primitiveOf right).bind
  intro rightType b _ _
  dsimp only
  split
  · exact Moves.throw
  · cases kind.select leftType with
    | none => exact Moves.throw
    | some op => exact course_emit rfl _

theorem course_unary (kind : UnaryKind) (operand : ExprId) :
    Moves Course b (unary kind operand) fun _ _ => True := by
  apply (course_primitiveOf operand).bind
  intro type b _ _
  cases kind.select type with
  | none => exact Moves.throw
  | some op => exact course_emit rfl _

theorem course_choose (declared : Shape) (cond : ExprId) (thenItems elseItems : List ExprId) :
    Moves Course b (choose declared cond thenItems elseItems) fun _ _ => True := by
  have shaped : Moves Course b (chooseShape declared thenItems) fun _ _ => True := by
    unfold chooseShape
    split
    · cases thenItems.getLast? with
      | none => exact Moves.pure trivial
      | some last => exact course_settle last
    · exact Moves.pure trivial
  exact shaped.bind fun shape _ _ _ => course_emitOperand rfl shape

theorem course_store (type : NumType) (addr value : ExprId) (offset : Nat) :
    Moves Course b (store type addr value offset) fun _ _ => True := by
  apply (course_primitiveOf value).bind
  intro actual b _ _
  dsimp only
  split
  · exact Moves.throw
  · exact course_emit rfl .none

namespace Step

theorem course_handOut {step : BodyM ExprId} (course : Moves Course b step fun _ _ => True) :
    Moves Course b (handOut step) fun _ _ => True :=
  course.bind fun _ _ _ _ => Moves.pure trivial

theorem course_handOperand {step : BodyM Operand} (course : Moves Course b step fun _ _ => True) :
    Moves Course b (some <$> step) fun _ _ => True := by
  rw [← bind_pure_comp]
  exact course.bind fun _ _ _ _ => Moves.pure trivial

theorem course_run {step : Step} (notRaw : step.isRaw = false) :
    Moves Course b step.run fun _ _ => True := by
  cases step with
  | read name => exact course_handOperand (course_read name)
  | write name value => exact course_handOut (course_write name value)
  | assign pairs => exact course_handOut (course_assign pairs)
  | field operand key => exact course_handOperand (course_field operand key)
  | giveResult values => exact (course_giveResult values).bind fun _ _ _ _ => Moves.pure trivial
  | exec values => exact (course_exec values).bind fun _ _ _ _ => Moves.pure trivial
  | block values => exact course_handOperand (course_block values)
  | call callable args => exact course_handOperand (course_call callable args)
  | literal value type => exact course_handOut (course_emit rfl _)
  | tuple values => exact course_handOperand (course_tuple values)
  | record fields => exact course_handOperand (course_record fields)
  | binary kind left right => exact course_handOut (course_binary kind left right)
  | unary kind operand => exact course_handOut (course_unary kind operand)
  | choose declared cond thenItems elseItems =>
    exact course_handOperand (course_choose declared cond thenItems elseItems)
  | loop init cond step body => exact course_handOut (course_emit rfl _)
  | raw node shape => cases notRaw
  | load type addr offset => exact course_handOut (course_emit rfl _)
  | store type addr value offset => exact course_handOut (course_store type addr value offset)
  | memorySize => exact course_handOut (course_emit rfl _)
  | memoryGrow delta => exact course_handOut (course_emit rfl _)

/-- Every step leads to a body that came of the one before, whether it succeeds or fails. -/
theorem later_run (step : Step) : Moves Later b step.run fun _ _ => True := by
  cases raw : step.isRaw with
  | false => exact (course_run raw).mono fun _ course => Course.later course
  | true =>
    cases step with
    | raw node shape =>
      refine ⟨⟨Arena.continues_push _ _ _, rfl, rfl, .refl _, .refl _, ?_, ?_⟩, trivial⟩
      · exact fun _ => rfl
      · exact fun _ => rfl
    | read | write | assign | field | giveResult | exec | block | call | literal | tuple | record
    | binary | unary | choose | loop | load | store | memorySize | memoryGrow => cases raw

def Leaves (step : Step) (b c : Body) : Prop :=
  (∃ handed, step.run b = .ok handed c) ∨ ∃ e, step.run b = .error e c

theorem later_of_leaves {step : Step} (leaves : step.Leaves b c) : Later b c := by
  rcases leaves with ⟨_, done⟩ | ⟨_, failed⟩
  · exact ((later_run step).of_ok done).1
  · exact (later_run step).of_error failed

theorem course_of_leaves {step : Step} (notRaw : step.isRaw = false) (leaves : step.Leaves b c) :
    Course b c := by
  rcases leaves with ⟨_, done⟩ | ⟨_, failed⟩
  · exact ((course_run notRaw).of_ok done).1
  · exact (course_run notRaw).of_error failed

end Step

end WasmBuilder.Body
