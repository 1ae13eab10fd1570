import WasmBuilder.Proofs.Lowering.Scratch

/-!
When lowering succeeds.

Lowering looks things up and adds to its tables. `Ready` says that a node finds all that it looks
for; then its code is there as soon as that of its operands is.
-/

set_option autoImplicit false

namespace WasmBuilder.Lower

/-- A computation that succeeds from every state within a bound that has no scratch local in use,
and leaves such a state. -/
def Succeeds (within : LowerState → Prop) {α : Type} (m : LowerM α) : Prop :=
  ∀ s : LowerState, s.Free → within s → ∃ x t, m s = .ok (x, t) ∧ t.Free ∧ within t

namespace Succeeds

variable {within : LowerState → Prop} {α β : Type}

theorem pure (x : α) : Succeeds within (Pure.pure x) :=
  fun s free inside => ⟨x, s, rfl, free, inside⟩

theorem bind {m : LowerM α} {f : α → LowerM β} (first : Succeeds within m)
    (second : ∀ x, Succeeds within (f x)) : Succeeds within (m >>= f) := by
  intro s free inside
  obtain ⟨x, t, run, free', inside'⟩ := first s free inside
  obtain ⟨y, u, rest, free'', inside''⟩ := second x t free' inside'
  refine ⟨y, u, ?_, free'', inside''⟩
  simp only [Bind.bind, StateT.bind, Except.bind, run, rest]

theorem lift_bind {e : Except BuildError α} {x : α} {f : α → LowerM β} (found : e = .ok x)
    (rest : Succeeds within (f x)) : Succeeds within (liftM e >>= f) := by
  subst found
  exact rest

end Succeeds

theorem succeeds_intern (signature : Signature) : Succeeds (fun _ => True) (intern signature) := by
  intro s free _
  unfold intern
  cases s.types.findIdx? (· = signature) with
  | some i => exact ⟨i, s, rfl, free, trivial⟩
  | none => exact ⟨_, _, rfl, free, trivial⟩

theorem succeeds_spill (ts : List NumType) : Succeeds (fun _ => True) (spill ts) := by
  intro s free _
  obtain ⟨is, t, run, free', _⟩ := spill_spec free ts
  exact ⟨is, t, run, free', trivial⟩

theorem succeeds_blockType (ts : List NumType) : Succeeds (fun _ => True) (blockType ts) := by
  match ts with
  | [] => exact .pure _
  | [_] => exact .pure _
  | _ :: _ :: _ => exact (succeeds_intern _).bind fun _ => .pure _

section
variable (l : Layout) (within : LowerState → Prop) (sub : ExprId → Prop)

def StatementReady (id : ExprId) : Prop := sub id ∧ ∃ ts, l.arena.slots id = .ok ts

def SequenceReady (value : Bool) (items : List ExprId) : Prop :=
  (∀ id ∈ items, sub id) ∧
    ∀ id ∈ if value then items.dropLast else items, ∃ ts, l.arena.slots id = .ok ts

/-- A node that finds what it looks for. -/
def Ready (id : ExprId) : Node → Prop
  | .const _ | .memorySize | .nop | .ret none => True
  | .localGet slot _ => ∃ base, l.localBase slot = .ok base
  | .localSet slot _ value => (∃ base, l.localBase slot = .ok base) ∧ sub value
  | .globalGet global _ => ∃ base, l.globalBase global = .ok base
  | .globalSet global _ value => (∃ base, l.globalBase global = .ok base) ∧ sub value
  | .binary _ left right => sub left ∧ sub right
  | .unary _ operand => sub operand
  | .call func args _ => (∃ index, l.funcIndex func = .ok index) ∧ ∀ arg ∈ args, sub arg
  | .callIndirect index args signature =>
    (∀ arg ∈ args, sub arg) ∧ sub index ∧ Succeeds within (intern signature)
  | .block items _ => ∃ ts, l.arena.slots id = .ok ts ∧ SequenceReady l sub (!ts.isEmpty) items
  | .group items => ∀ item ∈ items, sub item
  | .extract composite _ offset width =>
    ∃ node, l.arena.node composite = .ok node ∧
      match node with
      | .localGet slot _ => ∃ base, l.localBase slot = .ok base
      | .globalGet global _ => ∃ base, l.globalBase global = .ok base
      | _ =>
        ∃ all, l.arena.slots composite = .ok all ∧ offset + width ≤ all.length ∧ sub composite ∧
          Succeeds within (spill all)
  | .choose cond thenItems elseItems _ =>
    ∃ ts, l.arena.slots id = .ok ts ∧ sub cond ∧ Succeeds within (blockType ts) ∧
      SequenceReady l sub (!ts.isEmpty) thenItems ∧ SequenceReady l sub (!ts.isEmpty) elseItems
  | .loop init cond step body =>
    (∀ id ∈ init ++ body ++ step, StatementReady l sub id) ∧ sub cond
  | .ret (some value) => sub value
  | .load _ addr _ => sub addr
  | .store _ addr value _ => sub addr ∧ sub value
  | .memoryGrow delta => sub delta

end

section
variable {l : Layout} {within : LowerState → Prop} {sub : ExprId → Prop}
  {lower : ExprId → LowerM (List Wasm.Instr)}
  (each : ∀ id, sub id → Succeeds within (lower id))

include each

theorem succeeds_operands {ids : List ExprId} (all : ∀ id ∈ ids, sub id) :
    Succeeds within (Layout.operands lower ids) := by
  induction ids with
  | nil => exact .pure _
  | cons id rest ih =>
    refine (each id (all id List.mem_cons_self)).bind fun _ => ?_
    exact (ih fun x mem => all x (List.mem_cons_of_mem id mem)).bind fun _ => .pure _

theorem succeeds_statement {id : ExprId} (ready : StatementReady l sub id) :
    Succeeds within (l.statement lower id) := by
  obtain ⟨operand, ts, slots⟩ := ready
  exact (each id operand).bind fun _ => .lift_bind slots (.pure _)

theorem succeeds_statements {ids : List ExprId} (all : ∀ id ∈ ids, StatementReady l sub id) :
    Succeeds within (l.statements lower ids) := by
  induction ids with
  | nil => exact .pure _
  | cons id rest ih =>
    refine (succeeds_statement each (all id List.mem_cons_self)).bind fun _ => ?_
    exact (ih fun x mem => all x (List.mem_cons_of_mem id mem)).bind fun _ => .pure _

theorem succeeds_sequence {value : Bool} {items : List ExprId}
    (ready : SequenceReady l sub value items) : Succeeds within (l.sequence lower value items) := by
  induction items with
  | nil => exact .pure _
  | cons id rest ih =>
    obtain ⟨operands, slots⟩ := ready
    have head := operands id List.mem_cons_self
    cases rest with
    | nil =>
      cases value with
      | true => exact each id head
      | false => exact succeeds_statement each ⟨head, slots id List.mem_cons_self⟩
    | cons next rest =>
      have first : ∃ ts, l.arena.slots id = .ok ts := by
        refine slots id ?_
        cases value <;> exact List.mem_cons_self
      have others : SequenceReady l sub value (next :: rest) := by
        refine ⟨fun x mem => operands x (List.mem_cons_of_mem id mem), fun x mem => slots x ?_⟩
        cases value with
        | true => exact List.mem_cons_of_mem id mem
        | false => exact List.mem_cons_of_mem id mem
      exact (succeeds_statement each ⟨head, first⟩).bind fun _ => (ih others).bind fun _ => .pure _

theorem succeeds_field {composite : ExprId} {offset width : Nat} {all : List NumType}
    (fits : offset + width ≤ all.length) (operand : sub composite)
    (spilled : Succeeds within (spill all)) :
    Succeeds within (do
      if all.length < offset + width then throw (.unknownExpression composite)
      let code ← lower composite
      let locals := (← spill all).map (l.scratchBase + ·)
      return code ++ locals.reverse.map .localSet ++
        ((locals.drop offset).take width).map .localGet) := by
  rw [if_neg (Nat.not_lt.2 fits)]
  exact (each composite operand).bind fun _ => spilled.bind fun _ => .pure _

theorem succeeds_node {id : ExprId} {node : Node} (ready : Ready l within sub id node) :
    Succeeds within (l.node lower id node) := by
  cases node with
  | const | memorySize | nop => exact .pure _
  | localGet | globalGet =>
    obtain ⟨base, at_⟩ := ready
    exact .lift_bind at_ (.pure _)
  | localSet _ _ value | globalSet _ _ value =>
    obtain ⟨⟨base, at_⟩, operand⟩ := ready
    exact .lift_bind at_ ((each value operand).bind fun _ => .pure _)
  | binary op left right =>
    exact (each left ready.1).bind fun _ => (each right ready.2).bind fun _ => .pure _
  | unary op operand => exact (each operand ready).bind fun _ => .pure _
  | call func args signature =>
    obtain ⟨⟨index, at_⟩, operands⟩ := ready
    exact (succeeds_operands each operands).bind fun _ => .lift_bind at_ (.pure _)
  | callIndirect index args signature =>
    obtain ⟨operands, chosen, listed⟩ := ready
    refine (succeeds_operands each operands).bind fun _ => (each index chosen).bind fun _ => ?_
    exact listed.bind fun _ => .pure _
  | block items shape =>
    obtain ⟨ts, slots, body⟩ := ready
    exact .lift_bind slots (succeeds_sequence each body)
  | group items => exact succeeds_operands each ready
  -- a variable is read in place; all else is spilled, which needs its slots
  | extract composite index offset width =>
    obtain ⟨node, here, found⟩ := ready
    refine .lift_bind here ?_
    cases node with
    | localGet | globalGet =>
      obtain ⟨base, at_⟩ := found
      exact .lift_bind at_ (.pure _)
    | const | localSet | globalSet | binary | unary | call | callIndirect | block | group | extract
    | choose | loop | ret | load | store | memorySize | memoryGrow | nop =>
      obtain ⟨all, slots, fits, operand, spilled⟩ := found
      exact .lift_bind slots (succeeds_field each fits operand spilled)
  | choose cond thenItems elseItems shape =>
    obtain ⟨ts, slots, decided, typed, yes, no⟩ := ready
    refine .lift_bind slots ((each cond decided).bind fun _ => typed.bind fun _ => ?_)
    refine (succeeds_sequence each yes).bind fun _ => ?_
    split
    · exact (succeeds_sequence each no).bind fun _ => .pure _
    · exact .pure _
  | loop init cond step body =>
    obtain ⟨statements, test⟩ := ready
    have part {ids : List ExprId} (sub' : ∀ id ∈ ids, id ∈ init ++ body ++ step) :
        Succeeds within (l.statements lower ids) :=
      succeeds_statements each fun id mem => statements id (sub' id mem)
    refine (part (by simp +contextual)).bind fun _ => (each cond test).bind fun _ => ?_
    refine (part (by simp +contextual)).bind fun _ => ?_
    exact (part (by simp +contextual)).bind fun _ => .pure _
  | ret value =>
    cases value with
    | none => exact .pure _
    | some value => exact (each value ready).bind fun _ => .pure _
  | load type addr offset => exact (each addr ready).bind fun _ => .pure _
  | store type addr value offset =>
    exact (each addr ready.1).bind fun _ => (each value ready.2).bind fun _ => .pure _
  | memoryGrow delta => exact (each delta ready).bind fun _ => .pure _

end

end WasmBuilder.Lower
