import WasmBuilder.Proofs.Course.Paths
import WasmBuilder.Proofs.Course.References
import WasmBuilder.Proofs.Labels.Body
import WasmBuilder.Proofs.Labels.Truthful

/-!
The pieces that steps consist of.

Whatever a step does, it does in pieces of four kinds: it adds a node over expressions that it takes or
that are there, gives the variables other scopes, adds statements, or fixes the result. What a session
keeps is shown of each kind of piece by itself.
-/

set_option autoImplicit false

namespace WasmBuilder

def Body.Step.returned : Body.Step → List ExprId
  | giveResult values => values.getLast?.toList
  | _ => []

structure Arena.Hands (a : Arena) (o : Operand) : Prop where
  old : o.id < a.size
  view : ∀ shape, o.shape? = some shape → a.label o.id = .ok shape

/-- Operands that are there have true labels, and views are through shapes of the numbers that their
expressions leave. -/
structure Arena.Honest (a : Arena) (operands : List Operand) : Prop where
  tells : ∀ o ∈ operands, o.id < a.size → a.Tells o.id
  views : ∀ (id : ExprId) (shape : Shape), .view id shape ∈ operands → a.slots id = .ok shape.flatten

theorem Arena.Honest.slots_of_settle {a : Arena} {operands : List Operand} (honest : a.Honest operands)
    {id : ExprId} {shape : Shape} (mem : Operand.plain id ∈ operands)
    (settled : a.settle id = .ok shape) : a.slots id = .ok shape.flatten :=
  (honest.tells _ mem (lt_size_of_settle settled)).slots_of_settle settled

/-- A field operation adds the extract of the field, through the shape that the operand is seen by. -/
theorem Arena.field_eq_ok {a c : Arena} {operand result : Operand} {key : FieldKey}
    (done : a.field operand key = .ok (result, c)) : ∃ shape index part,
      (operand = .view operand.id shape ∨
        operand = .plain operand.id ∧ a.label operand.id = .ok shape) ∧
      shape.position key = .ok (index, part) ∧ result = .ofShape a.size part ∧
      c = a.push (.extract operand.id index (shape.fieldOffset index) part.width) (some part) := by
  have viewed (id : ExprId) (shape : Shape) (done : a.viewField id shape key = .ok (result, c)) :
      ∃ index part, shape.position key = .ok (index, part) ∧ result = .ofShape a.size part ∧
        c = a.push (.extract id index (shape.fieldOffset index) part.width) (some part) := by
    obtain ⟨⟨index, part⟩, found, done⟩ := bind_eq_ok_iff.1 done
    cases done
    exact ⟨index, part, found, rfl, rfl⟩
  cases operand with
  | view id shape =>
    obtain ⟨index, part, facts⟩ := viewed id shape done
    exact ⟨shape, index, part, .inl rfl, facts⟩
  | plain id =>
    obtain ⟨shape, label, done⟩ := bind_eq_ok_iff.1 done
    obtain ⟨index, part, facts⟩ := viewed id shape done
    exact ⟨shape, index, part, .inr ⟨rfl, label⟩, facts⟩

namespace Body

/-- An expression that a step can name: one that is there, or one that it takes. -/
def Names (b : Body) (step : Step) (id : ExprId) : Prop :=
  id < b.arena.size ∨ ∃ o ∈ step.operands, o.id = id

inductive Piece (step : Step) (b : Body) : Body → Prop
  | push {node : Node} {shape : Shape} (named : ∀ child ∈ node.children, b.Names step child)
      (told : step.isRaw = false → b.arena.Honest step.operands →
        Arena.nodeSlots b.arena.slots b.arena.size node = .ok shape.flatten) :
      Piece step b { b with arena := b.arena.push node (some shape) }
  | scopes (locals globals : Scope) : Piece step b { b with locals, globals }
  | append {items : List ExprId} (named : ∀ id ∈ items, b.Names step id) :
      Piece step b { b with statements := b.statements ++ items }
  | result {last : ExprId} {shape : Shape} {arena : Arena} (returns : step.returned = [last])
      (first : b.result = .auto) (settled : b.arena.settle last = .ok shape)
      (done : b.arena.relabel last shape = .ok arena) :
      Piece step b { b with arena, result := shape }

def Pieces (step : Step) : Body → Body → Prop := Relation.ReflTransGen (Piece step)

instance (step : Step) : IsPreorder Body (Pieces step) where
  refl _ := .refl
  trans _ _ _ := .trans

variable {step : Step} {b c : Body}

theorem names_operand {o : Operand} (mem : o ∈ step.operands) : b.Names step o.id :=
  .inr ⟨o, mem, rfl⟩

theorem names_plain {id : ExprId} (mem : Operand.plain id ∈ step.operands) : b.Names step id :=
  .inr ⟨_, mem, rfl⟩

theorem pieces_ask {α : Type} (question : Body → Except BuildError α) :
    Moves (Pieces step) b (ask question) fun x c => c = b ∧ question b = .ok x := by
  apply Moves.get_bind
  cases question b with
  | ok x => exact Moves.pure ⟨rfl, rfl⟩
  | error e => exact Moves.throw

theorem pieces_settle (id : ExprId) :
    Moves (Pieces step) b (settle id) fun shape c => c = b ∧ b.arena.settle id = .ok shape :=
  pieces_ask _

section
variable {node : Node} {shape : Shape} (named : ∀ child ∈ node.children, b.Names step child)
  (told : step.isRaw = false → b.arena.Honest step.operands →
    Arena.nodeSlots b.arena.slots b.arena.size node = .ok shape.flatten)

include named told

theorem pieces_emit :
    Moves (Pieces step) b (emit node shape) fun id c => c.arena.Hands (.plain id) := by
  refine ⟨.single (.push named told), ?_, nofun⟩
  show b.arena.size < (b.arena.push node (some shape)).size
  simp

theorem pieces_emitOperand :
    Moves (Pieces step) b (emitOperand node shape) fun o c => c.arena.Hands o := by
  have pushed : Moves (Pieces step) b (emit node shape) fun id c =>
      c.arena.Hands (.ofShape id shape) := by
    refine ⟨.single (.push named told), ?_, fun other view => ?_⟩
    · show (Operand.ofShape b.arena.size shape).id < (b.arena.push node (some shape)).size
      simp
    · have is : shape = other := by
        unfold Operand.ofShape at view
        split at view
        · exact Option.some.inj view
        · cases view
      subst is
      show (b.arena.push node (some shape)).label (Operand.ofShape b.arena.size shape).id = _
      rw [Operand.id_ofShape]
      exact Arena.label_push_size b.arena node shape
  exact pushed.bind fun _ _ _ hands => Moves.pure hands

end

theorem pieces_leaf {node : Node} {shape : Shape} (leaf : node.children = [])
    (told : ∀ slots, Arena.nodeSlots slots b.arena.size node = .ok shape.flatten) :
    Moves (Pieces step) b (emit node shape) fun id c => c.arena.Hands (.plain id) :=
  pieces_emit (fun _ mem => absurd (leaf ▸ mem) List.not_mem_nil) fun _ _ => told _

theorem Binds.eq_scopes {d : Body} {name : String} {value : ExprId} {storage : Storage} {index : Nat}
    {shape : Shape} (binds : b.Binds name value storage index shape d) :
    d = { b with locals := d.locals, globals := d.globals } := by
  cases binds with
  | typed => rfl
  | first means => cases means <;> rfl
  | new => cases fresh : b.fresh <;> simp [setScope, fresh]

theorem pieces_read (name : String) :
    Moves (Pieces step) b (read name) fun o c => c.arena.Hands o := by
  apply Moves.get_bind
  split
  next storage index slot _ =>
    split
    · exact Moves.throw
    · refine pieces_emitOperand (fun child mem => ?_) fun _ _ => ?_
      · cases storage <;> exact absurd mem List.not_mem_nil
      · cases storage <;> rfl
  next => exact Moves.throw

theorem pieces_write (name : String) {value : ExprId} (named : Operand.plain value ∈ step.operands) :
    Moves (Pieces step) b (write name value) fun id c => c.arena.Hands (.plain id) := by
  apply Moves.intro
  · intro id c done
    obtain ⟨storage, index, shape, d, binds, rfl, rfl⟩ := write_eq_ok_iff.1 done
    have pushed : Moves (Pieces step) d (emit (writeNode storage index shape value) .none)
        fun id c => c.arena.Hands (.plain id) := by
      refine pieces_emit (fun child mem => ?_) fun _ _ => ?_
      · cases storage <;> cases List.mem_singleton.1 mem <;> exact names_plain named
      · cases storage <;> rfl
    obtain ⟨pieces, hands⟩ := pushed.of_ok (rfl : emit _ _ d = _)
    have scopes : Piece step b d := binds.eq_scopes ▸ .scopes d.locals d.globals
    exact ⟨.head scopes pieces, hands⟩
  · exact fun e c failed => write_error failed ▸ .refl

theorem shapeSlots_of_wrote {writes : List ExprId} (wrote : b.Wrote c writes) :
    Arena.shapeSlots writes.getLast? c.arena.slots .auto = .ok [] := by
  cases last : writes.getLast? with
  | none => rfl
  | some id =>
    obtain ⟨storage, index, shape, value, here⟩ := wrote.made id (List.mem_of_getLast? last)
    refine Arena.slotsWithin_succ_eq_ok_iff.2 ⟨_, here, ?_⟩
    cases storage <;> rfl

theorem pieces_assign (pairs : List (String × ExprId)) :
    Moves (Pieces (.assign pairs)) b (assign pairs) fun id c => c.arena.Hands (.plain id) := by
  have each : Moves (Pieces (.assign pairs)) b (pairs.mapM fun p => write p.1 p.2)
      fun _ _ => True := by
    refine Moves.mapM fun p mem c _ => (pieces_write p.1 ?_).weaken fun _ _ _ _ => trivial
    exact List.mem_map_of_mem mem
  have writes : Moves (Pieces (.assign pairs)) b (pairs.mapM fun p => write p.1 p.2)
      fun writes c => b.Wrote c writes :=
    .intro (fun _ _ done => ⟨(each.of_ok done).1, (wrote_of_mapM done).1⟩)
      fun _ _ failed => each.of_error failed
  apply writes.bind
  intro writes c _ wrote
  refine pieces_emit (fun id mem => .inl ?_) fun _ _ => shapeSlots_of_wrote wrote
  obtain ⟨storage, index, shape, value, here⟩ := wrote.made id mem
  exact Arena.lt_size_of_node here

theorem pieces_field (operand : Operand) (key : FieldKey) :
    Moves (Pieces (.field operand key)) b (field operand key) fun o c => c.arena.Hands o := by
  have mem : operand ∈ (Step.field operand key).operands := List.mem_singleton_self operand
  apply Moves.intro
  · intro o c done
    rw [field_run] at done
    cases made : b.arena.field operand key with
    | error e => simp [made] at done
    | ok answer =>
      simp only [made] at done
      obtain ⟨result, arena⟩ := answer
      obtain ⟨shape, index, part, seen, found, rfl, rfl⟩ := Arena.field_eq_ok made
      obtain ⟨fits, slice⟩ := Shape.slice_flatten found
      have extract : Moves (Pieces (.field operand key)) b (emitOperand
          (.extract operand.id index (shape.fieldOffset index) part.width) part)
          fun o c => c.arena.Hands o := by
        refine pieces_emitOperand (fun child is => ?_) fun _ honest => ?_
        · rw [List.mem_singleton.1 is]
          exact names_operand mem
        · refine Arena.nodeSlots_extract_eq_ok_iff.2 ⟨shape.flatten, ?_, fits, slice.symm⟩
          rcases seen with is | ⟨is, label⟩
          · exact honest.views _ _ (is ▸ mem)
          · obtain ⟨other, label', slots⟩ := honest.tells _ mem (Arena.lt_size_of_label label)
            cases label.symm.trans label'
            exact slots
      exact extract.of_ok done
  · exact fun e c failed => Atomic.field operand key b e c failed ▸ .refl

theorem pieces_append {items : List ExprId} (named : ∀ id ∈ items, b.Names step id) :
    Moves (Pieces step) b (append items) fun _ c => c.arena = b.arena :=
  Moves.modify (.single (.append named)) rfl

/-- What a body goes on with when a value may be returned: the values before it are statements, and so
is its return. -/
def ending (values : List ExprId) (last : ExprId) : BodyM Unit := do
  append values.dropLast
  append [← emit (.ret (some last)) .none]

theorem pieces_ending {values : List ExprId} {last : ExprId} (isLast : values.getLast? = some last) :
    Moves (Pieces (.giveResult values)) b (ending values last) fun _ _ => True := by
  have taken {id : ExprId} (mem : id ∈ values) : Operand.plain id ∈ (Step.giveResult values).operands :=
    List.mem_map_of_mem mem
  apply (pieces_append fun id mem => names_plain (taken (List.dropLast_subset values mem))).bind
  intro _ c _ _
  have returned : Moves (Pieces (.giveResult values)) c (emit (.ret (some last)) .none)
      fun id d => d.arena.Hands (.plain id) := by
    refine pieces_emit (fun id mem => ?_) fun _ _ => rfl
    rw [List.mem_singleton.1 mem]
    exact names_plain (taken (List.mem_of_getLast? isLast))
  apply returned.bind
  intro id d _ hands
  refine (pieces_append fun other mem => .inl ?_).weaken fun _ _ _ _ => trivial
  rw [List.mem_singleton.1 mem]
  exact hands.old

theorem pieces_giveResult (values : List ExprId) :
    Moves (Pieces (.giveResult values)) b (giveResult values) fun _ _ => True := by
  unfold giveResult
  cases isLast : values.getLast? with
  | none => exact Moves.throw
  | some last =>
    apply (pieces_settle last).bind
    rintro actual b _ ⟨rfl, settled⟩
    apply Moves.get_bind
    dsimp only
    split
    next first =>
      apply (pieces_ask _).bind
      rintro arena b _ ⟨rfl, relabelled⟩
      have returns : (Step.giveResult values).returned = [last] := by simp [Step.returned, isLast]
      have fixed : Moves (Pieces (.giveResult values)) b
          (modify fun b => { b with arena, result := actual }) fun _ _ => True :=
        Moves.modify (.single (.result returns first settled relabelled)) trivial
      exact fixed.bind fun _ _ _ _ => pieces_ending isLast
    next =>
      split
      · exact (Moves.throw (Q := fun _ _ => True)).bind fun _ _ _ _ => pieces_ending isLast
      · exact pieces_ending isLast

theorem pieces_exec (values : List ExprId) :
    Moves (Pieces (.exec values)) b (exec values) fun _ _ => True := by
  unfold exec
  split
  · exact Moves.throw
  · refine (pieces_append fun id mem => names_plain ?_).weaken fun _ _ _ _ => trivial
    exact List.mem_map_of_mem mem

theorem pieces_block (values : List ExprId) :
    Moves (Pieces (.block values)) b (block values) fun o c => c.arena.Hands o := by
  unfold block
  cases isLast : values.getLast? with
  | none => exact Moves.throw
  | some last =>
    apply (pieces_settle last).bind
    rintro shape b _ ⟨rfl, settled⟩
    refine pieces_emitOperand (fun id mem => names_plain (List.mem_map_of_mem mem))
      fun _ honest => ?_
    show Arena.shapeSlots values.getLast? _ shape = _
    rw [isLast]
    have mem := List.mem_map_of_mem (f := Operand.plain) (List.mem_of_getLast? isLast)
    exact Arena.shapeSlots_settled (honest.slots_of_settle mem settled)

theorem pieces_call (callable : Nat) (args : List ExprId) :
    Moves (Pieces (.call callable args)) b (call callable args) fun o c => c.arena.Hands o := by
  have taken : ∀ id ∈ args, Operand.plain id ∈ (Step.call callable args).operands :=
    fun _ mem => List.mem_map_of_mem mem
  have direct (c : Callable) : Moves (Pieces (.call callable args)) b
      (emitOperand (.call c.func args c.signature) c.result) fun o c => c.arena.Hands o :=
    pieces_emitOperand (fun id mem => names_plain (taken id mem)) fun _ _ => rfl
  have indirect (c : Callable) (slot : Nat) : Moves (Pieces (.call callable args)) b (do
      let index ← i32 slot
      emitOperand (.callIndirect index args c.signature) c.result) fun o c => c.arena.Hands o := by
    have index : Moves (Pieces (.call callable args)) b (i32 slot)
        fun id c => c.arena.Hands (.plain id) :=
      pieces_leaf rfl fun _ => by simp [Arena.nodeSlots, pure, Except.pure, Shape.flatten]
    apply index.bind
    intro id d _ hands
    refine pieces_emitOperand (fun child mem => ?_) fun _ _ => rfl
    rcases List.mem_append.1 mem with mem | mem
    · exact names_plain (taken child mem)
    · rw [List.mem_singleton.1 mem]
      exact .inl hands.old
  apply Moves.get_bind
  cases b.callables[callable]? with
  | none => exact Moves.throw
  | some c =>
    dsimp only
    split
    · -- a call with too many arguments fails before anything is made
      exact Moves.throw
    · cases kind : c.kind with
      | direct => exact direct c
      | external => exact direct c
      | indirect slot => exact indirect c slot

theorem pieces_settle_all {α : Type} (f : α → ExprId) (xs : List α) :
    Moves (Pieces step) b (xs.mapM fun x => settle (f x)) fun shapes c => c = b ∧
      List.Forall₂ (fun x shape => b.arena.settle (f x) = .ok shape) xs shapes := by
  induction xs with
  | nil => exact Moves.pure ⟨rfl, .nil⟩
  | cons x rest ih =>
    rw [List.mapM_cons]
    apply (pieces_settle (f x)).bind
    rintro shape b _ ⟨rfl, settled⟩
    apply ih.bind
    rintro shapes b _ ⟨rfl, others⟩
    exact Moves.pure ⟨rfl, .cons settled others⟩

theorem concatSlots_of_settled {a : Arena} {operands : List Operand} (honest : a.Honest operands)
    {values : List ExprId} {shapes : List Shape} (taken : ∀ id ∈ values, Operand.plain id ∈ operands)
    (settled : List.Forall₂ (fun id shape => a.settle id = .ok shape) values shapes) :
    Arena.concatSlots a.slots values = .ok (shapes.flatMap Shape.flatten) := by
  induction settled with
  | nil => rfl
  | cons first _ ih =>
    obtain ⟨mem, others⟩ := List.forall_mem_cons.1 taken
    exact Arena.concatSlots_cons_eq_ok_iff.2 ⟨_, _, honest.slots_of_settle mem first, ih others, rfl⟩

theorem pieces_tuple (values : List ExprId) :
    Moves (Pieces (.tuple values)) b (tuple values) fun o c => c.arena.Hands o := by
  apply (pieces_settle_all id values).bind
  rintro shapes b _ ⟨rfl, settled⟩
  refine pieces_emitOperand (fun id mem => names_plain (List.mem_map_of_mem mem))
    fun _ honest => ?_
  rw [Shape.flatten_tuple]
  exact concatSlots_of_settled honest (fun _ mem => List.mem_map_of_mem mem) settled

theorem pieces_record (fields : List (String × ExprId)) :
    Moves (Pieces (.record fields)) b (record fields) fun o c => c.arena.Hands o := by
  apply (pieces_settle_all (fun f : String × ExprId => f.2) fields).bind
  rintro shapes b _ ⟨rfl, settled⟩
  have taken : ∀ id ∈ fields.map (·.2), Operand.plain id ∈ (Step.record fields).operands := by
    intro id mem
    obtain ⟨f, isField, rfl⟩ := List.mem_map.1 mem
    exact List.mem_map.2 ⟨f, isField, rfl⟩
  refine pieces_emitOperand (fun id mem => names_plain (taken id mem)) fun _ honest => ?_
  · have same : (fields.map (·.1)).length = shapes.length := by
      rw [List.length_map, settled.length_eq]
    rw [Shape.flatten_record, ← List.flatMap_map, List.map_snd_zip (Nat.le_of_eq same.symm)]
    exact concatSlots_of_settled honest taken (List.forall₂_map_left_iff.2 settled)

theorem pieces_binary (kind : BinaryKind) (left right : ExprId) :
    Moves (Pieces (.binary kind left right)) b (binary kind left right)
      fun id c => c.arena.Hands (.plain id) := by
  apply (pieces_ask _).bind
  rintro leftType b _ ⟨rfl, -⟩
  apply (pieces_ask _).bind
  rintro rightType b _ ⟨rfl, -⟩
  dsimp only
  split
  · exact Moves.throw
  · cases kind.select leftType with
    | none => exact Moves.throw
    | some op =>
      refine pieces_emit (fun id mem => names_plain ?_) fun _ _ => rfl
      exact List.mem_map_of_mem (f := Operand.plain) mem

theorem pieces_unary (kind : UnaryKind) (operand : ExprId) :
    Moves (Pieces (.unary kind operand)) b (unary kind operand)
      fun id c => c.arena.Hands (.plain id) := by
  apply (pieces_ask _).bind
  rintro type b _ ⟨rfl, -⟩
  cases kind.select type with
  | none => exact Moves.throw
  | some op =>
    refine pieces_emit (fun id mem => names_plain ?_) fun _ _ => rfl
    exact List.mem_map_of_mem (f := Operand.plain) mem

theorem pieces_choose (declared : Shape) (cond : ExprId) (thenItems elseItems : List ExprId) :
    Moves (Pieces (.choose declared cond thenItems elseItems)) b
      (choose declared cond thenItems elseItems) fun o c => c.arena.Hands o := by
  have shaped : Moves (Pieces (.choose declared cond thenItems elseItems)) b
      (chooseShape declared thenItems) fun shape c => c = b ∧
        (b.arena.Honest (Step.choose declared cond thenItems elseItems).operands →
          Arena.shapeSlots thenItems.getLast? b.arena.slots shape = .ok shape.flatten) := by
    unfold chooseShape
    split
    · cases isLast : thenItems.getLast? with
      | none => exact Moves.pure ⟨rfl, fun _ => rfl⟩
      | some last =>
        have mem : Operand.plain last ∈ (Step.choose declared cond thenItems elseItems).operands := by
          simp [Step.operands, List.mem_of_getLast? isLast]
        apply (pieces_settle last).weaken
        rintro shape _ _ ⟨rfl, settled⟩
        exact ⟨rfl, fun honest => Arena.shapeSlots_settled (honest.slots_of_settle mem settled)⟩
    next known =>
      refine Moves.pure ⟨rfl, fun _ => ?_⟩
      cases declared with
      | auto => exact absurd rfl known
      | none | num | tuple | record => rfl
  apply shaped.bind
  rintro shape b _ ⟨rfl, leaves⟩
  exact pieces_emitOperand (fun id mem => names_plain (List.mem_map_of_mem mem))
    fun _ honest => leaves honest

theorem pieces_store (type : NumType) (addr value : ExprId) (offset : Nat) :
    Moves (Pieces (.store type addr value offset)) b (store type addr value offset)
      fun id c => c.arena.Hands (.plain id) := by
  apply (pieces_ask _).bind
  rintro actual b _ ⟨rfl, -⟩
  dsimp only
  split
  · exact Moves.throw
  · refine pieces_emit (fun id mem => names_plain ?_) fun _ _ => rfl
    exact List.mem_map_of_mem (f := Operand.plain) mem

namespace Step

theorem pieces_handOut {m : BodyM ExprId}
    (pieces : Moves (Pieces step) b m fun id c => c.arena.Hands (.plain id)) :
    Moves (Pieces step) b (handOut m) fun handed c => ∀ o ∈ handed, c.arena.Hands o := by
  refine pieces.bind fun id c _ hands => Moves.pure ?_
  rintro o ⟨⟩
  exact hands

theorem pieces_handOperand {m : BodyM Operand}
    (pieces : Moves (Pieces step) b m fun o c => c.arena.Hands o) :
    Moves (Pieces step) b (some <$> m) fun handed c => ∀ o ∈ handed, c.arena.Hands o := by
  rw [← bind_pure_comp]
  refine pieces.bind fun o c _ hands => Moves.pure ?_
  rintro _ ⟨⟩
  exact hands

theorem pieces_handNothing {m : BodyM Unit} (pieces : Moves (Pieces step) b m fun _ _ => True) :
    Moves (Pieces step) b (do m; return none)
      fun (handed : Option Operand) c => ∀ o ∈ handed, c.arena.Hands o :=
  pieces.bind fun _ _ _ _ => Moves.pure nofun

/-- Every step goes on in pieces, and hands out what is there. -/
theorem pieces_run (step : Step) (b : Body) :
    Moves (Pieces step) b step.run fun handed c => ∀ o ∈ handed, c.arena.Hands o := by
  have plain {step : Step} {node : Node} {shape : Shape}
      (named : ∀ child ∈ node.children, Operand.plain child ∈ step.operands)
      (told : ∀ slots, Arena.nodeSlots slots b.arena.size node = .ok shape.flatten) :
      Moves (Pieces step) b (emit node shape) fun id c => c.arena.Hands (.plain id) :=
    pieces_emit (fun child mem => names_plain (named child mem)) fun _ _ => told _
  cases step with
  | read name => exact pieces_handOperand (pieces_read name)
  | write name value => exact pieces_handOut (pieces_write name (List.mem_singleton_self _))
  | assign pairs => exact pieces_handOut (pieces_assign pairs)
  | field operand key => exact pieces_handOperand (pieces_field operand key)
  | giveResult values => exact pieces_handNothing (pieces_giveResult values)
  | exec values => exact pieces_handNothing (pieces_exec values)
  | block values => exact pieces_handOperand (pieces_block values)
  | call callable args => exact pieces_handOperand (pieces_call callable args)
  | literal value type =>
    exact pieces_handOut (pieces_leaf rfl fun _ => by
      simp [Arena.nodeSlots, pure, Except.pure])
  | tuple values => exact pieces_handOperand (pieces_tuple values)
  | record fields => exact pieces_handOperand (pieces_record fields)
  | binary kind left right => exact pieces_handOut (pieces_binary kind left right)
  | unary kind operand => exact pieces_handOut (pieces_unary kind operand)
  | choose declared cond thenItems elseItems =>
    exact pieces_handOperand (pieces_choose declared cond thenItems elseItems)
  | loop init cond step body =>
    exact pieces_handOut (plain (fun _ mem => List.mem_map_of_mem mem) fun _ => rfl)
  | raw node shape =>
    refine pieces_handOperand (pieces_emitOperand (fun id mem => names_plain ?_) fun notRaw => ?_)
    · exact List.mem_map_of_mem mem
    · cases notRaw
  | load type addr offset =>
    exact pieces_handOut (plain (fun _ mem => List.mem_map_of_mem (f := Operand.plain) mem)
      fun _ => rfl)
  | store type addr value offset => exact pieces_handOut (pieces_store type addr value offset)
  | memorySize => exact pieces_handOut (pieces_leaf rfl fun _ => rfl)
  | memoryGrow delta =>
    exact pieces_handOut (plain (fun _ mem => List.mem_map_of_mem (f := Operand.plain) mem)
      fun _ => rfl)

end Step

end Body

end WasmBuilder
