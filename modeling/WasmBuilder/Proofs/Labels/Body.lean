import WasmBuilder.Proofs.Session
import WasmBuilder.Proofs.Labels.Fields
import WasmBuilder.Proofs.Labels.Keeps

/-!
Steps of a body keep the labels of its expressions true.

Every step but the one that adds a node with any label is shown to extend the arena, and what it
hands out leaves the slots through which its fields are reached.
-/

set_option autoImplicit false

namespace WasmBuilder

instance : HasArena Body := ⟨Body.arena⟩

namespace Body

open Arena (Extends labelSlots nodeSlots Knows)

variable {b : Body} (labelled : b.arena.Labelled)

include labelled

theorem keeps_ask {α : Type} (question : Body → Except BuildError α) :
    Keeps b (ask question) fun x t => t = b ∧ question b = .ok x := by
  apply Keeps.get_bind
  cases question b with
  | ok x => exact Keeps.pure labelled ⟨rfl, rfl⟩
  | error e => exact Keeps.throw labelled

theorem keeps_emit {node : Node} {shape : Shape} (known : ∀ child ∈ node.children, child < b.arena.size)
    (leaves : nodeSlots b.arena.labelSlots b.arena.size node = .ok shape.flatten) :
    Keeps b (emit node shape) fun id t => t.arena.labelSlots id = .ok shape.flatten := by
  exact ⟨labelled.push known leaves, b.arena.labelSlots_push_size node shape⟩

theorem keeps_emitOperand {node : Node} {shape : Shape}
    (known : ∀ child ∈ node.children, child < b.arena.size)
    (leaves : nodeSlots b.arena.labelSlots b.arena.size node = .ok shape.flatten) :
    Keeps b (emitOperand node shape) fun o t => t.arena.Knows o := by
  refine (keeps_emit labelled known leaves).bind fun id t grown told => ?_
  exact Keeps.pure grown.labelled (Arena.knows_ofShape told)

theorem keeps_settle {id : ExprId} (old : id < b.arena.size) :
    Keeps b (settle id) fun shape t => t = b ∧ b.arena.labelSlots id = .ok shape.flatten := by
  refine (keeps_ask labelled fun b => b.arena.settle id).weaken ?_
  rintro shape t _ ⟨rfl, answer⟩
  obtain ⟨settled, same, told⟩ := labelled.settle_spec old
  have is : settled = shape := Except.ok.inj (same.symm.trans answer)
  exact ⟨rfl, is ▸ told⟩

theorem keeps_settle_all {ids : List ExprId} (old : ∀ id ∈ ids, id < b.arena.size) :
    Keeps b (ids.mapM settle) fun shapes t =>
      List.Forall₂ (fun id (shape : Shape) => t.arena.labelSlots id = .ok shape.flatten) ids shapes :=
  Keeps.mapM (P := fun id (shape : Shape) a => a.labelSlots id = .ok shape.flatten)
    (fun _ _ _ _ grown told => grown.tells told) labelled fun id mem t grown => by
      refine (keeps_settle grown.labelled (Nat.lt_of_lt_of_le (old id mem) grown.size_le)).weaken ?_
      rintro shape u _ ⟨rfl, told⟩
      exact told

omit labelled in
theorem arena_setScope (storage : Storage) (s : Scope) : (b.setScope storage s).arena = b.arena := by
  cases storage <;> rfl

theorem keeps_setScope (f : Body → Scope) (storage : Storage) :
    Keeps b (modify fun b => b.setScope storage (f b)) fun _ t => t.arena = b.arena := by
  refine Keeps.modify ?_ (arena_setScope storage (f b))
  show Extends b.arena (b.setScope storage (f b)).arena
  rw [arena_setScope]
  exact labelled.extends_self

theorem keeps_bindTarget (name : String) {value : ExprId} (old : value < b.arena.size) :
    Keeps b (bindTarget name value) fun _ _ => True := by
  apply Keeps.get_bind
  split
  next storage index slot _ =>
    split
    · refine (keeps_settle labelled old).bind fun shape t grown _ => ?_
      refine (keeps_setScope grown.labelled _ storage).bind fun _ u more _ => ?_
      exact Keeps.pure more.labelled trivial
    · refine (keeps_ask labelled _).bind ?_
      rintro _ b _ ⟨rfl, _⟩
      show Keeps b (if (b.incoming value).isOpen || (b.incoming value).lowersLike slot.shape then _ else _) _
      split
      · exact Keeps.pure labelled trivial
      · exact Keeps.throw labelled
  next =>
    refine (keeps_settle labelled old).bind fun shape t grown _ => ?_
    refine Keeps.get_bind (Keeps.get_bind ?_)
    refine (keeps_setScope grown.labelled _ _).bind fun _ u more _ => ?_
    exact Keeps.pure more.labelled trivial

theorem keeps_write (name : String) {value : ExprId} (old : value < b.arena.size) :
    Keeps b (write name value) fun id t => t.arena.labelSlots id = .ok [] := by
  refine (keeps_bindTarget labelled name old).bind fun target t grown _ => ?_
  obtain ⟨storage, index, shape⟩ := target
  have known : value < t.arena.size := Nat.lt_of_lt_of_le old grown.size_le
  refine keeps_emit grown.labelled ?_ ?_
  · cases storage <;> simpa [writeNode, Node.children] using known
  · cases storage <;> rfl

theorem keeps_assign {pairs : List (String × ExprId)} (old : ∀ p ∈ pairs, p.2 < b.arena.size) :
    Keeps b (assign pairs) fun id t => t.arena.labelSlots id = .ok [] := by
  have writes : Keeps b (pairs.mapM fun p => write p.1 p.2) fun ids t =>
      List.Forall₂ (fun _ id => t.arena.labelSlots id = .ok []) pairs ids :=
    Keeps.mapM (P := fun _ id a => a.labelSlots id = .ok [])
      (fun _ _ _ _ grown told => grown.tells told) labelled fun p mem t grown =>
        keeps_write grown.labelled p.1 (Nat.lt_of_lt_of_le (old p mem) grown.size_le)
  refine writes.bind fun ids t grown found => ?_
  have nothing : ∀ id ∈ ids, t.arena.labelSlots id = .ok [] := by
    clear writes old
    induction found with
    | nil => intro id mem; cases mem
    | cons told _ ih => exact List.forall_mem_cons.2 ⟨told, ih⟩
  refine keeps_emit grown.labelled (fun id mem => Arena.lt_size_of_labelSlots (nothing id mem)) ?_
  show Arena.shapeSlots ids.getLast? _ .auto = _
  cases last : ids.getLast? with
  | none => rfl
  | some id => exact nothing id (List.mem_of_getLast? last)

omit labelled in
theorem concatSlots_settled {a : Arena} {ids : List ExprId} {shapes : List Shape}
    (found : List.Forall₂ (fun id (shape : Shape) => a.labelSlots id = .ok shape.flatten) ids shapes) :
    Arena.concatSlots a.labelSlots ids = .ok (shapes.flatMap Shape.flatten) := by
  induction found with
  | nil => rfl
  | cons told _ ih => exact Arena.concatSlots_cons_eq_ok_iff.2 ⟨_, _, told, ih, rfl⟩

theorem keeps_field {operand : Operand} (known : b.arena.Knows operand) (key : FieldKey) :
    Keeps b (field operand key) fun o t => t.arena.Knows o := by
  refine (keeps_ask labelled _).bind ?_
  rintro ⟨result, arena⟩ b _ ⟨rfl, answer⟩
  obtain ⟨grown, knows⟩ := labelled.field known answer
  have kept : Keeps b (modify fun b => { b with arena }) fun _ t => t.arena.Knows result :=
    Keeps.modify grown knows
  exact kept.bind fun _ t more known => Keeps.pure more.labelled known

theorem keeps_append (items : List ExprId) : Keeps b (append items) fun _ t => t.arena = b.arena :=
  Keeps.modify labelled.extends_self rfl

/-- The statements that end a body: the values but the last one, and the return of the last. -/
theorem keeps_ending {values : List ExprId} {last : ExprId} (old : last < b.arena.size) :
    Keeps b (do
      append values.dropLast
      append [← emit (.ret (some last)) .none]) fun _ _ => True := by
  refine (keeps_append labelled _).bind fun _ t grown _ => ?_
  have known : last < t.arena.size := Nat.lt_of_lt_of_le old grown.size_le
  refine (keeps_emit grown.labelled (by simpa [Node.children] using known) rfl).bind ?_
  exact fun id u more _ => (keeps_append more.labelled [id]).weaken fun _ _ _ _ => trivial

theorem keeps_giveResult {values : List ExprId} (old : ∀ id ∈ values, id < b.arena.size) :
    Keeps b (giveResult values) fun _ _ => True := by
  unfold giveResult
  cases isLast : values.getLast? with
  | none => exact Keeps.throw labelled
  | some last =>
    have known : last < b.arena.size := old last (List.mem_of_getLast? isLast)
    refine (keeps_settle labelled known).bind ?_
    rintro actual b _ ⟨rfl, told⟩
    refine Keeps.get_bind ?_
    dsimp only
    split
    · -- the first result: the value is labelled anew, with what it settled to
      refine (keeps_ask labelled _).bind ?_
      rintro arena b _ ⟨rfl, answer⟩
      obtain ⟨next, relabelled, grown⟩ := labelled.relabel told
      have is : next = arena := Except.ok.inj (relabelled.symm.trans answer)
      subst is
      have kept : Keeps b (modify fun b => { b with arena := next, result := actual })
          fun _ t => t.arena = next := Keeps.modify grown rfl
      refine kept.bind fun _ t more _ => ?_
      exact keeps_ending more.labelled (Nat.lt_of_lt_of_le known more.size_le)
    · split
      · exact (Keeps.throw labelled (Q := fun _ _ => True)).bind fun _ t more _ =>
          keeps_ending more.labelled (Nat.lt_of_lt_of_le known more.size_le)
      · exact keeps_ending labelled known

theorem keeps_exec (values : List ExprId) : Keeps b (exec values) fun _ _ => True := by
  unfold exec
  split
  · exact Keeps.throw labelled
  · exact (keeps_append labelled values).weaken fun _ _ _ _ => trivial

theorem keeps_block {values : List ExprId} (old : ∀ id ∈ values, id < b.arena.size) :
    Keeps b (block values) fun o t => t.arena.Knows o := by
  unfold block
  cases last : values.getLast? with
  | none => exact Keeps.throw labelled
  | some id =>
    refine (keeps_settle labelled (old id (List.mem_of_getLast? last))).bind ?_
    rintro shape b _ ⟨rfl, told⟩
    exact keeps_emitOperand labelled old (by
      show Arena.shapeSlots values.getLast? _ shape = _
      rw [last]
      exact Arena.shapeSlots_settled told)

theorem keeps_literal (value : Number) (type : NumType) :
    Keeps b (literal value type) fun id t => t.arena.labelSlots id = .ok [type] := by
  refine keeps_emit labelled (by simp [Node.children]) ?_
  simp [Arena.nodeSlots, pure, Except.pure]

/-- The call of a function that is known, directly or through its slot. -/
theorem keeps_reach (c : Callable) {args : List ExprId} (old : ∀ id ∈ args, id < b.arena.size) :
    Keeps b (match c.kind with
      | .indirect slot => do
        let index ← i32 slot
        emitOperand (.callIndirect index args c.signature) c.result
      | .direct | .external => emitOperand (.call c.func args c.signature) c.result)
      fun o t => t.arena.Knows o := by
  have direct : Keeps b (emitOperand (.call c.func args c.signature) c.result)
      fun o t => t.arena.Knows o := keeps_emitOperand labelled old rfl
  cases c.kind with
  | direct => exact direct
  | external => exact direct
  | indirect slot =>
    refine (keeps_literal labelled _ .i32).bind fun index t grown told => ?_
    refine keeps_emitOperand grown.labelled ?_ rfl
    intro id mem
    rcases List.mem_append.1 mem with arg | isIndex
    · exact Nat.lt_of_lt_of_le (old id arg) grown.size_le
    · rw [List.mem_singleton.1 isIndex]
      exact Arena.lt_size_of_labelSlots told

theorem keeps_call (callable : Nat) {args : List ExprId} (old : ∀ id ∈ args, id < b.arena.size) :
    Keeps b (call callable args) fun o t => t.arena.Knows o := by
  refine Keeps.get_bind ?_
  cases b.callables[callable]? with
  | none => exact Keeps.throw labelled
  | some c =>
    dsimp only
    split
    · exact (Keeps.throw labelled (Q := fun _ _ => True)).bind fun _ _ more _ =>
        keeps_reach more.labelled c (fun id mem => Nat.lt_of_lt_of_le (old id mem) more.size_le)
    · exact keeps_reach labelled c old

theorem keeps_tuple {values : List ExprId} (old : ∀ id ∈ values, id < b.arena.size) :
    Keeps b (tuple values) fun o t => t.arena.Knows o := by
  refine (keeps_settle_all labelled old).bind fun shapes t grown found => ?_
  refine keeps_emitOperand grown.labelled ?_ ?_
  · exact fun id mem => Nat.lt_of_lt_of_le (old id mem) grown.size_le
  · rw [Shape.flatten_tuple]
    exact concatSlots_settled found

theorem keeps_record {fields : List (String × ExprId)} (old : ∀ f ∈ fields, f.2 < b.arena.size) :
    Keeps b (record fields) fun o t => t.arena.Knows o := by
  have settled : Keeps b (fields.mapM fun f => settle f.2) fun shapes t =>
      List.Forall₂ (fun (f : String × ExprId) (shape : Shape) =>
        t.arena.labelSlots f.2 = .ok shape.flatten) fields shapes :=
    Keeps.mapM (P := fun (f : String × ExprId) (shape : Shape) a => a.labelSlots f.2 = .ok shape.flatten)
      (fun _ _ _ _ grown told => grown.tells told) labelled fun f mem t grown => by
        refine (keeps_settle grown.labelled (Nat.lt_of_lt_of_le (old f mem) grown.size_le)).weaken ?_
        rintro shape u _ ⟨rfl, told⟩
        exact told
  refine settled.bind fun shapes t grown found => ?_
  refine keeps_emitOperand grown.labelled ?_ ?_
  · intro id mem
    obtain ⟨f, field, rfl⟩ := List.mem_map.1 mem
    exact Nat.lt_of_lt_of_le (old f field) grown.size_le
  · have named : (Shape.record ((fields.map (·.1)).zip shapes)).flatten =
        shapes.flatMap Shape.flatten := by
      have same : (fields.map (·.1)).length = shapes.length := by
        rw [List.length_map, found.length_eq]
      rw [Shape.flatten_record, ← List.flatMap_map, List.map_snd_zip (Nat.le_of_eq same.symm)]
    rw [named]
    exact concatSlots_settled (List.forall₂_map_left_iff.2 found)

theorem keeps_read (name : String) : Keeps b (read name) fun o t => t.arena.Knows o := by
  refine Keeps.get_bind ?_
  split
  next storage index slot _ =>
    split
    · exact Keeps.throw labelled
    · refine keeps_emitOperand labelled ?_ ?_
      · cases storage <;> simp [readNode, Node.children]
      · cases storage <;> rfl
  next => exact Keeps.throw labelled

theorem keeps_binary (kind : BinaryKind) {left right : ExprId} (oldLeft : left < b.arena.size)
    (oldRight : right < b.arena.size) :
    Keeps b (binary kind left right) fun id t => t.arena.Knows (.plain id) := by
  refine (keeps_ask labelled _).bind ?_
  rintro leftType b _ ⟨rfl, _⟩
  refine (keeps_ask labelled _).bind ?_
  rintro rightType b _ ⟨rfl, _⟩
  dsimp only
  split
  · exact Keeps.throw labelled
  · cases kind.select leftType with
    | none => exact Keeps.throw labelled
    | some op =>
      refine (keeps_emit labelled ?_ rfl).weaken fun _ _ _ told => Arena.knows_plain told
      simp [Node.children, oldLeft, oldRight]

theorem keeps_unary (kind : UnaryKind) {operand : ExprId} (old : operand < b.arena.size) :
    Keeps b (unary kind operand) fun id t => t.arena.Knows (.plain id) := by
  refine (keeps_ask labelled _).bind ?_
  rintro type b _ ⟨rfl, _⟩
  split
  next op _ =>
    refine (keeps_emit labelled ?_ rfl).weaken fun _ _ _ told => Arena.knows_plain told
    simp [Node.children, old]
  next => exact Keeps.throw labelled

theorem keeps_choose (declared : Shape) {cond : ExprId} {thenItems elseItems : List ExprId}
    (oldCond : cond < b.arena.size) (oldThen : ∀ id ∈ thenItems, id < b.arena.size)
    (oldElse : ∀ id ∈ elseItems, id < b.arena.size) :
    Keeps b (choose declared cond thenItems elseItems) fun o t => t.arena.Knows o := by
  have shaped : Keeps b (chooseShape declared thenItems) fun shape t =>
      Arena.shapeSlots thenItems.getLast? t.arena.labelSlots shape = .ok shape.flatten := by
    unfold chooseShape
    split
    · cases last : thenItems.getLast? with
      | none => exact Keeps.pure labelled rfl
      | some id =>
        refine (keeps_settle labelled (oldThen id (List.mem_of_getLast? last))).weaken ?_
        rintro shape t _ ⟨rfl, told⟩
        exact Arena.shapeSlots_settled told
    next closed =>
      refine Keeps.pure labelled ?_
      cases declared with
      | auto => exact absurd rfl closed
      | none | num | tuple | record => rfl
  refine shaped.bind fun shape t grown leaves => ?_
  refine keeps_emitOperand grown.labelled ?_ leaves
  have known : ∀ id ∈ cond :: thenItems ++ elseItems, id < b.arena.size := by
    simpa [or_imp, forall_and] using ⟨oldCond, oldThen, oldElse⟩
  exact fun id mem => Nat.lt_of_lt_of_le (known id mem) grown.size_le

theorem keeps_loop {init step body : List ExprId} {cond : ExprId}
    (old : ∀ id ∈ init ++ cond :: body ++ step, id < b.arena.size) :
    Keeps b (loop init cond step body) fun id t => t.arena.labelSlots id = .ok [] :=
  keeps_emit labelled old rfl

theorem keeps_load (type : NumType) {addr : ExprId} (offset : Nat) (old : addr < b.arena.size) :
    Keeps b (load type addr offset) fun id t => t.arena.labelSlots id = .ok [type] :=
  keeps_emit labelled (by simpa [Node.children] using old) rfl

theorem keeps_store (type : NumType) {addr value : ExprId} (offset : Nat)
    (oldAddr : addr < b.arena.size) (oldValue : value < b.arena.size) :
    Keeps b (store type addr value offset) fun id t => t.arena.labelSlots id = .ok [] := by
  refine (keeps_ask labelled _).bind ?_
  rintro actual b _ ⟨rfl, _⟩
  dsimp only
  split
  · exact Keeps.throw labelled
  · exact keeps_emit labelled (by simp [Node.children, oldAddr, oldValue]) rfl

theorem keeps_memorySize : Keeps b memorySize fun id t => t.arena.labelSlots id = .ok [.i32] :=
  keeps_emit labelled (by simp [Node.children]) rfl

theorem keeps_memoryGrow {delta : ExprId} (old : delta < b.arena.size) :
    Keeps b (memoryGrow delta) fun id t => t.arena.labelSlots id = .ok [.i32] :=
  keeps_emit labelled (by simpa [Node.children] using old) rfl

omit labelled in
theorem keeps_handOut {step : BodyM ExprId} {Q : ExprId → Body → Prop}
    (keeps : Keeps b step Q) (known : ∀ id t, Q id t → t.arena.Knows (.plain id)) :
    Keeps b (Step.handOut step) fun handed t => ∀ o ∈ handed, t.arena.Knows o := by
  refine keeps.bind fun id t grown holds => Keeps.pure grown.labelled ?_
  rintro o ⟨⟩
  exact known id t holds

omit labelled in
theorem keeps_handOperand {step : BodyM Operand} (keeps : Keeps b step fun o t => t.arena.Knows o) :
    Keeps b (some <$> step) fun handed t => ∀ o ∈ handed, t.arena.Knows o := by
  have run : some <$> step = step >>= fun o => pure (some o) := (bind_pure_comp some step).symm
  rw [run]
  refine keeps.bind fun o t grown known => Keeps.pure grown.labelled ?_
  rintro _ ⟨⟩
  exact known

omit labelled in
theorem keeps_handNothing {step : BodyM Unit} (keeps : Keeps b step fun _ _ => True) :
    Keeps b (do step; return none) fun (handed : Option Operand) t => ∀ o ∈ handed, t.arena.Knows o :=
  keeps.bind fun _ _ grown _ => Keeps.pure grown.labelled fun o none => by cases none

/-- Every step but a raw one keeps labels true, when it takes operands that are known. -/
theorem Step.keeps_run {step : Step} (notRaw : step.isRaw = false)
    (known : ∀ o ∈ step.operands, b.arena.Knows o) :
    Keeps b step.run fun handed t => ∀ o ∈ handed, t.arena.Knows o := by
  have old (id : ExprId) (mem : Operand.plain id ∈ step.operands) : id < b.arena.size := by
    obtain ⟨ts, told, _⟩ := known _ mem
    exact Arena.lt_size_of_labelSlots told
  have plain : ∀ {ts : List NumType} (id : ExprId) (t : Body),
      t.arena.labelSlots id = .ok ts → t.arena.Knows (.plain id) :=
    fun _ _ told => Arena.knows_plain told
  cases step with
  | read name => exact keeps_handOperand (keeps_read labelled name)
  | write name value => exact keeps_handOut (keeps_write labelled name (old value (by simp [operands]))) plain
  | assign pairs =>
    refine keeps_handOut (keeps_assign labelled fun p mem => old p.2 ?_) plain
    exact List.mem_map.2 ⟨p, mem, rfl⟩
  | field operand key =>
    exact keeps_handOperand (keeps_field labelled (known operand (by simp [operands])) key)
  | giveResult values =>
    refine keeps_handNothing (keeps_giveResult labelled fun id mem => old id ?_)
    exact List.mem_map.2 ⟨id, mem, rfl⟩
  | exec values => exact keeps_handNothing (keeps_exec labelled values)
  | block values =>
    refine keeps_handOperand (keeps_block labelled fun id mem => old id ?_)
    exact List.mem_map.2 ⟨id, mem, rfl⟩
  | call callable args =>
    refine keeps_handOperand (keeps_call labelled callable fun id mem => old id ?_)
    exact List.mem_map.2 ⟨id, mem, rfl⟩
  | literal value type => exact keeps_handOut (keeps_literal labelled value type) plain
  | tuple values =>
    refine keeps_handOperand (keeps_tuple labelled fun id mem => old id ?_)
    exact List.mem_map.2 ⟨id, mem, rfl⟩
  | record fields =>
    refine keeps_handOperand (keeps_record labelled fun f mem => old f.2 ?_)
    exact List.mem_map.2 ⟨f, mem, rfl⟩
  | binary kind left right =>
    exact keeps_handOut (keeps_binary labelled kind (old left (by simp [operands]))
      (old right (by simp [operands]))) fun _ _ known => known
  | unary kind operand =>
    exact keeps_handOut (keeps_unary labelled kind (old operand (by simp [operands])))
      fun _ _ known => known
  | choose declared cond thenItems elseItems =>
    refine keeps_handOperand (keeps_choose labelled declared (old cond (by simp [operands]))
      (fun id mem => old id ?_) fun id mem => old id ?_)
    · simp [operands, mem]
    · simp [operands, mem]
  | loop init cond step body =>
    refine keeps_handOut (keeps_loop labelled fun id mem => old id ?_) plain
    exact List.mem_map.2 ⟨id, mem, rfl⟩
  | raw node shape => cases notRaw
  | load type addr offset =>
    exact keeps_handOut (keeps_load labelled type offset (old addr (by simp [operands]))) plain
  | store type addr value offset =>
    exact keeps_handOut (keeps_store labelled type offset (old addr (by simp [operands]))
      (old value (by simp [operands]))) plain
  | memorySize => exact keeps_handOut (keeps_memorySize labelled) plain
  | memoryGrow delta =>
    exact keeps_handOut (keeps_memoryGrow labelled (old delta (by simp [operands]))) plain

end Body

end WasmBuilder
