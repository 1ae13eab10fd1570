import WasmBuilder.Proofs.Expr.Slots
import WasmBuilder.Simplify.Constants
import WasmBuilder.Simplify.Unreachable

/-!
Arenas whose labels say what the expressions leave on the stack.

The condition is local: each entry has a label, and its node leaves the slots of this label when
every operand leaves the slots of its own. With operands made before the nodes that use them, the
slots that are really computed are then those of the labels (`Labelled.slots_eq`).

Changes of an arena that keep its labels true are new nodes, new labels for old ones, constants in
place of operations, and shorter statement lists.
-/

set_option autoImplicit false

namespace WasmBuilder.Arena

def labelSlots (a : Arena) (id : ExprId) : Except BuildError (List NumType) :=
  return (← a.label id).flatten

theorem label_eq_ok_iff {a : Arena} {id : ExprId} {shape : Shape} :
    a.label id = .ok shape ↔ ∃ node, a.entries[id]? = some ⟨node, some shape⟩ := by
  simp only [label, bind, Except.bind]
  cases found : a.get id with
  | error e =>
    obtain ⟨outside, _⟩ := get_eq_error_iff.1 found
    have missing : a.entries[id]? = none := Array.getElem?_eq_none outside
    simp [missing]
  | ok entry =>
    rw [get_eq_ok_iff] at found
    obtain ⟨node, label⟩ := entry
    cases label with
    | none => simp [found, throw, throwThe, MonadExceptOf.throw]
    | some other => simp [found, pure, Except.pure]

theorem labelSlots_eq_ok_iff {a : Arena} {id : ExprId} {ts : List NumType} :
    a.labelSlots id = .ok ts ↔ ∃ shape, a.label id = .ok shape ∧ ts = shape.flatten := by
  simp only [labelSlots, bind, Except.bind]
  cases found : a.label id with
  | error e => simp
  | ok shape => simp [pure, Except.pure, eq_comm]

theorem shapeSlots_settled {slots : ExprId → Except BuildError (List NumType)} {id : ExprId}
    {shape : Shape} (told : slots id = .ok shape.flatten) :
    shapeSlots (some id) slots shape = .ok shape.flatten := by
  cases shape with
  | auto => exact told
  | none | num | tuple | record => rfl

/-- Every entry has a label, and the label tells what the node leaves. -/
structure Labelled (a : Arena) : Prop where
  ordered : a.Ordered
  told : ∀ (id : ExprId) (entry : Entry), a.entries[id]? = some entry →
    ∃ shape, entry.label = some shape ∧ nodeSlots a.labelSlots id entry.node = .ok shape.flatten

/-- An arena that came of another one: labels are true, and the slots that old labels tell are the
same as they were. -/
structure Extends (old new : Arena) : Prop where
  labelled : new.Labelled
  size_le : old.size ≤ new.size
  kept : ∀ id < old.size, new.labelSlots id = old.labelSlots id

theorem Labelled.extends_self {a : Arena} (labelled : a.Labelled) : Extends a a :=
  ⟨labelled, Nat.le_refl _, fun _ _ => rfl⟩

theorem Extends.trans {a b c : Arena} (first : Extends a b) (second : Extends b c) :
    Extends a c where
  labelled := second.labelled
  size_le := Nat.le_trans first.size_le second.size_le
  kept id old :=
    (second.kept id (Nat.lt_of_lt_of_le old first.size_le)).trans (first.kept id old)

/-- What an extension of an arena knew before stays known. -/
theorem Extends.tells {a b : Arena} (grown : Extends a b) {id : ExprId} {ts : List NumType}
    (told : a.labelSlots id = .ok ts) : b.labelSlots id = .ok ts := by
  obtain ⟨shape, label, _⟩ := labelSlots_eq_ok_iff.1 told
  obtain ⟨node, entry⟩ := label_eq_ok_iff.1 label
  obtain ⟨old, _⟩ := Array.getElem?_eq_some_iff.1 entry
  exact (grown.kept id old).trans told

theorem lt_size_of_labelSlots {a : Arena} {id : ExprId} {ts : List NumType}
    (told : a.labelSlots id = .ok ts) : id < a.size := by
  obtain ⟨shape, label, _⟩ := labelSlots_eq_ok_iff.1 told
  obtain ⟨node, entry⟩ := label_eq_ok_iff.1 label
  exact (Array.getElem?_eq_some_iff.1 entry).1

theorem labelled_empty : Labelled {} where
  ordered id entry found := by simp at found
  told id entry found := by simp at found

section
variable {a : Arena} (labelled : a.Labelled)

include labelled

theorem Labelled.label_of_lt {id : ExprId} (old : id < a.size) :
    ∃ shape, a.label id = .ok shape := by
  obtain ⟨shape, label, _⟩ := labelled.told id a.entries[id] (Array.getElem?_eq_getElem old)
  refine ⟨shape, label_eq_ok_iff.2 ⟨a.entries[id].node, ?_⟩⟩
  rw [Array.getElem?_eq_getElem old, ← label]

theorem Labelled.labelSlots_of_lt {id : ExprId} (old : id < a.size) :
    ∃ ts, a.labelSlots id = .ok ts := by
  obtain ⟨shape, label⟩ := labelled.label_of_lt old
  exact ⟨shape.flatten, labelSlots_eq_ok_iff.2 ⟨shape, label, rfl⟩⟩

/-- A look that goes as deep as the position of an expression finds the slots of its label. The
induction is on the depth: operands stand at smaller positions. -/
theorem Labelled.slotsWithin_eq {depth : Nat} {id : ExprId} {ts : List NumType}
    (deep : id < depth) (label : a.labelSlots id = .ok ts) : a.slotsWithin depth id = .ok ts := by
  induction depth generalizing id ts with
  | zero => exact absurd deep (Nat.not_lt_zero id)
  | succ depth ih =>
    obtain ⟨shape, labelAt, rfl⟩ := labelSlots_eq_ok_iff.1 label
    obtain ⟨node, entry⟩ := label_eq_ok_iff.1 labelAt
    obtain ⟨other, same, slots⟩ := labelled.told id _ entry
    cases same
    have below : Refined node.children a.labelSlots (a.slotsWithin depth) := by
      intro child mem us told
      have earlier := labelled.ordered id _ entry child mem
      exact ih (Nat.lt_of_lt_of_le earlier (Nat.le_of_lt_succ deep)) told
    exact slotsWithin_succ_eq_ok_iff.2
      ⟨node, node_eq_ok_iff.2 ⟨_, entry⟩, nodeSlots_refined below slots⟩

theorem Labelled.slots_eq {id : ExprId} (old : id < a.size) : a.slots id = a.labelSlots id := by
  obtain ⟨ts, told⟩ := labelled.labelSlots_of_lt old
  rw [told]
  exact labelled.slotsWithin_eq (Nat.lt_succ_of_lt old) told

/-- What a variable takes from an expression occupies the slots of the expression. -/
theorem Labelled.settle_spec {id : ExprId} (old : id < a.size) :
    ∃ shape, a.settle id = .ok shape ∧ a.labelSlots id = .ok shape.flatten := by
  obtain ⟨shape, label⟩ := labelled.label_of_lt old
  have told : a.labelSlots id = .ok shape.flatten := labelSlots_eq_ok_iff.2 ⟨shape, label, rfl⟩
  have slots : a.slots id = .ok shape.flatten := (labelled.slots_eq old).trans told
  obtain ⟨node, entry⟩ := label_eq_ok_iff.1 label
  have infer : a.infer id = .ok shape := by
    simp [Arena.infer, get_eq_ok_iff.2 entry, bind, Except.bind, pure, Except.pure]
  simp only [settle, infer, bind, Except.bind]
  cases shape with
  | auto => exact ⟨.ofSlots [], by simp [slots, pure, Except.pure], told⟩
  | none => exact ⟨.none, rfl, told⟩
  | num t => exact ⟨.num t, rfl, told⟩
  | tuple fields => exact ⟨.tuple fields, rfl, told⟩
  | record fields => exact ⟨.record fields, rfl, told⟩

end

end WasmBuilder.Arena

namespace WasmBuilder

theorem BinOp.type_of_constant? {op : BinOp} {a b v : Value} (done : op.constant? a b = some v) :
    v.type = op.resultType := by
  unfold BinOp.constant? at done
  split at done
  all_goals first
    | contradiction
    | (split at done <;> first | contradiction | (cases done; rfl))

theorem UnOp.type_of_constant? {op : UnOp} {a v : Value} (done : op.constant? a = some v) :
    v.type = op.resultType := by
  unfold UnOp.constant? at done
  split at done <;> first | contradiction | (cases done; rfl)

namespace Arena

theorem labelSlots_congr {a b : Arena} {id : ExprId}
    (same : (b.entries[id]?).map (·.label) = (a.entries[id]?).map (·.label)) :
    b.labelSlots id = a.labelSlots id := by
  have labels : b.label id = a.label id := by
    simp only [label, get]
    cases here : b.entries[id]? <;> cases there : a.entries[id]? <;> simp_all [bind, Except.bind]
  simp only [labelSlots, labels]

theorem labelSlots_push_of_lt {a : Arena} {id : ExprId} (old : id < a.size) (node : Node)
    (label : Option Shape) : (a.push node label).labelSlots id = a.labelSlots id :=
  labelSlots_congr (by rw [entries_push_of_lt old])

theorem labelSlots_push_size (a : Arena) (node : Node) (shape : Shape) :
    (a.push node (some shape)).labelSlots a.size = .ok shape.flatten :=
  labelSlots_eq_ok_iff.2
    ⟨shape, label_eq_ok_iff.2 ⟨node, a.entries_push_size node (some shape)⟩, rfl⟩

theorem nodeSlots_of_foldNode? {a : Arena} {node : Node} {v : Value}
    (folded : a.foldNode? node = some v) (slots : ExprId → Except BuildError (List NumType))
    (id : ExprId) : nodeSlots slots id node = .ok [v.type] := by
  cases node with
  | binary op left right =>
    simp only [foldNode?, Option.bind_eq_bind, Option.bind_eq_some_iff] at folded
    obtain ⟨_, _, _, _, done⟩ := folded
    rw [BinOp.type_of_constant? done]
    rfl
  | unary op operand =>
    simp only [foldNode?, Option.bind_eq_bind, Option.bind_eq_some_iff] at folded
    obtain ⟨_, _, done⟩ := folded
    rw [UnOp.type_of_constant? done]
    rfl
  | const | localGet | localSet | globalGet | globalSet | call | callIndirect | block | group
  | extract | choose | loop | ret | load | store | memorySize | memoryGrow | nop =>
    simp [foldNode?] at folded

section
variable {a : Arena} (labelled : a.Labelled)

include labelled

/-- Adding a node whose label is true, over operands that are there. -/
theorem Labelled.push {node : Node} {shape : Shape} (known : ∀ child ∈ node.children, child < a.size)
    (leaves : nodeSlots a.labelSlots a.size node = .ok shape.flatten) :
    Extends a (a.push node (some shape)) := by
  have kept : ∀ id < a.size, (a.push node (some shape)).labelSlots id = a.labelSlots id :=
    fun id old => labelSlots_push_of_lt old node (some shape)
  have carried : ∀ (id : ExprId) (n : Node) (ts : List NumType), (∀ child ∈ n.children, child < a.size) →
      nodeSlots a.labelSlots id n = .ok ts →
      nodeSlots (a.push node (some shape)).labelSlots id n = .ok ts := by
    intro id n ts children slots
    exact nodeSlots_refined (fun child mem us told => (kept child (children child mem)).trans told) slots
  -- an entry of the new arena is an old one or the new one
  have entry_cases : ∀ (id : ExprId) (entry : Entry),
      (a.push node (some shape)).entries[id]? = some entry →
      (id < a.size ∧ a.entries[id]? = some entry) ∨ (id = a.size ∧ entry = ⟨node, some shape⟩) := by
    intro id entry found
    rcases Nat.lt_trichotomy id a.size with old | rfl | beyond
    · exact .inl ⟨old, (entries_push_of_lt old node (some shape)).symm.trans found⟩
    · rw [entries_push_size] at found
      exact .inr ⟨rfl, (Option.some.inj found).symm⟩
    · have outside : (a.push node (some shape)).entries[id]? = none :=
        Array.getElem?_eq_none (by
          have := a.size_push node (some shape)
          exact Nat.le_trans (Nat.le_of_eq this) beyond)
      rw [outside] at found
      contradiction
  refine ⟨⟨?_, ?_⟩, by simp, kept⟩
  · intro id entry found child mem
    rcases entry_cases id entry found with ⟨_, old⟩ | ⟨rfl, rfl⟩
    · exact labelled.ordered id entry old child mem
    · exact known child mem
  · intro id entry found
    rcases entry_cases id entry found with ⟨inside, old⟩ | ⟨rfl, rfl⟩
    · obtain ⟨label, same, slots⟩ := labelled.told id entry old
      have children : ∀ child ∈ entry.node.children, child < a.size := fun child mem =>
        Nat.lt_trans (labelled.ordered id entry old child mem) inside
      exact ⟨label, same, carried id entry.node label.flatten children slots⟩
    · exact ⟨shape, rfl, carried a.size node shape.flatten known leaves⟩

/-- Another entry in the place of one. It tells the same slots and its node leaves them. -/
theorem Labelled.update {id : ExprId} {entry : Entry} {shape : Shape} (old : id < a.size)
    (label : entry.label = some shape) (same : a.labelSlots id = .ok shape.flatten)
    (earlier : ∀ child ∈ entry.node.children, child < id)
    (leaves : nodeSlots a.labelSlots id entry.node = .ok shape.flatten) :
    Extends a ⟨a.entries.setIfInBounds id entry⟩ := by
  have size : (⟨a.entries.setIfInBounds id entry⟩ : Arena).size = a.size :=
    Array.size_setIfInBounds ..
  have here : (⟨a.entries.setIfInBounds id entry⟩ : Arena).entries[id]? = some entry := by
    simp [show id < a.entries.size from old]
  have there : ∀ other, other ≠ id →
      (⟨a.entries.setIfInBounds id entry⟩ : Arena).entries[other]? = a.entries[other]? := by
    intro other ne
    exact Array.getElem?_setIfInBounds_ne ne.symm
  -- the labels of all others were there before, and the new one tells the same
  have kept : ∀ other, (⟨a.entries.setIfInBounds id entry⟩ : Arena).labelSlots other =
      a.labelSlots other := by
    intro other
    by_cases is : other = id
    · subst is
      rw [same]
      refine labelSlots_eq_ok_iff.2 ⟨shape, label_eq_ok_iff.2 ⟨entry.node, ?_⟩, rfl⟩
      rw [here, ← label]
    · exact labelSlots_congr (by rw [there other is])
  have slots : (⟨a.entries.setIfInBounds id entry⟩ : Arena).labelSlots = a.labelSlots := funext kept
  refine ⟨⟨?_, ?_⟩, Nat.le_of_eq size.symm, fun other _ => kept other⟩
  · intro other e found child mem
    by_cases is : other = id
    · subst is
      rw [here] at found
      cases found
      exact earlier child mem
    · rw [there other is] at found
      exact labelled.ordered other e found child mem
  · intro other e found
    rw [slots]
    by_cases is : other = id
    · subst is
      rw [here] at found
      cases found
      exact ⟨shape, label, leaves⟩
    · rw [there other is] at found
      exact labelled.told other e found

/-- Another label that tells the same slots. -/
theorem Labelled.relabel {id : ExprId} {shape : Shape}
    (same : a.labelSlots id = .ok shape.flatten) :
    ∃ b, a.relabel id shape = .ok b ∧ Extends a b := by
  obtain ⟨other, label, flat⟩ := labelSlots_eq_ok_iff.1 same
  obtain ⟨node, entry⟩ := label_eq_ok_iff.1 label
  obtain ⟨old, _⟩ := Array.getElem?_eq_some_iff.1 entry
  obtain ⟨_, is, leaves⟩ := labelled.told id _ entry
  cases is
  refine ⟨⟨a.entries.setIfInBounds id ⟨node, some shape⟩⟩, ?_, ?_⟩
  · simp [Arena.relabel, get_eq_ok_iff.2 entry, bind, Except.bind, pure, Except.pure]
  · refine labelled.update old rfl same (labelled.ordered id ⟨node, some other⟩ entry) ?_
    exact leaves.trans (congrArg Except.ok flat.symm)

theorem Labelled.foldAt (count : Nat) (id : ExprId) :
    Extends a (foldAt (a, count) id).1 := by
  simp only [Arena.foldAt]
  cases entry : a.entries[id]? with
  | none => exact labelled.extends_self
  | some e =>
    cases folded : a.foldNode? e.node with
    | none =>
      simp only [folded]
      exact labelled.extends_self
    | some v =>
      simp only [folded]
      obtain ⟨shape, label, leaves⟩ := labelled.told id e entry
      have flat : shape.flatten = [v.type] :=
        Except.ok.inj (leaves.symm.trans (nodeSlots_of_foldNode? folded a.labelSlots id))
      have same : a.labelSlots id = .ok shape.flatten :=
        labelSlots_eq_ok_iff.2 ⟨shape, label_eq_ok_iff.2 ⟨e.node, by rw [entry, ← label]⟩, rfl⟩
      obtain ⟨old, _⟩ := Array.getElem?_eq_some_iff.1 entry
      refine labelled.update old label same ?_ ?_
      · simp [Node.children]
      · rw [flat]
        rfl

/-- Carrying out constants keeps labels true, at every step of the sweep. -/
theorem Labelled.foldConstants : Extends a a.foldConstants.1 := by
  have sweep : ∀ (ids : List ExprId) (b : Arena) (count : Nat), b.Labelled →
      Extends b (ids.foldl Arena.foldAt (b, count)).1 := by
    intro ids
    induction ids with
    | nil => exact fun b count labelled => labelled.extends_self
    | cons id rest ih =>
      intro b count labelled
      have first := labelled.foldAt count id
      exact first.trans (ih _ _ first.labelled)
  exact sweep (List.range a.size) a 0 labelled

end

end Arena

end WasmBuilder
