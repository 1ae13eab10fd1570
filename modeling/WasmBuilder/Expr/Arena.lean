import WasmBuilder.Error
import WasmBuilder.Expr.Node

/-!
The arena of all expressions of a build, and what is known about their values.

An entry may carry a shape as a label. `Arena.slots` is what an expression leaves on the machine's
stack, computed from the nodes alone; `Arena.infer` is the label, or the shape that the node has by
itself; `Arena.settle` is the shape that a variable or a result takes from the expression.
-/

set_option autoImplicit false

namespace WasmBuilder

/-- A node and the shape it is labelled with. -/
structure Entry where
  node : Node
  label : Option Shape
  deriving DecidableEq

/-- Expressions in the order they were made. A handle is a position and never changes. -/
structure Arena where
  entries : Array Entry := #[]

namespace Arena

def size (a : Arena) : Nat := a.entries.size

def push (a : Arena) (node : Node) (label : Option Shape) : Arena :=
  ⟨a.entries.push ⟨node, label⟩⟩

@[simp] theorem size_push (a : Arena) (node : Node) (label : Option Shape) :
    (a.push node label).size = a.size + 1 := Array.size_push ..

@[simp] theorem entries_push_size (a : Arena) (node : Node) (label : Option Shape) :
    (a.push node label).entries[a.size]? = some ⟨node, label⟩ := Array.getElem?_push_size

theorem entries_push_of_lt {a : Arena} {id : ExprId} (old : id < a.size) (node : Node)
    (label : Option Shape) : (a.push node label).entries[id]? = a.entries[id]? := by
  have ne : id ≠ a.entries.size := Nat.ne_of_lt old
  simp [push, Array.getElem?_push, ne]

def get (a : Arena) (id : ExprId) : Except BuildError Entry :=
  match a.entries[id]? with
  | some entry => .ok entry
  | none => .error (.unknownExpression id)

theorem get_eq_ok_iff {a : Arena} {id : ExprId} {entry : Entry} :
    a.get id = .ok entry ↔ a.entries[id]? = some entry := by
  unfold get
  split
  next found => rw [found, Except.ok.injEq, Option.some.injEq]
  next missing => simp [missing]

theorem get_eq_error_iff {a : Arena} {id : ExprId} {e : BuildError} :
    a.get id = .error e ↔ a.size ≤ id ∧ e = .unknownExpression id := by
  unfold get
  split
  next found =>
    obtain ⟨old, _⟩ := Array.getElem?_eq_some_iff.1 found
    have : ¬ a.size ≤ id := Nat.not_le.2 old
    simp [this]
  next missing =>
    have : a.size ≤ id := Array.getElem?_eq_none_iff.1 missing
    simp [this, eq_comm]

def node (a : Arena) (id : ExprId) : Except BuildError Node := (·.node) <$> a.get id

def replace (a : Arena) (id : ExprId) (node : Node) : Except BuildError Arena := do
  let entry ← a.get id
  return ⟨a.entries.setIfInBounds id { entry with node }⟩

def relabel (a : Arena) (id : ExprId) (shape : Shape) : Except BuildError Arena := do
  let entry ← a.get id
  return ⟨a.entries.setIfInBounds id { entry with label := some shape }⟩

def label (a : Arena) (id : ExprId) : Except BuildError Shape := do
  match (← a.get id).label with
  | some shape => return shape
  | none => throw (.unknownExpression id)

def labelOrNone (a : Arena) (id : ExprId) : Shape :=
  (a.entries[id]?.bind (·.label)).getD .none

/-- The shape of an expression as far as its label or its own form tells. -/
def infer (a : Arena) (id : ExprId) : Except BuildError Shape := do
  let entry ← a.get id
  match entry.label <|> entry.node.intrinsicShape? with
  | some shape => return shape
  | none => throw (.unknownExpression id)

def shapeSlots (last : Option ExprId) (slots : ExprId → Except BuildError (List NumType)) :
    Shape → Except BuildError (List NumType)
  | .auto =>
    match last with
    | some id => slots id
    | none => return []
  | shape => return shape.flatten

def concatSlots (slots : ExprId → Except BuildError (List NumType)) :
    List ExprId → Except BuildError (List NumType)
  | [] => return []
  | id :: rest => do return (← slots id) ++ (← concatSlots slots rest)

/-- What a node leaves on the stack, given what its operands leave. -/
def nodeSlots (slots : ExprId → Except BuildError (List NumType)) (id : ExprId) :
    Node → Except BuildError (List NumType)
  | .const v => return [v.type]
  | .localGet _ shape | .globalGet _ shape => return shape.flatten
  | .localSet .. | .globalSet .. | .store .. | .loop .. | .ret _ | .nop => return []
  | .binary op _ _ => return [op.resultType]
  | .unary op _ => return [op.resultType]
  | .call _ _ signature | .callIndirect _ _ signature => return signature.results
  | .block items shape => shapeSlots items.getLast? slots shape
  | .group items => concatSlots slots items
  | .extract composite _ offset width => do
    let all ← slots composite
    if offset + width ≤ all.length then return (all.drop offset).take width
    else throw (.unknownExpression id)
  | .choose _ thenItems _ shape => shapeSlots thenItems.getLast? slots shape
  | .load t _ _ => return [t]
  | .memorySize | .memoryGrow _ => return [.i32]

def slotsWithin (a : Arena) : (depth : Nat) → ExprId → Except BuildError (List NumType)
  | 0, id => .error (.endlessExpression id)
  | depth + 1, id => do nodeSlots (a.slotsWithin depth) id (← a.node id)

/-- An operand path through an arena without cycles meets each expression once, and then perhaps
a handle that is not there. -/
def pathBound (a : Arena) : Nat := a.size + 1

def slots (a : Arena) (id : ExprId) : Except BuildError (List NumType) :=
  a.slotsWithin a.pathBound id

/-- The shape of a value that flows into a variable or result which is not typed yet. Groupings of
open shape take the slots they really leave. -/
def settle (a : Arena) (id : ExprId) : Except BuildError Shape := do
  match ← a.infer id with
  | .auto => return .ofSlots (← a.slots id)
  | shape => return shape

/-- Every operand of every node was made before it. -/
def Ordered (a : Arena) : Prop :=
  ∀ (id : ExprId) (entry : Entry), a.entries[id]? = some entry →
    ∀ child ∈ entry.node.children, child < id

theorem ordered_iff {a : Arena} : a.Ordered ↔
    ∀ i : Fin a.entries.size, ∀ child ∈ a.entries[i].node.children, child < i := by
  constructor
  · exact fun ordered i => ordered i a.entries[i] (Array.getElem?_eq_getElem i.isLt)
  · intro below id entry here child mem
    obtain ⟨inside, rfl⟩ := Array.getElem?_eq_some_iff.1 here
    exact below ⟨id, inside⟩ child mem

instance (a : Arena) : Decidable a.Ordered := decidable_of_iff _ ordered_iff.symm

end Arena

end WasmBuilder
