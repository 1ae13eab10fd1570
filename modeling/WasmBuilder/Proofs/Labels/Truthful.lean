import WasmBuilder.Proofs.Course.Nodes
import WasmBuilder.Proofs.Labels.Arena
import WasmBuilder.Proofs.Labels.Simplify
import WasmBuilder.Proofs.Variables.Binding

/-!
Labels that are true, in whatever order expressions stand.

What an expression leaves is found by following its operands, and it stays the same when nodes are
added, expressions are labelled anew, or a build is simplified. So a label that was true once stays
true, even where expressions name operands that are made later, or some that are labelled wrongly.
-/

set_option autoImplicit false

namespace WasmBuilder.Arena

structure Retains (a c : Arena) : Prop where
  size_le : a.size ≤ c.size
  slots : ∀ (id : ExprId) (ts : List NumType), a.slots id = .ok ts → c.slots id = .ok ts

def Tells (a : Arena) (id : ExprId) : Prop :=
  ∃ shape, a.label id = .ok shape ∧ a.slots id = .ok shape.flatten

def Truthful (a : Arena) (first : ExprId) : Prop := ∀ id < a.size, first ≤ id → a.Tells id

namespace Retains

variable {a b c : Arena}

theorem refl (a : Arena) : Retains a a := ⟨Nat.le_refl _, fun _ _ found => found⟩

theorem trans (first : Retains a b) (second : Retains b c) : Retains a c :=
  ⟨Nat.le_trans first.size_le second.size_le,
    fun id ts found => second.slots id ts (first.slots id ts found)⟩

instance : IsPreorder Arena Retains where
  refl := refl
  trans _ _ _ := trans

end Retains

variable {a c : Arena} {id : ExprId} {shape : Shape}

theorem Continues.retains (continues : a.Continues c) : a.Retains c := by
  refine ⟨continues.size_le, fun id ts found => ?_⟩
  exact slotsWithin_mono (Nat.succ_le_succ continues.size_le) (continues.slotsWithin found)

theorem lt_size_of_label (label : a.label id = .ok shape) : id < a.size := by
  obtain ⟨_, entry⟩ := label_eq_ok_iff.1 label
  exact (Array.getElem?_eq_some_iff.1 entry).1

theorem lt_size_of_settle (settled : a.settle id = .ok shape) : id < a.size := by
  refine Nat.lt_of_not_le fun outside => ?_
  have missing := get_eq_error_iff.2 ⟨outside, rfl⟩
  simp [settle, Arena.infer, missing, bind, Except.bind] at settled

theorem infer_of_label (label : a.label id = .ok shape) : a.infer id = .ok shape := by
  obtain ⟨_, entry⟩ := label_eq_ok_iff.1 label
  simp [Arena.infer, get_eq_ok_iff.2 entry, bind, Except.bind, pure, Except.pure]

theorem settle_of_label (label : a.label id = .ok shape) (known : shape ≠ .auto) :
    a.settle id = .ok shape := by
  simp only [settle, infer_of_label label, bind, Except.bind]
  cases shape with
  | auto => exact absurd rfl known
  | none | num | tuple | record => rfl

theorem label_congr (same : (c.entries[id]?).map Entry.label = (a.entries[id]?).map Entry.label) :
    c.label id = a.label id := by
  simp only [Arena.label, Arena.get]
  cases here : c.entries[id]? <;> cases there : a.entries[id]? <;> simp_all [bind, Except.bind]

theorem label_push_of_lt (old : id < a.size) (node : Node) (label : Option Shape) :
    (a.push node label).label id = a.label id :=
  label_congr (by rw [entries_push_of_lt old])

theorem label_push_size (a : Arena) (node : Node) (shape : Shape) :
    (a.push node (some shape)).label a.size = .ok shape :=
  label_eq_ok_iff.2 ⟨node, a.entries_push_size node (some shape)⟩

theorem slots_push_size {node : Node} {ts : List NumType} (label : Option Shape)
    (leaves : nodeSlots a.slots a.size node = .ok ts) :
    (a.push node label).slots a.size = .ok ts := by
  refine slotsWithin_succ_eq_ok_iff.2 ⟨node, node_push_size a node label, ?_⟩
  refine nodeSlots_refined (fun child _ us found => ?_) leaves
  rw [size_push]
  exact (continues_push a node label).slotsWithin found

namespace Tells

theorem slots_of_settle (tells : a.Tells id) (settled : a.settle id = .ok shape) :
    a.slots id = .ok shape.flatten := by
  obtain ⟨other, label, slots⟩ := tells
  simp only [settle, infer_of_label label, bind, Except.bind] at settled
  cases other with
  | auto =>
    simp only [slots, pure, Except.pure, Except.ok.injEq] at settled
    rw [slots, ← settled, Shape.flatten_ofSlots]
  | none | num | tuple | record =>
    simp only [pure, Except.pure, Except.ok.injEq] at settled
    rw [slots, ← settled]

theorem exists_settle (tells : a.Tells id) : ∃ shape, a.settle id = .ok shape := by
  obtain ⟨other, label, slots⟩ := tells
  by_cases isOpen : other = .auto
  · subst isOpen
    exact ⟨.ofSlots [], by
      simp only [settle, infer_of_label label, slots, bind, Except.bind]
      rfl⟩
  · exact ⟨other, settle_of_label label isOpen⟩

end Tells

namespace Truthful

variable {first : ExprId}

theorem push (truthful : a.Truthful first) {node : Node}
    (leaves : nodeSlots a.slots a.size node = .ok shape.flatten) :
    (a.push node (some shape)).Truthful first := by
  intro id inside from_
  rw [size_push] at inside
  rcases Nat.lt_succ_iff_lt_or_eq.1 inside with old | rfl
  · obtain ⟨other, label, slots⟩ := truthful id old from_
    exact ⟨other, (label_push_of_lt old _ _).trans label,
      (continues_push a node _).retains.slots id _ slots⟩
  · exact ⟨shape, label_push_size a node shape, slots_push_size _ leaves⟩

theorem slots_of_settle (truthful : a.Truthful first) (from_ : first ≤ id)
    (settled : a.settle id = .ok shape) : a.slots id = .ok shape.flatten :=
  (truthful id (lt_size_of_settle settled) from_).slots_of_settle settled

theorem settle_error_iff (truthful : a.Truthful first) (from_ : first ≤ id) :
    (∃ e, a.settle id = .error e) ↔ ∃ e, a.infer id = .error e := by
  by_cases old : id < a.size
  · have tells := truthful id old from_
    obtain ⟨known, settled⟩ := tells.exists_settle
    obtain ⟨shape, label, -⟩ := tells
    simp [settled, infer_of_label label]
  · have missing := get_eq_error_iff.2 ⟨Nat.le_of_not_lt old, rfl⟩
    simp [settle, Arena.infer, missing, bind, Except.bind]

end Truthful

section
variable (done : a.relabel id shape = .ok c)

include done

theorem label_relabel : c.label id = .ok shape ∧ ∀ other, other ≠ id → c.label other = a.label other := by
  cases here : a.get id with
  | error e => simp [relabel, here, bind, Except.bind] at done
  | ok entry =>
    simp only [relabel, here, bind, Except.bind, pure, Except.pure, Except.ok.injEq] at done
    subst done
    have inside := (Array.getElem?_eq_some_iff.1 (get_eq_ok_iff.1 here)).1
    constructor
    · exact label_eq_ok_iff.2 ⟨entry.node, by simp [inside]⟩
    · exact fun other apart => label_congr (by rw [Array.getElem?_setIfInBounds_ne apart.symm])

theorem Truthful.relabel {first : ExprId} (truthful : a.Truthful first)
    (leaves : a.slots id = .ok shape.flatten) : c.Truthful first := by
  obtain ⟨continues, size⟩ := continues_relabel done
  obtain ⟨here, others⟩ := label_relabel done
  intro other inside from_
  by_cases is : other = id
  · subst is
    exact ⟨shape, here, continues.retains.slots _ _ leaves⟩
  · obtain ⟨before, label, slots⟩ := truthful other (size ▸ inside) from_
    exact ⟨before, (others other is).trans label, continues.retains.slots _ _ slots⟩

end

/-- Every node leaves what the one in its place left, whatever its operands leave, and no label is
another one. -/
structure Alike (a c : Arena) : Prop where
  size : c.size = a.size
  label : ∀ id, c.label id = a.label id
  leaves : ∀ (id : ExprId) (node : Node), a.node id = .ok node → ∃ other, c.node id = .ok other ∧
    ∀ slots, nodeSlots slots id other = nodeSlots slots id node

namespace Alike

variable {d : Arena}

theorem refl (a : Arena) : Alike a a := ⟨rfl, fun _ => rfl, fun _ node here => ⟨node, here, fun _ => rfl⟩⟩

theorem trans (first : Alike a c) (second : Alike c d) : Alike a d := by
  constructor
  · exact second.size.trans first.size
  · exact fun id => (second.label id).trans (first.label id)
  · intro id node here
    obtain ⟨other, there, same⟩ := first.leaves id node here
    obtain ⟨last, behind, same'⟩ := second.leaves id other there
    exact ⟨last, behind, fun slots => (same' slots).trans (same slots)⟩

instance : IsPreorder Arena Alike where
  refl := refl
  trans _ _ _ := trans

theorem slotsWithin (alike : Alike a c) (depth : Nat) (id : ExprId) :
    c.slotsWithin depth id = a.slotsWithin depth id := by
  induction depth generalizing id with
  | zero => rfl
  | succ depth ih =>
    have below : c.slotsWithin depth = a.slotsWithin depth := funext ih
    simp only [Arena.slotsWithin, below]
    by_cases inside : id < a.size
    · obtain ⟨node, here⟩ := exists_node_of_lt inside
      obtain ⟨other, there, same⟩ := alike.leaves id node here
      rw [here, there]
      exact same _
    · have missing (b : Arena) (outside : ¬ id < b.size) : b.node id = .error (.unknownExpression id) := by
        rw [Arena.node, get_eq_error_iff.2 ⟨Nat.le_of_not_lt outside, rfl⟩]
        rfl
      rw [missing a inside, missing c (alike.size ▸ inside)]

theorem slots (alike : Alike a c) (id : ExprId) : c.slots id = a.slots id := by
  rw [Arena.slots, Arena.slots, pathBound, pathBound, alike.size]
  exact alike.slotsWithin _ id

theorem retains (alike : Alike a c) : a.Retains c :=
  ⟨Nat.le_of_eq alike.size.symm, fun id _ found => (alike.slots id).trans found⟩

theorem truthful (alike : Alike a c) {first : ExprId} (truthful : a.Truthful first) :
    c.Truthful first := by
  intro id inside from_
  obtain ⟨shape, label, slots⟩ := truthful id (alike.size ▸ inside) from_
  exact ⟨shape, (alike.label id).trans label, (alike.slots id).trans slots⟩

/-- Another node that leaves the same. -/
theorem set {entry : Entry} (here : a.entries[id]? = some entry) {node : Node}
    (same : ∀ slots, nodeSlots slots id node = nodeSlots slots id entry.node) :
    Alike a ⟨a.entries.setIfInBounds id { entry with node }⟩ := by
  obtain ⟨inside, at_⟩ := Array.getElem?_eq_some_iff.1 here
  constructor
  · exact Array.size_setIfInBounds ..
  · intro other
    apply label_congr
    by_cases is : other = id
    · subst is
      simp [inside, at_]
    · rw [Array.getElem?_setIfInBounds_ne (Ne.symm is)]
  · intro other before found
    rw [node_setIfInBounds here]
    by_cases is : other = id
    · subst is
      cases found.symm.trans (node_eq_ok_iff.2 ⟨entry.label, here⟩)
      exact ⟨node, if_pos rfl, same⟩
    · exact ⟨before, (if_neg is).trans found, fun _ => rfl⟩

end Alike

theorem alike_foldAt (state : Arena × Nat) (id : ExprId) : Alike state.1 (foldAt state id).1 := by
  obtain ⟨a, count⟩ := state
  simp only [foldAt]
  cases here : a.entries[id]? with
  | none => exact .refl a
  | some entry =>
    cases folded : a.foldNode? entry.node with
    | none =>
      simp only [folded]
      exact .refl a
    | some v =>
      simp only [folded]
      exact .set here fun slots => (nodeSlots_of_foldNode? folded slots id).symm

theorem alike_foldConstants (a : Arena) : Alike a a.foldConstants.1 := by
  have sweep (ids : List ExprId) (state : Arena × Nat) :
      Alike state.1 (ids.foldl foldAt state).1 := by
    induction ids generalizing state with
    | nil => exact .refl _
    | cons id rest ih => exact (alike_foldAt state id).trans (ih _)
  exact sweep (List.range a.size) (a, 0)

end WasmBuilder.Arena

namespace WasmBuilder.Unreachable

variable {s : State} {id : ExprId}

def State.Alike (s t : State) : Prop := s.arena.Alike t.arena

instance : IsPreorder State State.Alike where
  refl s := .refl s.arena
  trans _ _ _ first second := Arena.Alike.trans first second

theorem alike_ask {α : Type} (question : Arena → Except BuildError α) :
    Moves State.Alike s (ask question) fun x t => t = s ∧ question s.arena = .ok x := by
  apply Moves.get_bind
  cases question s.arena with
  | ok x => exact Moves.pure ⟨rfl, rfl⟩
  | error e => exact Moves.throw

theorem alike_cutList (listed : s.Listed id) (list : List ExprId) :
    Moves State.Alike s (cutList id list) fun _ t => t.Listed id := by
  apply (alike_ask _).bind
  rintro ⟨kept, n⟩ s _ ⟨rfl, -⟩
  dsimp only
  split
  · apply (alike_ask _).bind
    rintro node s _ ⟨rfl, here⟩
    apply (alike_ask _).bind
    rintro arena s _ ⟨rfl, done⟩
    have lists := listed node here
    obtain ⟨label, entry⟩ := Arena.node_eq_ok_iff.1 here
    have still : State.Listed ⟨arena, s.removed + n⟩ id := by
      intro other there
      rw [Arena.node_replace here done, if_pos rfl] at there
      cases there
      exact Node.statementLists_shorten lists kept
    have alike : State.Alike s ⟨arena, s.removed + n⟩ := by
      cases done.symm.trans (Arena.replace_eq_ok entry _)
      exact .set entry fun slots => Node.nodeSlots_shorten lists kept slots id
    have cut : Moves State.Alike s (modify fun s => { arena, removed := s.removed + n })
        fun _ t => t.Listed id := Moves.modify alike still
    exact cut.bind fun _ _ _ listed => Moves.pure listed
  · exact Moves.pure listed

theorem alike_cutLists (listed : s.Listed id) (lists : List (List ExprId)) :
    Moves State.Alike s (cutLists id lists) fun _ _ => True := by
  induction lists generalizing s with
  | nil => exact Moves.pure trivial
  | cons list rest ih =>
    apply (alike_cutList listed list).bind
    intro _ t _ listed
    exact (ih listed).bind fun _ _ _ _ => Moves.pure trivial

theorem alike_visitWithin (depth : Nat) (id : ExprId) :
    Moves State.Alike s (visitWithin depth id) fun _ _ => True := by
  induction depth generalizing s id with
  | zero => exact Moves.throw
  | succ depth ih =>
    apply (alike_ask _).bind
    rintro node s _ ⟨rfl, here⟩
    have cut : Moves State.Alike s (cutLists id node.statementLists) fun _ _ => True := by
      cases lists : node.statementLists with
      | nil => exact Moves.pure trivial
      | cons list rest =>
        refine alike_cutLists (fun other there => ?_) _
        cases here.symm.trans there
        exact lists ▸ List.cons_ne_nil list rest
    exact cut.bind fun nested t _ _ => Moves.forM fun child _ u _ => ih child

theorem alike_visitAll (body : List ExprId) :
    Moves State.Alike s (visitAll body) fun _ _ => True :=
  Moves.get_bind (Moves.forM fun id _ _ _ => alike_visitWithin _ id)

end WasmBuilder.Unreachable
