import WasmBuilder.Proofs.Labels.Keeps
import WasmBuilder.Simplify.Build

/-!
Simplifying a build keeps the labels of its expressions true, and so does a simplification that
fails on the way.
-/

set_option autoImplicit false

namespace WasmBuilder

namespace Node

variable {n : Node} (lists : n.statementLists ≠ []) (kept : List ExprId)

include lists

theorem statementLists_shorten : (n.shorten kept).statementLists ≠ [] := by
  have shortens := n.shortens_shorten kept
  generalize n.shorten kept = m at shortens
  cases shortens with
  | same => exact lists
  | @items _ shape | @thenItems _ _ _ shape | @elseItems _ _ _ shape =>
    cases shape with
    | none => exact List.cons_ne_nil _ _
    | num | tuple | record | auto => exact absurd rfl lists
  | body | step => exact List.cons_ne_nil _ _

theorem nodeSlots_shorten (slots : ExprId → Except BuildError (List NumType)) (id : ExprId) :
    Arena.nodeSlots slots id (n.shorten kept) = Arena.nodeSlots slots id n := by
  have shortens := n.shortens_shorten kept
  generalize n.shorten kept = m at shortens
  cases shortens with
  | @items _ shape | @thenItems _ _ _ shape | @elseItems _ _ _ shape =>
    cases shape with
    | none => rfl
    | num | tuple | record | auto => exact absurd rfl lists
  | same | body | step => rfl

end Node

open Arena (Extends)

instance : HasArena Unreachable.State := ⟨Unreachable.State.arena⟩

namespace Unreachable

variable {s : State} (labelled : s.arena.Labelled)

include labelled

theorem keeps_ask {α : Type} (question : Arena → Except BuildError α) :
    Keeps s (ask question) fun x t => t = s ∧ question s.arena = .ok x := by
  apply Keeps.get_bind
  cases question s.arena with
  | ok x => exact Keeps.pure labelled ⟨rfl, rfl⟩
  | error e => exact Keeps.throw labelled

omit labelled in
theorem extends_replace {a b : Arena} (labelled : a.Labelled) {id : ExprId} {node other : Node}
    (here : a.node id = .ok node) (done : a.replace id other = .ok b)
    (earlier : ∀ child ∈ other.children, child < id)
    (same : Arena.nodeSlots a.labelSlots id other = Arena.nodeSlots a.labelSlots id node) :
    Extends a b := by
  obtain ⟨label, entry⟩ := Arena.node_eq_ok_iff.1 here
  obtain ⟨old, _⟩ := Array.getElem?_eq_some_iff.1 entry
  obtain ⟨shape, isLabel, leaves⟩ := labelled.told id _ entry
  cases isLabel
  cases done.symm.trans (Arena.replace_eq_ok entry other)
  have told : a.labelSlots id = .ok shape.flatten :=
    Arena.labelSlots_eq_ok_iff.2 ⟨shape, Arena.label_eq_ok_iff.2 ⟨node, entry⟩, rfl⟩
  exact labelled.update old rfl told earlier (same.trans leaves)

def State.Listed (s : State) (id : ExprId) : Prop :=
  ∀ node, s.arena.node id = .ok node → node.statementLists ≠ []

theorem keeps_cutList {id : ExprId} (listed : s.Listed id) {list : List ExprId}
    (earlier : ∀ child ∈ list, child < id) :
    Keeps s (cutList id list) fun _ t => t.Listed id := by
  refine (keeps_ask labelled _).bind ?_
  rintro ⟨kept, n⟩ s _ ⟨rfl, cut⟩
  dsimp only
  split
  · refine (keeps_ask labelled _).bind ?_
    rintro node s _ ⟨rfl, here⟩
    refine (keeps_ask labelled _).bind ?_
    rintro arena s _ ⟨rfl, done⟩
    have lists := listed node here
    obtain ⟨label, entry⟩ := Arena.node_eq_ok_iff.1 here
    have inside : ∀ child ∈ (node.shorten kept).children, child < id := by
      intro child mem
      rcases Node.mem_children_shorten mem with old | mem
      · exact labelled.ordered id _ entry child old
      · exact earlier child (Arena.mem_of_cut cut child mem)
    have grown : Extends s.arena arena := extends_replace labelled here done inside
      (Node.nodeSlots_shorten lists kept s.arena.labelSlots id)
    have still : State.Listed ⟨arena, s.removed + n⟩ id := by
      intro other there
      rw [Arena.node_replace here done, if_pos rfl] at there
      cases there
      exact Node.statementLists_shorten lists kept
    have kept : Keeps s (modify fun s => { arena, removed := s.removed + n }) fun _ t =>
      t.Listed id := Keeps.modify grown still
    exact kept.bind fun _ t more listed => Keeps.pure more.labelled listed
  · exact Keeps.pure labelled listed

theorem keeps_cutLists {id : ExprId} (listed : s.Listed id) {lists : List (List ExprId)}
    (earlier : ∀ list ∈ lists, ∀ child ∈ list, child < id) :
    Keeps s (cutLists id lists) fun _ _ => True := by
  induction lists generalizing s with
  | nil => exact Keeps.pure labelled trivial
  | cons list rest ih =>
    refine (keeps_cutList labelled listed (earlier list List.mem_cons_self)).bind
      fun _ t grown listed => ?_
    refine (ih grown.labelled listed fun other mem =>
      earlier other (List.mem_cons_of_mem list mem)).bind fun _ u more _ => ?_
    exact Keeps.pure more.labelled trivial

theorem keeps_visitWithin (depth : Nat) (id : ExprId) :
    Keeps s (visitWithin depth id) fun _ _ => True := by
  induction depth generalizing s id with
  | zero => exact Keeps.throw labelled
  | succ depth ih =>
    refine (keeps_ask labelled _).bind ?_
    rintro node s _ ⟨rfl, here⟩
    obtain ⟨label, entry⟩ := Arena.node_eq_ok_iff.1 here
    have earlier : ∀ list ∈ node.statementLists, ∀ child ∈ list, child < id :=
      fun list isList child mem =>
        labelled.ordered id _ entry child (Node.mem_children_of_mem_list isList mem)
    have cut : Keeps s (cutLists id node.statementLists) fun _ _ => True := by
      cases lists : node.statementLists with
      | nil => exact Keeps.pure labelled trivial
      | cons list rest =>
        have listed : s.Listed id := by
          intro other there
          cases here.symm.trans there
          exact lists ▸ List.cons_ne_nil list rest
        exact keeps_cutLists labelled listed (lists ▸ earlier)
    refine cut.bind fun nested t grown _ => ?_
    exact Keeps.forM grown.labelled fun child _ u more => ih more.labelled child

theorem keeps_visitAll (body : List ExprId) : Keeps s (visitAll body) fun _ _ => True := by
  refine Keeps.get_bind ?_
  exact Keeps.forM labelled fun id _ t grown => keeps_visitWithin grown.labelled _ id

end Unreachable

instance : HasArena Build := ⟨Build.arena⟩

namespace Build

open Unreachable (visitAll)

variable {b : Build} (labelled : b.arena.Labelled)

include labelled

theorem keeps_simplifyBody (ref : BodyRef) (counts : SimplifyCounts) :
    Keeps b (simplifyBody ref counts) fun _ _ => True := by
  have setBody (b : Build) (labelled : b.arena.Labelled) (body : List ExprId) :
      Keeps b (modify (·.setBody ref body)) fun _ t => t.arena = b.arena := by
    cases ref <;> exact Keeps.modify labelled.extends_self rfl
  refine Keeps.get_bind ?_
  split
  · exact Keeps.throw labelled
  next flat flattened _ =>
    refine (setBody b labelled flat).bind fun _ c grown same => ?_
    split
    · exact Keeps.throw grown.labelled
    next body cut _ =>
      refine (setBody c grown.labelled body).bind fun _ d more same' => ?_
      have visited := Unreachable.keeps_visitAll (s := ⟨b.arena, cut⟩) labelled body
      have adopt (s : Unreachable.State) (grown : Extends b.arena s.arena) :
          Keeps d (modify fun b => { b with arena := s.arena }) fun _ _ => True := by
        refine Keeps.modify ?_ trivial
        show Extends d.arena s.arena
        rw [same'.trans same]
        exact grown
      unfold Keeps at visited
      split
      next e s run =>
        rw [show visitAll body ⟨b.arena, cut⟩ = _ from run] at visited
        exact (adopt s visited).bind fun _ u further _ => Keeps.throw further.labelled
      next s run =>
        rw [show visitAll body ⟨b.arena, cut⟩ = _ from run] at visited
        exact (adopt s visited.1).bind fun _ u further _ => Keeps.pure further.labelled trivial

theorem keeps_foldlM (refs : List BodyRef) (counts : SimplifyCounts) :
    Keeps b (refs.foldlM (fun counts ref => simplifyBody ref counts) counts) fun _ _ => True := by
  induction refs generalizing b counts with
  | nil => exact Keeps.pure labelled trivial
  | cons ref rest ih =>
    rw [List.foldlM_cons]
    exact (keeps_simplifyBody labelled ref counts).bind fun next t grown _ => ih grown.labelled next

theorem keeps_simplify : Keeps b simplify fun _ _ => True := by
  refine Keeps.get_bind ?_
  have folded : Keeps b (modify fun c => { c with arena := b.arena.foldConstants.1 })
      fun _ _ => True := Keeps.modify labelled.foldConstants trivial
  refine folded.bind fun _ c grown _ => Keeps.get_bind ?_
  exact keeps_foldlM grown.labelled _ _

end Build

end WasmBuilder
