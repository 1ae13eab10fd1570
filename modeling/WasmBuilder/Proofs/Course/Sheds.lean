import WasmBuilder.Proofs.Course.Nodes
import WasmBuilder.Proofs.Moves
import WasmBuilder.Simplify.Build

/-!
What simplification takes away.

Simplification puts constants in place of operations, and takes statements out of groups. So a body
evaluates no more expressions than it did, and accesses no other variables.
-/

set_option autoImplicit false

namespace WasmBuilder

namespace Node

/-- A node stays as it is, or loses operands and accesses no variable. -/
structure Sheds (n m : Node) : Prop where
  fixed : n.isFixed = true → m = n
  children : ∀ child ∈ m.children, child ∈ n.children
  access : m.access? ≠ none → m = n

theorem Sheds.refl (n : Node) : n.Sheds n := ⟨fun _ => rfl, fun _ mem => mem, fun _ => rfl⟩

theorem Sheds.of_children {n m : Node} (free : n.isFixed = false) (quiet : m.access? = none)
    (children : ∀ child ∈ m.children, child ∈ n.children) : n.Sheds m where
  fixed := fun fixed => absurd (free.symm.trans fixed) Bool.false_ne_true
  children := children
  access := fun accesses => absurd quiet accesses

theorem Sheds.trans {n m k : Node} (first : n.Sheds m) (second : m.Sheds k) : n.Sheds k := by
  constructor
  · intro fixed
    cases first.fixed fixed
    exact second.fixed fixed
  · intro child mem
    exact first.children child (second.children child mem)
  · intro accesses
    cases second.access accesses
    exact first.access accesses

theorem sheds_of_foldNode? {a : Arena} {n : Node} {v : Value} (folded : a.foldNode? n = some v) :
    n.Sheds (.const v) := by
  constructor
  · intro fixed
    cases n <;> first | cases folded | cases fixed
  · exact fun _ mem => absurd mem List.not_mem_nil
  · exact fun accesses => absurd rfl accesses

theorem Sheds.shorten {n m : Node} (sheds : n.Sheds m) {kept : List ExprId}
    (inside : ∀ child ∈ kept, child ∈ n.children) : n.Sheds (m.shorten kept) := by
  have children : ∀ child ∈ (m.shorten kept).children, child ∈ n.children := by
    intro child mem
    rcases mem_children_shorten mem with old | mem
    · exact sheds.children child old
    · exact inside child mem
  have shortens := m.shortens_shorten kept
  generalize m.shorten kept = k at children shortens
  cases shortens with
  | same => exact sheds
  | items | thenItems | elseItems | body | step =>
    refine ⟨fun fixed => ?_, children, fun accesses => absurd rfl accesses⟩
    cases sheds.fixed fixed
    cases fixed

end Node

namespace Arena

/-- The expressions that are evaluated as part of one. -/
inductive Within (a : Arena) (root : ExprId) : ExprId → Prop
  | self : Within a root root
  | child {id child : ExprId} {node : Node} (within : Within a root id)
      (here : a.node id = .ok node) (mem : child ∈ node.children) : Within a root child

/-- Every node is what it was, or what simplification made of it. -/
structure Sheds (a c : Arena) : Prop where
  size : c.size = a.size
  each : ∀ (id : ExprId) (node : Node), a.node id = .ok node →
    ∃ other, c.node id = .ok other ∧ node.Sheds other

namespace Sheds

variable {a c d : Arena}

theorem refl (a : Arena) : Sheds a a := ⟨rfl, fun _ node here => ⟨node, here, .refl node⟩⟩

theorem trans (first : Sheds a c) (second : Sheds c d) : Sheds a d := by
  constructor
  · exact second.size.trans first.size
  · intro id node here
    have ⟨other, there, sheds⟩ := first.each id node here
    have ⟨last, behind, sheds'⟩ := second.each id other there
    exact ⟨last, behind, sheds.trans sheds'⟩

theorem lasts (sheds : Sheds a c) : Lasts a c := by
  constructor
  · exact Nat.le_of_eq sheds.size.symm
  · intro id node here fixed
    have ⟨other, there, shed⟩ := sheds.each id node here
    rw [there, shed.fixed fixed]

theorem exists_before (sheds : Sheds a c) {id : ExprId} {other : Node} (there : c.node id = .ok other) :
    ∃ node, a.node id = .ok node ∧ node.Sheds other := by
  have ⟨node, here⟩ := exists_node_of_lt (a := a) (sheds.size ▸ lt_size_of_node there)
  have ⟨other', there', shed⟩ := sheds.each id node here
  cases there.symm.trans there'
  exact ⟨node, here, shed⟩

theorem within (sheds : Sheds a c) {root id : ExprId} (within : c.Within root id) :
    a.Within root id := by
  induction within with
  | self => exact .self
  | child _ here mem ih =>
    have ⟨node, before, shed⟩ := sheds.exists_before here
    exact ih.child before (shed.children _ mem)

/-- Another step of simplification on one node. -/
theorem set (sheds : Sheds a c) {id : ExprId} {entry new : Entry} (here : c.entries[id]? = some entry)
    (shed : ∀ node, a.node id = .ok node → node.Sheds entry.node → node.Sheds new.node) :
    Sheds a ⟨c.entries.setIfInBounds id new⟩ := by
  constructor
  · exact (Array.size_setIfInBounds ..).trans sheds.size
  · intro other node found
    have ⟨now, there, shed'⟩ := sheds.each other node found
    rw [node_setIfInBounds here]
    by_cases is : other = id
    · subst is
      cases there.symm.trans (node_eq_ok_iff.2 ⟨entry.label, here⟩)
      exact ⟨new.node, if_pos rfl, shed node found shed'⟩
    · exact ⟨now, (if_neg is).trans there, shed'⟩

end Sheds

variable {a : Arena}

theorem sheds_foldAt (state : Arena × Nat) (id : ExprId) : Sheds state.1 (foldAt state id).1 := by
  obtain ⟨a, count⟩ := state
  simp only [foldAt]
  cases here : a.entries[id]? with
  | none => exact .refl a
  | some entry =>
    cases folded : a.foldNode? entry.node with
    | none =>
      simp only [folded]
      exact .refl a
    | some v =>
      simp only [folded]
      apply (Sheds.refl a).set here
      intro node _ shed
      exact shed.trans (Node.sheds_of_foldNode? folded)

theorem sheds_foldConstants (a : Arena) : Sheds a a.foldConstants.1 := by
  have sweep (ids : List ExprId) (state : Arena × Nat) :
      Sheds state.1 (ids.foldl foldAt state).1 := by
    induction ids generalizing state with
    | nil => exact .refl _
    | cons id rest ih => exact (sheds_foldAt state id).trans (ih _)
  exact sweep (List.range a.size) (a, 0)

theorem Within.trans {root mid id : ExprId} (first : a.Within root mid) (second : a.Within mid id) :
    a.Within root id := by
  induction second with
  | self => exact first
  | child _ here mem ih => exact ih.child here mem

theorem within_of_expandAll {expand : ExprId → Except BuildError (List ExprId × Nat)}
    (each : ∀ id flat n, expand id = .ok (flat, n) → ∀ x ∈ flat, a.Within id x)
    {ids flat : List ExprId} {n : Nat} (done : expandAll expand ids = .ok (flat, n)) :
    ∀ x ∈ flat, ∃ id ∈ ids, a.Within id x := by
  induction ids generalizing flat n with
  | nil =>
    cases done
    exact fun _ mem => absurd mem List.not_mem_nil
  | cons id rest ih =>
    obtain ⟨⟨first, k⟩, head, done⟩ := bind_eq_ok_iff.1 done
    obtain ⟨⟨others, l⟩, tail, done⟩ := bind_eq_ok_iff.1 done
    cases done
    intro x mem
    rcases List.mem_append.1 mem with mem | mem
    · exact ⟨id, List.mem_cons_self, each id first k head x mem⟩
    · have ⟨other, isOther, within⟩ := ih tail x mem
      exact ⟨other, List.mem_cons_of_mem id isOther, within⟩

theorem node_of_groupedStatements? {id : ExprId} {items : List ExprId}
    (found : a.groupedStatements? id = .ok (some items)) :
    ∃ shape, a.node id = .ok (.block items shape) := by
  obtain ⟨slots, _, found⟩ := bind_eq_ok_iff.1 found
  obtain ⟨node, here, found⟩ := bind_eq_ok_iff.1 found
  split at found
  next items' shape =>
    split at found <;> cases found
    exact ⟨shape, here⟩
  next => cases found

theorem within_of_expandWithin {depth : Nat} {id : ExprId} {flat : List ExprId} {n : Nat}
    (done : a.expandWithin depth id = .ok (flat, n)) : ∀ x ∈ flat, a.Within id x := by
  induction depth generalizing id flat n with
  | zero => cases done
  | succ depth ih =>
    obtain ⟨grouped, found, done⟩ := bind_eq_ok_iff.1 done
    cases grouped with
    | none =>
      cases done
      intro x mem
      rw [List.mem_singleton.1 mem]
      exact .self
    | some items =>
      obtain ⟨⟨statements, k⟩, all, done⟩ := bind_eq_ok_iff.1 done
      cases done
      have ⟨shape, here⟩ := node_of_groupedStatements? found
      intro x mem
      have ⟨item, isItem, within⟩ := within_of_expandAll (fun _ _ _ => ih) all x mem
      exact (Within.self.child here isItem).trans within

theorem within_of_flattenBlocks {body flat : List ExprId} {n : Nat}
    (done : a.flattenBlocks body = .ok (flat, n)) : ∀ x ∈ flat, ∃ root ∈ body, a.Within root x :=
  within_of_expandAll (fun _ _ _ => within_of_expandWithin) done

end Arena

namespace Unreachable

variable {a : Arena} {s : State}

def State.Sheds (a : Arena) (s t : State) : Prop := a.Sheds s.arena → a.Sheds t.arena

instance : IsPreorder State (State.Sheds a) where
  refl _ sheds := sheds
  trans _ _ _ first second sheds := second (first sheds)

theorem sheds_ask {α : Type} (question : Arena → Except BuildError α) :
    Moves (State.Sheds a) s (ask question) fun x t => t = s ∧ question s.arena = .ok x := by
  apply Moves.get_bind
  cases question s.arena with
  | ok x => exact Moves.pure ⟨rfl, rfl⟩
  | error e => exact Moves.throw

variable {id : ExprId}

theorem sheds_cutList {list : List ExprId}
    (inside : ∀ node, a.node id = .ok node → ∀ child ∈ list, child ∈ node.children) :
    Moves (State.Sheds a) s (cutList id list) fun _ _ => True := by
  apply (sheds_ask _).bind
  rintro ⟨kept, n⟩ s _ ⟨rfl, done⟩
  have subset := Arena.mem_of_cut done
  dsimp only
  split
  · apply (sheds_ask _).bind
    rintro node s _ ⟨rfl, here⟩
    apply (sheds_ask _).bind
    rintro arena s _ ⟨rfl, done⟩
    have ⟨label, found⟩ := Arena.node_eq_ok_iff.1 here
    cases done.symm.trans (Arena.replace_eq_ok found _)
    have cut : State.Sheds a s ⟨⟨s.arena.entries.setIfInBounds id ⟨node.shorten kept, label⟩⟩,
        s.removed + n⟩ := by
      intro sheds
      apply sheds.set found
      intro old before shed
      exact shed.shorten fun child mem => inside old before child (subset child mem)
    exact (Moves.modify (P := fun _ _ => True) cut trivial).bind fun _ _ _ _ => Moves.pure trivial
  · exact Moves.pure trivial

theorem sheds_cutLists {lists : List (List ExprId)}
    (inside : ∀ node, a.node id = .ok node →
      ∀ list ∈ lists, ∀ child ∈ list, child ∈ node.children) :
    Moves (State.Sheds a) s (cutLists id lists) fun _ _ => True := by
  induction lists generalizing s with
  | nil => exact Moves.pure trivial
  | cons list rest ih =>
    apply (sheds_cutList fun node here => inside node here list List.mem_cons_self).bind
    intro _ t _ _
    refine (ih fun node here other mem => ?_).bind fun _ _ _ _ => Moves.pure trivial
    exact inside node here other (List.mem_cons_of_mem list mem)

theorem sheds_visitWithin (depth : Nat) (id : ExprId) :
    Moves (State.Sheds a) s (visitWithin depth id) fun _ _ => True := by
  induction depth generalizing s id with
  | zero => exact Moves.throw
  | succ depth ih =>
    by_cases sheds : a.Sheds s.arena
    · apply (sheds_ask _).bind
      rintro node s _ ⟨rfl, here⟩
      apply (sheds_cutLists fun old before list isList child mem => ?_).bind
      · intro nested t _ _
        exact Moves.forM fun child _ u _ => ih child
      · obtain ⟨old', before', shed⟩ := sheds.exists_before here
        cases before.symm.trans before'
        exact shed.children child (Node.mem_children_of_mem_list isList mem)
    · -- there is nothing to show of what is no simplification anyway
      apply Moves.intro
      · exact fun _ _ _ => ⟨fun is => absurd is sheds, trivial⟩
      · exact fun _ _ _ is => absurd is sheds

theorem sheds_visitAll (body : List ExprId) :
    Moves (fun s t => s.arena.Sheds t.arena) s (visitAll body) fun _ _ => True := by
  have visits : Moves (State.Sheds s.arena) s (visitAll body) fun _ _ => True :=
    Moves.get_bind (Moves.forM fun id _ _ _ => sheds_visitWithin _ id)
  exact visits.mono fun t sheds => sheds (.refl s.arena)

end Unreachable

end WasmBuilder
