import Mathlib.Algebra.BigOperators.Group.Finset.Basic
import Mathlib.Logic.Relation
import WasmBuilder.Proofs.Simplify.Acyclic
import WasmBuilder.Proofs.Startup.Returns

/-!
What cutting behind returns leaves.

Statements are visited again and again where they are shared, and a list that was cut is put back
by its beginning alone. Both do no harm: a list that ends at its first return loses nothing more, and
it is no beginning of another such list.
-/

set_option autoImplicit false

namespace WasmBuilder

namespace Arena

def isReturn (a : Arena) (id : ExprId) : Bool :=
  match a.node id with
  | .ok node => node.isReturn
  | .error _ => false

def upToReturn (a : Arena) : List ExprId → List ExprId
  | [] => []
  | id :: rest => if a.isReturn id then [id] else id :: a.upToReturn rest

def lost (a : Arena) (list : List ExprId) : Nat := list.length - (a.upToReturn list).length

variable {a c : Arena} {list other : List ExprId}

theorem isReturn_of_node {id : ExprId} {node : Node} (here : a.node id = .ok node) :
    a.isReturn id = node.isReturn := by
  rw [isReturn, here]

theorem upToReturn_congr (same : ∀ id, c.isReturn id = a.isReturn id) (list : List ExprId) :
    c.upToReturn list = a.upToReturn list := by
  induction list with
  | nil => rfl
  | cons id rest ih => rw [upToReturn, upToReturn, same, ih]

section
variable {id : ExprId} {rest : List ExprId}

theorem upToReturn_cons_of_return (stops : a.isReturn id = true) :
    a.upToReturn (id :: rest) = [id] := if_pos stops

theorem upToReturn_cons_of_passes (passes : a.isReturn id = false) :
    a.upToReturn (id :: rest) = id :: a.upToReturn rest := by
  rw [upToReturn, if_neg (Bool.eq_false_iff.1 passes)]

theorem lost_cons_of_passes (passes : a.isReturn id = false) : a.lost (id :: rest) = a.lost rest := by
  rw [lost, upToReturn_cons_of_passes passes, List.length_cons, List.length_cons,
    Nat.add_sub_add_right, lost]

theorem exists_upToReturn_cons (a : Arena) (id : ExprId) (rest : List ExprId) :
    ∃ more, a.upToReturn (id :: rest) = id :: more := by
  cases stops : a.isReturn id with
  | true => exact ⟨[], upToReturn_cons_of_return stops⟩
  | false => exact ⟨_, upToReturn_cons_of_passes stops⟩

end

theorem upToReturn_prefix (list : List ExprId) : a.upToReturn list <+: list := by
  induction list with
  | nil => exact List.prefix_refl []
  | cons id rest ih =>
    cases stops : a.isReturn id with
    | true =>
      rw [upToReturn_cons_of_return stops]
      exact List.prefix_append [id] rest
    | false =>
      rw [upToReturn_cons_of_passes stops]
      exact (List.prefix_cons_inj id).2 ih

theorem upToReturn_upToReturn (list : List ExprId) :
    a.upToReturn (a.upToReturn list) = a.upToReturn list := by
  induction list with
  | nil => rfl
  | cons id rest ih =>
    cases stops : a.isReturn id with
    | true => rw [upToReturn_cons_of_return stops, upToReturn_cons_of_return stops]
    | false => rw [upToReturn_cons_of_passes stops, upToReturn_cons_of_passes stops, ih]

theorem lost_upToReturn (list : List ExprId) : a.lost (a.upToReturn list) = 0 := by
  rw [lost, upToReturn_upToReturn, Nat.sub_self]

theorem upToReturn_of_lost (none : a.lost list = 0) : a.upToReturn list = list :=
  (a.upToReturn_prefix list).eq_of_length_le (Nat.sub_eq_zero_iff_le.1 none)

/-- A list that was cut ends at a return, so another list that begins like it ends there too. -/
theorem eq_upToReturn_of_prefix (cut : a.lost list ≠ 0)
    (begins : a.upToReturn list <+: a.upToReturn other) :
    a.upToReturn other = a.upToReturn list := by
  induction list generalizing other with
  | nil => exact absurd rfl cut
  | cons id rest ih =>
    cases other with
    | nil => exact (List.prefix_nil.1 begins).symm
    | cons id' rest' =>
      -- both lists begin with the same statement
      obtain ⟨more, first⟩ := a.exists_upToReturn_cons id rest
      obtain ⟨more', second⟩ := a.exists_upToReturn_cons id' rest'
      rw [first, second] at begins
      obtain ⟨rfl, _⟩ := List.cons_prefix_cons.1 begins
      rw [← first, ← second] at begins
      cases stops : a.isReturn id with
      | true => rw [upToReturn_cons_of_return stops, upToReturn_cons_of_return stops]
      | false =>
        rw [upToReturn_cons_of_passes stops, upToReturn_cons_of_passes stops] at begins ⊢
        rw [lost_cons_of_passes stops] at cut
        rw [ih cut (List.cons_prefix_cons.1 begins).2]

/-- Cutting finds the first return, if all handles up to there are known. -/
theorem cut_eq (known : ∀ id ∈ a.upToReturn list, id < a.size) :
    a.cut list = .ok (a.upToReturn list, a.lost list) := by
  induction list with
  | nil => rfl
  | cons id rest ih =>
    have old : id < a.size := by
      obtain ⟨more, first⟩ := a.exists_upToReturn_cons id rest
      exact known id (first ▸ List.mem_cons_self)
    obtain ⟨node, here⟩ := exists_node_of_lt old
    cases stops : node.isReturn with
    | true =>
      obtain ⟨value, rfl⟩ := Node.exists_ret stops
      rw [cut_cons_of_return here, lost, upToReturn_cons_of_return (isReturn_of_node here)]
      rfl
    | false =>
      have passes : a.isReturn id = false := (isReturn_of_node here).trans stops
      rw [upToReturn_cons_of_passes passes] at known
      rw [cut_cons_of_passes ⟨node, here, stops⟩,
        ih fun other mem => known other (List.mem_cons_of_mem id mem),
        upToReturn_cons_of_passes passes, lost_cons_of_passes passes]
      rfl

def lostIn (a : Arena) (node : Node) : Nat := (node.statementLists.map a.lost).sum

def lostAt (a : Arena) (id : ExprId) : Nat :=
  match a.node id with
  | .ok node => a.lostIn node
  | .error _ => 0

/-- A statement in a list of another one, and not behind a return. -/
def Nests (a : Arena) (id child : ExprId) : Prop :=
  ∃ node, a.node id = .ok node ∧ ∃ list ∈ node.statementLists, child ∈ a.upToReturn list

/-- A statement in a list of another one. -/
def Holds (a : Arena) (id child : ExprId) : Prop :=
  ∃ node, a.node id = .ok node ∧ ∃ list ∈ node.statementLists, child ∈ list

end Arena

namespace Node

variable {a : Arena} {n : Node}

def upToReturns (a : Arena) : Node → Node
  | .block items .none => .block (a.upToReturn items) .none
  | .choose cond thenItems elseItems .none =>
    .choose cond (a.upToReturn thenItems) (a.upToReturn elseItems) .none
  | .loop init cond step body => .loop init cond (a.upToReturn step) (a.upToReturn body)
  | n => n

theorem statementLists_upToReturns (a : Arena) (n : Node) :
    (n.upToReturns a).statementLists = n.statementLists.map a.upToReturn := by
  cases n with
  | block items shape => cases shape <;> rfl
  | choose cond thenItems elseItems shape => cases shape <;> rfl
  | _ => rfl

theorem upToReturns_upToReturns (a : Arena) (n : Node) :
    (n.upToReturns a).upToReturns a = n.upToReturns a := by
  cases n with
  | block items shape =>
    cases shape with
    | none => simp only [upToReturns, Arena.upToReturn_upToReturn]
    | num | tuple | record | auto => rfl
  | choose cond thenItems elseItems shape =>
    cases shape with
    | none => simp only [upToReturns, Arena.upToReturn_upToReturn]
    | num | tuple | record | auto => rfl
  | loop init cond step body => simp only [upToReturns, Arena.upToReturn_upToReturn]
  | _ => rfl

theorem isReturn_upToReturns (a : Arena) (n : Node) : (n.upToReturns a).isReturn = n.isReturn := by
  unfold upToReturns
  split <;> rfl

theorem isReturn_shorten (n : Node) (kept : List ExprId) : (n.shorten kept).isReturn = n.isReturn := by
  have shortens := n.shortens_shorten kept
  generalize n.shorten kept = m at shortens
  cases shortens <;> rfl

theorem begins_upToReturn {list : List ExprId} (cut : a.lost list ≠ 0) :
    begins (a.upToReturn list) list = true := by
  have less : (a.upToReturn list).length < list.length := Nat.lt_of_sub_ne_zero cut
  simp only [begins, less, decide_true, Bool.true_and, List.isPrefixOf_iff_prefix]
  exact a.upToReturn_prefix list

theorem begins_upToReturn_other {list : List ExprId} (cut : a.lost list ≠ 0) (other : List ExprId) :
    begins (a.upToReturn list) (a.upToReturn other) = false := by
  refine Bool.eq_false_iff.2 fun is => ?_
  simp only [begins, Bool.and_eq_true, decide_eq_true_eq, List.isPrefixOf_iff_prefix] at is
  rw [Arena.eq_upToReturn_of_prefix cut is.2] at is
  exact Nat.lt_irrefl _ is.1

def putBack (a : Arena) (n : Node) (list : List ExprId) : Node :=
  if a.lost list = 0 then n else n.shorten (a.upToReturn list)

theorem putBack_eq {m : Node} {list : List ExprId} (whole : a.upToReturn list = list → n = m)
    (short : a.lost list ≠ 0 → n.shorten (a.upToReturn list) = m) : putBack a n list = m := by
  unfold putBack
  split
  next none => exact whole (Arena.upToReturn_of_lost none)
  next cut => exact short cut

theorem foldl_putBack (a : Arena) (n : Node) : n.statementLists.foldl (putBack a) n = n.upToReturns a := by
  cases n with
  | block items shape =>
    cases shape with
    | none => exact putBack_eq (fun whole => by rw [upToReturns, whole]) fun _ => rfl
    | num | tuple | record | auto => rfl
  | choose cond thenItems elseItems shape =>
    cases shape with
    | none =>
      have first : putBack a (.choose cond thenItems elseItems .none) thenItems =
          .choose cond (a.upToReturn thenItems) elseItems .none := by
        refine putBack_eq (fun whole => by rw [whole]) fun cut => ?_
        simp only [shorten, begins_upToReturn cut, if_true]
      simp only [statementLists, List.foldl_cons, List.foldl_nil, first, upToReturns]
      refine putBack_eq (fun whole => by rw [whole]) fun cut => ?_
      -- the first arm is cut by now, so it is not taken for the second one
      simp only [shorten, begins_upToReturn_other cut, begins_upToReturn cut, if_true,
        Bool.false_eq_true, if_false]
    | num | tuple | record | auto => rfl
  | loop init cond step body =>
    have first : putBack a (.loop init cond step body) body =
        .loop init cond step (a.upToReturn body) := by
      refine putBack_eq (fun whole => by rw [whole]) fun cut => ?_
      simp only [shorten, begins_upToReturn cut, if_true]
    simp only [statementLists, List.foldl_cons, List.foldl_nil, first, upToReturns]
    refine putBack_eq (fun whole => by rw [whole]) fun cut => ?_
    simp only [shorten, begins_upToReturn_other cut, begins_upToReturn cut, if_true,
      Bool.false_eq_true, if_false]
  | _ => rfl

theorem isReturn_putBack (a : Arena) (n : Node) (list : List ExprId) :
    (putBack a n list).isReturn = n.isReturn := by
  unfold putBack
  split
  · rfl
  · exact isReturn_shorten n _

end Node

namespace Unreachable

variable {a : Arena} {s t u : State} {id : ExprId}

theorem bind_of_ok {α β : Type} {m : CutM α} {f : α → CutM β} {x : α} (run : m s = .ok x t) :
    (m >>= f) s = f x t := by
  simp only [bind, EStateM.bind, run]

theorem ask_of_ok {α : Type} {question : Arena → Except BuildError α} {x : α}
    (answer : question s.arena = .ok x) : ask question s = .ok x s := by
  have seen : (get : CutM State) s = .ok s s := rfl
  simp only [ask, bind, EStateM.bind, seen, answer]
  rfl

/-- A state is another one but for the node behind a handle, and more statements are cut off. -/
structure Rewrites (s t : State) (id : ExprId) (node : Node) (n : Nat) : Prop where
  here : t.arena.entries[id]? = (s.arena.entries[id]?).map fun entry => { entry with node }
  others : ∀ other, other ≠ id → t.arena.entries[other]? = s.arena.entries[other]?
  removed : t.removed = s.removed + n

namespace Rewrites

variable {node other : Node} {m n : Nat}

theorem refl (here : s.arena.node id = .ok node) : Rewrites s s id node 0 := by
  obtain ⟨label, entry⟩ := Arena.node_eq_ok_iff.1 here
  exact ⟨by rw [entry]; rfl, fun _ _ => rfl, rfl⟩

theorem trans (first : Rewrites s t id node m) (second : Rewrites t u id other n) :
    Rewrites s u id other (m + n) where
  here := by
    rw [second.here, first.here, Option.map_map]
    rfl
  others x apart := (second.others x apart).trans (first.others x apart)
  removed := by rw [second.removed, first.removed, Nat.add_assoc]

theorem node_eq (rewrites : Rewrites s t id node n) {old : Node} (here : s.arena.node id = .ok old) :
    t.arena.node id = .ok node :=
  Arena.node_of_changed (f := fun _ => node) rewrites.here here

theorem isReturn (rewrites : Rewrites s t id node n) {old : Node} (here : s.arena.node id = .ok old)
    (same : node.isReturn = old.isReturn) (x : ExprId) : t.arena.isReturn x = s.arena.isReturn x := by
  by_cases is : x = id
  · subst is
    rw [Arena.isReturn_of_node here, Arena.isReturn_of_node (rewrites.node_eq here), same]
  · simp only [Arena.isReturn, Arena.node_eq_of_entry (rewrites.others x is)]

theorem lt_size (rewrites : Rewrites s t id node n) {x : ExprId} (known : x < s.arena.size) :
    x < t.arena.size := by
  obtain ⟨entry, found⟩ : ∃ entry, t.arena.entries[x]? = some entry := by
    have found : s.arena.entries[x]? = some s.arena.entries[x] := Array.getElem?_eq_getElem known
    by_cases is : x = id
    · subst is
      exact ⟨_, by rw [rewrites.here, found]; rfl⟩
    · exact ⟨_, (rewrites.others x is).trans found⟩
  exact (Array.getElem?_eq_some_iff.1 found).1

end Rewrites

theorem exists_cutList {node : Node} {list : List ExprId} (here : s.arena.node id = .ok node)
    (known : ∀ x ∈ s.arena.upToReturn list, x < s.arena.size) :
    ∃ t, cutList id list s = .ok (s.arena.upToReturn list) t ∧
      Rewrites s t id (node.putBack s.arena list) (s.arena.lost list) := by
  have cut : ask (·.cut list) s = .ok (s.arena.upToReturn list, s.arena.lost list) s :=
    ask_of_ok (Arena.cut_eq known)
  by_cases none : s.arena.lost list = 0
  · refine ⟨s, ?_, ?_⟩
    · rw [cutList, bind_of_ok cut]
      simp only [none]
      rfl
    · rw [Node.putBack, if_pos none, none]
      exact .refl here
  · obtain ⟨label, entry⟩ := Arena.node_eq_ok_iff.1 here
    let shorter : Entry := ⟨node.shorten (s.arena.upToReturn list), label⟩
    let t : State := ⟨⟨s.arena.entries.setIfInBounds id shorter⟩, s.removed + s.arena.lost list⟩
    refine ⟨t, ?_, ?_, ?_, rfl⟩
    · have found : ask (·.node id) s = .ok node s := ask_of_ok here
      have replaced : ask (·.replace id shorter.node) s = .ok t.arena s :=
        ask_of_ok (Arena.replace_eq_ok entry _)
      rw [cutList, bind_of_ok cut]
      simp only [none, ne_eq, not_false_eq_true, if_true]
      rw [bind_of_ok found, bind_of_ok replaced]
      rfl
    · rw [Node.putBack, if_neg none, entry]
      simp [t, shorter, (Array.getElem?_eq_some_iff.1 entry).1]
    · exact fun other apart => Array.getElem?_setIfInBounds_ne apart.symm

theorem exists_cutLists {node : Node} {lists : List (List ExprId)} (here : s.arena.node id = .ok node)
    (known : ∀ list ∈ lists, ∀ x ∈ s.arena.upToReturn list, x < s.arena.size) :
    ∃ t, cutLists id lists s = .ok (lists.flatMap s.arena.upToReturn) t ∧
      Rewrites s t id (lists.foldl (Node.putBack s.arena) node) (lists.map s.arena.lost).sum := by
  induction lists generalizing s node with
  | nil => exact ⟨s, rfl, .refl here⟩
  | cons list rest ih =>
    obtain ⟨t, run, rewrites⟩ := exists_cutList here (known list List.mem_cons_self)
    -- the lists end where they ended before
    have returns := rewrites.isReturn here (Node.isReturn_putBack _ _ _)
    have same : t.arena.upToReturn = s.arena.upToReturn := funext (Arena.upToReturn_congr returns)
    have lost : t.arena.lost = s.arena.lost := by
      funext list
      rw [Arena.lost, same, Arena.lost]
    have putBack : Node.putBack t.arena = Node.putBack s.arena := by
      funext node list
      rw [Node.putBack, lost, same, Node.putBack]
    have inside : ∀ list ∈ rest, ∀ x ∈ t.arena.upToReturn list, x < t.arena.size := by
      intro other mem x inList
      rw [same] at inList
      exact rewrites.lt_size (known other (List.mem_cons_of_mem list mem) x inList)
    obtain ⟨u, more, rewrites'⟩ := ih (rewrites.node_eq here) inside
    rw [same] at more
    rw [putBack, lost] at rewrites'
    refine ⟨u, ?_, rewrites.trans rewrites'⟩
    rw [cutLists, bind_of_ok run, bind_of_ok more]
    rfl

/-- The lists of these expressions are cut, nothing else is changed, and what they lost is counted
once on top of `n`. -/
structure Cleared (a : Arena) (n : Nat) (done : Finset ExprId) (s : State) : Prop where
  cut : ∀ id ∈ done, s.arena.entries[id]? =
    (a.entries[id]?).map fun entry => { entry with node := entry.node.upToReturns a }
  kept : ∀ id, id ∉ done → s.arena.entries[id]? = a.entries[id]?
  removed : s.removed = n + done.sum a.lostAt

namespace Cleared

variable {n : Nat} {done : Finset ExprId} {node : Node}

theorem node_of_mem (cleared : Cleared a n done s) (mem : id ∈ done) (here : a.node id = .ok node) :
    s.arena.node id = .ok (node.upToReturns a) :=
  Arena.node_of_changed (f := Node.upToReturns a) (cleared.cut id mem) here

theorem node_of_notMem (cleared : Cleared a n done s) (new : id ∉ done) :
    s.arena.node id = a.node id :=
  Arena.node_eq_of_entry (cleared.kept id new)

theorem size (cleared : Cleared a n done s) : s.arena.size = a.size := by
  refine Arena.size_eq_of_entries fun x => ?_
  by_cases mem : x ∈ done
  · rw [cleared.cut x mem, Option.map_eq_none_iff]
  · rw [cleared.kept x mem]

theorem upToReturn (cleared : Cleared a n done s) : s.arena.upToReturn = a.upToReturn := by
  funext list
  refine Arena.upToReturn_congr (fun x => ?_) list
  by_cases mem : x ∈ done
  · simp only [Arena.isReturn, Arena.node, Arena.get, cleared.cut x mem]
    cases a.entries[x]? with
    | none => rfl
    | some entry => exact Node.isReturn_upToReturns a entry.node
  · simp only [Arena.isReturn, cleared.node_of_notMem mem]

theorem lost (cleared : Cleared a n done s) : s.arena.lost = a.lost := by
  funext list
  rw [Arena.lost, cleared.upToReturn, Arena.lost]

theorem upToReturns (cleared : Cleared a n done s) (node : Node) :
    node.upToReturns s.arena = node.upToReturns a := by
  unfold Node.upToReturns
  rw [cleared.upToReturn]

/-- What a cleared statement still has in its lists is what stood in front of returns. -/
theorem holds_iff (cleared : Cleared a n done s) (mem : id ∈ done) (child : ExprId) :
    s.arena.Holds id child ↔ a.Nests id child := by
  constructor
  · rintro ⟨other, there, list, isShort, inList⟩
    obtain ⟨node, here⟩ := Arena.exists_node_of_lt (cleared.size ▸ Arena.lt_size_of_node there)
    cases there.symm.trans (cleared.node_of_mem mem here)
    rw [Node.statementLists_upToReturns] at isShort
    obtain ⟨whole, isList, rfl⟩ := List.mem_map.1 isShort
    exact ⟨node, here, whole, isList, inList⟩
  · rintro ⟨node, here, list, isList, inList⟩
    refine ⟨_, cleared.node_of_mem mem here, a.upToReturn list, ?_, inList⟩
    rw [Node.statementLists_upToReturns]
    exact List.mem_map_of_mem isList

/-- Looking at the lists of a statement, be it for the first time or again. -/
theorem cutLists (cleared : Cleared a n done s) (here : a.node id = .ok node)
    (known : ∀ child ∈ node.children, child < a.size) :
    ∃ now t, s.arena.node id = .ok now ∧ cutLists id now.statementLists s =
        .ok (node.statementLists.flatMap a.upToReturn) t ∧ Cleared a n (insert id done) t := by
  have inside : ∀ list ∈ node.statementLists, ∀ x ∈ a.upToReturn list, x < a.size :=
    fun list isList x mem =>
      known x (Node.mem_children_of_mem_list isList ((a.upToReturn_prefix list).subset mem))
  by_cases again : id ∈ done
  · -- its lists lose nothing more
    have there := cleared.node_of_mem again here
    have inside : ∀ list ∈ (node.upToReturns a).statementLists, ∀ x ∈ s.arena.upToReturn list,
        x < s.arena.size := by
      rw [Node.statementLists_upToReturns, cleared.upToReturn, cleared.size]
      intro list isShort x mem
      obtain ⟨whole, isList, rfl⟩ := List.mem_map.1 isShort
      rw [Arena.upToReturn_upToReturn] at mem
      exact inside whole isList x mem
    obtain ⟨t, run, rewrites⟩ := exists_cutLists there inside
    rw [Node.foldl_putBack, cleared.upToReturns, Node.upToReturns_upToReturns,
      Node.statementLists_upToReturns, cleared.lost, List.map_map] at rewrites
    have nothing : (node.statementLists.map (a.lost ∘ a.upToReturn)).sum = 0 :=
      List.sum_eq_zero fun x mem => by
        obtain ⟨list, _, rfl⟩ := List.mem_map.1 mem
        exact a.lost_upToReturn list
    have entries (x : ExprId) : t.arena.entries[x]? = s.arena.entries[x]? := by
      by_cases is : x = id
      · subst is
        obtain ⟨label, entry⟩ := Arena.node_eq_ok_iff.1 there
        rw [rewrites.here, entry]
        rfl
      · exact rewrites.others x is
    refine ⟨_, t, there, ?_, ?_⟩
    · rw [run, cleared.upToReturn, Node.statementLists_upToReturns, List.flatMap_map]
      simp only [Arena.upToReturn_upToReturn]
    · rw [Finset.insert_eq_self.2 again]
      exact ⟨fun x mem => (entries x).trans (cleared.cut x mem),
        fun x new => (entries x).trans (cleared.kept x new),
        by rw [rewrites.removed, nothing, Nat.add_zero, cleared.removed]⟩
  -- for the first time: its lists are cut, and what they lose is counted once
  · have there := (cleared.node_of_notMem again).trans here
    have inside : ∀ list ∈ node.statementLists, ∀ x ∈ s.arena.upToReturn list,
        x < s.arena.size := by
      rw [cleared.upToReturn, cleared.size]
      exact inside
    obtain ⟨t, run, rewrites⟩ := exists_cutLists there inside
    rw [Node.foldl_putBack, cleared.upToReturns, cleared.lost] at rewrites
    refine ⟨node, t, there, by rw [run, cleared.upToReturn], fun x mem => ?_, fun x new => ?_, ?_⟩
    · by_cases is : x = id
      · subst is
        obtain ⟨label, entry⟩ := Arena.node_eq_ok_iff.1 here
        rw [rewrites.here, cleared.kept x again, entry]
        rfl
      · exact (rewrites.others x is).trans
          (cleared.cut x ((Finset.mem_insert.1 mem).resolve_left is))
    · obtain ⟨apart, new⟩ := not_or.1 (mt Finset.mem_insert.2 new)
      exact (rewrites.others x apart).trans (cleared.kept x new)
    · have own : a.lostAt id = (node.statementLists.map a.lost).sum := by
        rw [Arena.lostAt, here]
        rfl
      rw [rewrites.removed, cleared.removed, Finset.sum_insert again, own, Nat.add_assoc,
        Nat.add_comm (done.sum a.lostAt)]

end Cleared

def Clears (a : Arena) (n : Nat) (m : CutM Unit) (more : ExprId → Prop) : Prop :=
  ∀ s done, Cleared a n done s → ∃ t after, m s = .ok ⟨⟩ t ∧ Cleared a n after t ∧
    ∀ x, x ∈ after ↔ x ∈ done ∨ more x

theorem Clears.forM {n : Nat} {f : ExprId → CutM Unit} {more : ExprId → ExprId → Prop}
    {ids : List ExprId} (each : ∀ id ∈ ids, Clears a n (f id) (more id)) :
    Clears a n (ids.forM f) fun x => ∃ id ∈ ids, more id x := by
  induction ids with
  | nil => exact fun s done cleared => ⟨s, done, rfl, cleared, fun x => by simp⟩
  | cons id rest ih =>
    intro s done cleared
    obtain ⟨t, between, first, cleared, here⟩ := each id List.mem_cons_self s done cleared
    obtain ⟨u, after, others, cleared, there⟩ :=
      ih (fun other mem => each other (List.mem_cons_of_mem id mem)) t between cleared
    refine ⟨u, after, (bind_of_ok first).trans others, cleared, fun x => ?_⟩
    rw [there, here]
    simp only [List.mem_cons, exists_eq_or_imp, or_assoc]

theorem clears_visitWithin {depth : Nat} (shallow : a.Shallow depth id) (n : Nat) :
    Clears a n (visitWithin depth id) (Relation.ReflTransGen a.Nests id) := by
  -- on the depth of nesting; what was cleared before stays cleared
  induction depth generalizing id with
  | zero => exact shallow.elim
  | succ depth ih =>
    intro s done cleared
    obtain ⟨node, here, below⟩ := shallow
    obtain ⟨now, t, there, cut, cleared⟩ :=
      cleared.cutLists here fun child mem => (below child mem).lt_size
    have nested (child : ExprId) :
        child ∈ (node.statementLists.flatMap a.upToReturn).reverse ↔ a.Nests id child := by
      rw [List.mem_reverse, List.mem_flatMap]
      constructor
      · rintro ⟨list, isList, mem⟩
        exact ⟨node, here, list, isList, mem⟩
      · rintro ⟨other, there, list, isList, mem⟩
        cases here.symm.trans there
        exact ⟨list, isList, mem⟩
    have deeper : ∀ child ∈ (node.statementLists.flatMap a.upToReturn).reverse,
        a.Shallow depth child := by
      intro child mem
      obtain ⟨list, isList, mem⟩ := List.mem_flatMap.1 (List.mem_reverse.1 mem)
      exact below child
        (Node.mem_children_of_mem_list isList ((a.upToReturn_prefix list).subset mem))
    obtain ⟨u, after, rest, cleared, all⟩ :=
      Clears.forM (fun child mem => ih (deeper child mem)) t _ cleared
    refine ⟨u, after, ?_, cleared, fun x => ?_⟩
    · rw [visitWithin, bind_of_ok (ask_of_ok there), bind_of_ok cut]
      exact rest
    · -- what a statement leads to is itself and what the statements in it lead to
      rw [all, Finset.mem_insert, Relation.ReflTransGen.cases_head_iff]
      simp only [nested]
      constructor
      · rintro ((rfl | old) | later)
        · exact .inr (.inl rfl)
        · exact .inl old
        · exact .inr (.inr later)
      · rintro (old | rfl | later)
        · exact .inl (.inr old)
        · exact .inl (.inl rfl)
        · exact .inr later

/-- What is behind the first return of a body, and of each statement list that is reached from it,
is cut off and counted once. Nothing else changes. -/
theorem cuts_behind_returns {body : List ExprId} (acyclic : a.Acyclic) (closed : a.Closed)
    (known : ∀ id ∈ a.upToReturn body, id < a.size) :
    a.cut body = .ok (a.upToReturn body, a.lost body) ∧
    ∃ (c : Arena) (total : Nat) (reached : Finset ExprId),
      (visitAll (a.upToReturn body)).run ⟨a, a.lost body⟩ = .ok ⟨⟩ ⟨c, total⟩ ∧
      (∀ id, id ∈ reached ↔ ∃ root ∈ a.upToReturn body, Relation.ReflTransGen a.Nests root id) ∧
      (∀ id, id ∈ reached ↔ ∃ root ∈ a.upToReturn body, Relation.ReflTransGen c.Holds root id) ∧
      (∀ id ∈ reached, c.entries[id]? =
        (a.entries[id]?).map fun entry => { entry with node := entry.node.upToReturns a }) ∧
      (∀ id, id ∉ reached → c.entries[id]? = a.entries[id]?) ∧
      total = a.lost body + reached.sum a.lostAt := by
  refine ⟨Arena.cut_eq known, ?_⟩
  have start : Cleared a (a.lost body) ∅ ⟨a, a.lost body⟩ :=
    ⟨fun id mem => absurd mem (Finset.notMem_empty id), fun _ _ => rfl, rfl⟩
  obtain ⟨⟨c, total⟩, reached, run, cleared, all⟩ := Clears.forM (fun id mem =>
    clears_visitWithin ((acyclic.shallow closed (known id (List.mem_reverse.1 mem))).succ) _) _ _ start
  have leads (id : ExprId) : id ∈ reached ↔
      ∃ root ∈ a.upToReturn body, Relation.ReflTransGen a.Nests root id := by
    rw [all]
    simp only [Finset.notMem_empty, false_or, List.mem_reverse]
  refine ⟨c, total, reached, run, leads, fun id => ?_, cleared.cut, cleared.kept, cleared.removed⟩
  rw [leads]
  refine exists_congr fun root => and_congr_right fun isRoot => ?_
  -- all statements on the way are reached themselves
  constructor
  · intro path
    induction path with
    | refl => exact .refl
    | tail before nests ih =>
      exact ih.tail ((cleared.holds_iff ((leads _).2 ⟨root, isRoot, before⟩) _).2 nests)
  · intro path
    induction path with
    | refl => exact .refl
    | tail _ holds ih =>
      exact ih.tail ((cleared.holds_iff ((leads _).2 ⟨root, isRoot, ih⟩) _).1 holds)

/-- A choice whose arms begin alike and go on behind a return, in a block and in a loop, and a block
that somebody uses. -/
def overlappingArms : Arena := ⟨#[⟨.const (.i32 1), none⟩, ⟨.ret none, none⟩, ⟨.nop, none⟩,
  ⟨.choose 0 [2, 1, 2] [2, 1, 2, 2] .none, some .none⟩, ⟨.block [3, 1, 3] .none, none⟩,
  ⟨.loop [] 0 [1, 2] [3, 1, 2], none⟩, ⟨.block [1, 0] (.num .i32), none⟩]⟩

theorem cuts_behind_returns_of_overlapping :
    overlappingArms.Acyclic ∧ overlappingArms.Closed ∧
    (∀ id ∈ overlappingArms.upToReturn [4, 6, 5, 1, 3], id < overlappingArms.size) ∧
    overlappingArms.cut [4, 6, 5, 1, 3] = .ok ([4, 6, 5, 1], 1) ∧
    ∃ (c : Arena) (total : Nat),
      (visitAll [4, 6, 5, 1]).run ⟨overlappingArms, 1⟩ = .ok ⟨⟩ ⟨c, total⟩ ∧ total = 7 ∧
      c.node 3 = .ok (.choose 0 [2, 1] [2, 1] .none) ∧ c.node 4 = .ok (.block [3, 1] .none) ∧
      c.node 5 = .ok (.loop [] 0 [1] [3, 1]) ∧ c.node 6 = overlappingArms.node 6 := by
  have ordered : overlappingArms.Ordered := by decide
  have known : ∀ id ∈ overlappingArms.upToReturn [4, 6, 5, 1, 3], id < overlappingArms.size := by
    decide
  obtain ⟨cut, c, total, _, run, _⟩ := cuts_behind_returns ordered.acyclic ordered.closed known
  refine ⟨ordered.acyclic, ordered.closed, known, cut, c, total, run, ?_⟩
  have state : (visitAll [4, 6, 5, 1]).run ⟨overlappingArms, 1⟩ = .ok ⟨⟩ ⟨⟨#[
      ⟨.const (.i32 1), none⟩, ⟨.ret none, none⟩, ⟨.nop, none⟩,
      ⟨.choose 0 [2, 1] [2, 1] .none, some .none⟩, ⟨.block [3, 1] .none, none⟩,
      ⟨.loop [] 0 [1] [3, 1], none⟩, ⟨.block [1, 0] (.num .i32), none⟩]⟩, 7⟩ := rfl
  cases run.symm.trans state
  decide

end Unreachable

end WasmBuilder
