import Mathlib.Logic.Relation
import WasmBuilder.Proofs.Simplify.Acyclic

/-!
What a body comes to without its grouping blocks.

Flattening follows blocks down to the bound of the arena. What it comes to is told here without any
bound, by what becomes of each statement, and it is also where a loop over a stack of statements ends.
-/

set_option autoImplicit false

namespace WasmBuilder.Arena

/-- A block that leaves nothing and only groups these items. -/
def Groups (a : Arena) (id : ExprId) (items : List ExprId) : Prop :=
  ∃ shape, a.node id = .ok (.block items shape) ∧ shape.isOpen = true ∧ a.slots id = .ok []

def Stays (a : Arena) (id : ExprId) : Prop :=
  (∃ ts, a.slots id = .ok ts) ∧ ∀ items, ¬ a.Groups id items

def Opens (a : Arena) (id item : ExprId) : Prop := ∃ items, a.Groups id items ∧ item ∈ items

/-- A list of statements without grouping blocks: the items of each stand in its place, and all other
statements stay where they are. The number counts the blocks. -/
inductive Expansion (a : Arena) : List ExprId → List ExprId → Nat → Prop
  | nil : Expansion a [] [] 0
  | keep {id : ExprId} {rest flat : List ExprId} {n : Nat} (stays : a.Stays id)
      (behind : Expansion a rest flat n) : Expansion a (id :: rest) (id :: flat) n
  | splice {id : ExprId} {items rest first others : List ExprId} {m n : Nat}
      (groups : a.Groups id items) (inside : Expansion a items first m)
      (behind : Expansion a rest others n) :
      Expansion a (id :: rest) (first ++ others) (m + n + 1)

/-- One turn of a loop over a stack of statements. What is done with goes out, and the items of a
grouping block go onto the stack. -/
inductive Turn (a : Arena) :
    List ExprId × List ExprId × Nat → List ExprId × List ExprId × Nat → Prop
  | keep {id : ExprId} {work out : List ExprId} {n : Nat} (stays : a.Stays id) :
      Turn a (id :: work, out, n) (work, out ++ [id], n)
  | splice {id : ExprId} {items work out : List ExprId} {n : Nat} (groups : a.Groups id items) :
      Turn a (id :: work, out, n) (items ++ work, out, n + 1)

variable {a : Arena} {id : ExprId} {items body flat : List ExprId} {n : Nat}

theorem Groups.unique {others : List ExprId} (groups : a.Groups id items) (again : a.Groups id others) :
    items = others := by
  obtain ⟨_, here, _⟩ := groups
  obtain ⟨_, there, _⟩ := again
  cases here.symm.trans there
  rfl

/-- A statement is known to group, or to stay, or it is not known what it leaves. -/
theorem groupedStatements?_cases (a : Arena) (id : ExprId) :
    (∃ items, a.groupedStatements? id = .ok (some items) ∧ a.Groups id items) ∨
    (a.groupedStatements? id = .ok none ∧ a.Stays id) ∨
    ∃ e, a.groupedStatements? id = .error e ∧ a.slots id = .error e := by
  cases slots : a.slots id with
  | error e =>
    refine .inr (.inr ⟨e, ?_, rfl⟩)
    rw [groupedStatements?, slots]
    rfl
  | ok ts =>
    obtain ⟨node, here, _⟩ := slotsWithin_succ_eq_ok_iff.1 slots
    -- only a block can be a grouping one
    cases node with
    | block items shape =>
      have found : a.groupedStatements? id =
          .ok (if ts.isEmpty && shape.isOpen then some items else none) := by
        rw [groupedStatements?, slots, here]
        rfl
      cases groups : ts.isEmpty && shape.isOpen with
      | true =>
        rw [groups] at found
        rw [Bool.and_eq_true, List.isEmpty_iff] at groups
        exact .inl ⟨items, found, shape, here, groups.2, groups.1 ▸ slots⟩
      | false =>
        rw [groups] at found
        refine .inr (.inl ⟨found, ⟨ts, slots⟩, ?_⟩)
        rintro others ⟨shape', there, isOpen, empty⟩
        cases here.symm.trans there
        cases slots.symm.trans empty
        rw [isOpen] at groups
        cases groups
    | _ =>
      refine .inr (.inl ⟨?_, ⟨ts, slots⟩, ?_⟩)
      · rw [groupedStatements?, slots, here]
        rfl
      · rintro items ⟨shape, there, _⟩
        cases here.symm.trans there

theorem expandWithin_of_groups (found : a.groupedStatements? id = .ok (some items)) (depth : Nat) :
    a.expandWithin (depth + 1) id =
      (expandAll (a.expandWithin depth) items).map fun inside => (inside.1, inside.2 + 1) := by
  rw [expandWithin, found]
  simp only [bind, Except.bind]
  cases expandAll (a.expandWithin depth) items <;> rfl

theorem expandWithin_of_stays (found : a.groupedStatements? id = .ok none) (depth : Nat) :
    a.expandWithin (depth + 1) id = .ok ([id], 0) := by
  rw [expandWithin, found]
  rfl

namespace Expansion

theorem append {first second flat' : List ExprId} {m : Nat} (before : a.Expansion first flat m)
    (behind : a.Expansion second flat' n) : a.Expansion (first ++ second) (flat ++ flat') (m + n) := by
  induction before with
  | nil => simpa using behind
  | keep stays _ ih => exact .keep stays ih
  | @splice id items rest first others m k groups inside _ _ ih =>
    rw [List.cons_append, List.append_assoc, show m + k + 1 + n = m + (k + n) + 1 by omega]
    exact .splice groups inside ih

theorem unique {flat' : List ExprId} {n' : Nat} (expansion : a.Expansion body flat n)
    (again : a.Expansion body flat' n') : flat' = flat ∧ n' = n := by
  induction expansion generalizing flat' n' with
  | nil =>
    cases again
    exact ⟨rfl, rfl⟩
  | keep stays _ ih =>
    cases again with
    | keep _ behind =>
      obtain ⟨rfl, rfl⟩ := ih behind
      exact ⟨rfl, rfl⟩
    | splice groups => exact absurd groups (stays.2 _)
  | splice groups _ _ first second =>
    cases again with
    | keep stays => exact absurd groups (stays.2 _)
    | splice groups' inside behind =>
      cases groups.unique groups'
      obtain ⟨rfl, rfl⟩ := first inside
      obtain ⟨rfl, rfl⟩ := second behind
      exact ⟨rfl, rfl⟩

theorem stays (expansion : a.Expansion body flat n) : ∀ id ∈ flat, a.Stays id := by
  induction expansion with
  | nil => exact fun _ mem => absurd mem List.not_mem_nil
  | keep stays _ ih => exact List.forall_mem_cons.2 ⟨stays, ih⟩
  | splice _ _ _ first second => exact List.forall_mem_append.2 ⟨first, second⟩

theorem known (expansion : a.Expansion body flat n) {root : ExprId} (isRoot : root ∈ body)
    (path : Relation.ReflTransGen a.Opens root id) : ∃ ts, a.slots id = .ok ts := by
  induction expansion generalizing root with
  | nil => cases isRoot
  | keep stays _ ih =>
    rcases List.mem_cons.1 isRoot with rfl | mem
    · rcases path.cases_head with rfl | ⟨_, ⟨items, groups, _⟩, _⟩
      · exact stays.1
      · exact absurd groups (stays.2 items)
    · exact ih mem path
  | splice groups _ _ first second =>
    rcases List.mem_cons.1 isRoot with rfl | mem
    · rcases path.cases_head with rfl | ⟨item, ⟨items, groups', mem⟩, rest⟩
      · obtain ⟨_, _, _, slots⟩ := groups
        exact ⟨[], slots⟩
      · cases groups.unique groups'
        exact first mem rest
    · exact second mem path

/-- The loop over a stack comes to the same. -/
theorem turns (expansion : a.Expansion body flat n) (work out : List ExprId) (k : Nat) :
    Relation.ReflTransGen a.Turn (body ++ work, out, k) (work, out ++ flat, k + n) := by
  induction expansion generalizing work out k with
  | nil =>
    rw [List.append_nil]
    exact .refl
  | @keep id rest flat n stays _ ih =>
    have later := ih work (out ++ [id]) k
    rw [List.append_assoc, List.singleton_append] at later
    exact .head (.keep stays) later
  | @splice id items rest first others m n groups _ _ one two =>
    -- the items are worked off before anything behind the block
    have opened := one (rest ++ work) out (k + 1)
    have later := two work (out ++ first) (k + 1 + m)
    rw [List.append_assoc, show k + 1 + m + n = k + (m + n + 1) by omega] at later
    exact .head (.splice groups) (opened.trans later)

end Expansion

theorem expansion_of_expandAll {expand : ExprId → Except BuildError (List ExprId × Nat)}
    (each : ∀ id flat n, expand id = .ok (flat, n) → a.Expansion [id] flat n)
    (done : expandAll expand body = .ok (flat, n)) : a.Expansion body flat n := by
  induction body generalizing flat n with
  | nil =>
    cases done
    exact .nil
  | cons id rest ih =>
    obtain ⟨⟨first, k⟩, head, done⟩ := bind_eq_ok_iff.1 done
    obtain ⟨⟨others, l⟩, tail, done⟩ := bind_eq_ok_iff.1 done
    cases done
    exact (each id first k head).append (ih tail)

theorem expansion_of_expandWithin {depth : Nat} (done : a.expandWithin depth id = .ok (flat, n)) :
    a.Expansion [id] flat n := by
  induction depth generalizing id flat n with
  | zero => cases done
  | succ depth ih =>
    obtain ⟨grouped, found, done⟩ := bind_eq_ok_iff.1 done
    rcases a.groupedStatements?_cases id with ⟨items, is, groups⟩ | ⟨is, stays⟩ | ⟨e, is, _⟩
    · cases found.symm.trans is
      obtain ⟨⟨statements, k⟩, all, done⟩ := bind_eq_ok_iff.1 done
      cases done
      have inside := expansion_of_expandAll (fun _ _ _ => ih) all
      simpa using Expansion.splice groups inside .nil
    · cases found.symm.trans is
      cases done
      exact .keep stays .nil
    · cases found.symm.trans is

theorem expansion_of_flattenBlocks (done : a.flattenBlocks body = .ok (flat, n)) :
    a.Expansion body flat n :=
  expansion_of_expandAll (fun _ _ _ => expansion_of_expandWithin) done

theorem expandAll_cons_of_ok {expand : ExprId → Except BuildError (List ExprId × Nat)}
    {first others : List ExprId} {m k : Nat} (head : expand id = .ok (first, m))
    (tail : expandAll expand body = .ok (others, k)) :
    expandAll expand (id :: body) = .ok (first ++ others, m + k) := by
  rw [expandAll, head, tail]
  rfl

/-- Some statement is met of which it is not known what it leaves. -/
def Unknown (a : Arena) (body : List ExprId) (e : BuildError) : Prop :=
  ∃ root ∈ body, ∃ id, Relation.ReflTransGen a.Opens root id ∧ a.slots id = .error e

theorem expandAll_cases {expand : ExprId → Except BuildError (List ExprId × Nat)}
    (each : ∀ id ∈ body, (∃ flat n, expand id = .ok (flat, n)) ∨
      ∃ e, expand id = .error e ∧ a.Unknown [id] e) :
    (∃ flat n, expandAll expand body = .ok (flat, n)) ∨
      ∃ e, expandAll expand body = .error e ∧ a.Unknown body e := by
  induction body with
  | nil => exact .inl ⟨[], 0, rfl⟩
  | cons id rest ih =>
    rcases each id List.mem_cons_self with ⟨first, m, head⟩ | ⟨e, failed, root, isRoot, unknown⟩
    · rcases ih fun other mem => each other (List.mem_cons_of_mem id mem) with
        ⟨others, k, tail⟩ | ⟨e, failed, root, isRoot, unknown⟩
      · exact .inl ⟨first ++ others, m + k, expandAll_cons_of_ok head tail⟩
      · refine .inr ⟨e, ?_, root, List.mem_cons_of_mem id isRoot, unknown⟩
        rw [expandAll, head, failed]
        rfl
    · cases List.mem_singleton.1 isRoot
      refine .inr ⟨e, ?_, _, List.mem_cons_self, unknown⟩
      rw [expandAll, failed]
      rfl

theorem expandWithin_cases (acyclic : a.Acyclic) {depth : Nat} (any : 0 < depth)
    (enough : id < a.size → a.rank id + 1 < depth) :
    (∃ flat n, a.expandWithin depth id = .ok (flat, n)) ∨
      ∃ e, a.expandWithin depth id = .error e ∧ a.Unknown [id] e := by
  induction depth generalizing id with
  | zero => exact absurd any (Nat.lt_irrefl 0)
  | succ depth ih =>
    rcases a.groupedStatements?_cases id with ⟨items, found, groups⟩ | ⟨found, stays⟩ | ⟨e, found, slots⟩
    · -- the items of a block have lower ranks, so one level less is enough for them
      have ⟨shape, here, _⟩ := groups
      have less := enough (lt_size_of_node here)
      have each : ∀ item ∈ items, (∃ flat n, a.expandWithin depth item = .ok (flat, n)) ∨
          ∃ e, a.expandWithin depth item = .error e ∧ a.Unknown [item] e := by
        intro item mem
        refine ih (by omega) fun known => ?_
        have lower := acyclic.rank_lt here mem known
        omega
      rcases expandAll_cases each with ⟨flat, n, all⟩ | ⟨e, failed, root, isRoot, x, path, slots⟩
      · exact .inl ⟨flat, n + 1, by rw [expandWithin_of_groups found, all]; rfl⟩
      · refine .inr ⟨e, ?_, id, List.mem_singleton_self id, x, .head ⟨items, groups, isRoot⟩ path, slots⟩
        rw [expandWithin_of_groups found, failed]
        rfl
    · exact .inl ⟨[id], 0, expandWithin_of_stays found depth⟩
    · refine .inr ⟨e, ?_, id, List.mem_singleton_self id, id, .refl, slots⟩
      rw [expandWithin, found]
      rfl

theorem flattenBlocks_cases (acyclic : a.Acyclic) (body : List ExprId) :
    (∃ flat n, a.flattenBlocks body = .ok (flat, n)) ∨
      ∃ e, a.flattenBlocks body = .error e ∧ a.Unknown body e :=
  expandAll_cases fun _ _ => expandWithin_cases acyclic (Nat.succ_pos a.size) fun known =>
    Nat.succ_lt_succ (acyclic.rank_lt_size known)

theorem flattenBlocks_eq_ok_iff (acyclic : a.Acyclic) :
    a.flattenBlocks body = .ok (flat, n) ↔ a.Expansion body flat n := by
  constructor
  · exact expansion_of_flattenBlocks
  · intro expansion
    rcases flattenBlocks_cases acyclic body with ⟨flat', n', done⟩ | ⟨e, _, root, isRoot, id, path, slots⟩
    · obtain ⟨rfl, rfl⟩ := expansion.unique (expansion_of_flattenBlocks done)
      exact done
    · obtain ⟨ts, known⟩ := expansion.known isRoot path
      cases slots.symm.trans known

end WasmBuilder.Arena
