import Mathlib.Logic.Hydra
import WasmBuilder.Proofs.Course.Grounded
import WasmBuilder.Proofs.Simplify.Trimmed

/-!
Loops over stacks of expressions.

Flattening and cutting can be done by loops that take an expression off a stack and put some of its
operands on. A shared expression comes onto the stack once for each of its uses, so neither the number
of expressions nor the height of the stack falls. What falls is the stack as a multiset of handles: one
handle goes, and only smaller ones come.
-/

set_option autoImplicit false

namespace WasmBuilder

def Falls (next work : List ExprId) : Prop :=
  ∃ id rest more, work = id :: rest ∧ next = more ++ rest ∧ ∀ x ∈ more, x < id

theorem wellFounded_falls : WellFounded Falls := by
  have hydra := InvImage.wf (Multiset.ofList (α := ExprId)) (Nat.lt_wfRel.wf.cutExpand)
  refine Subrelation.wf ?_ hydra
  rintro _ _ ⟨id, rest, more, rfl, rfl, smaller⟩
  refine ⟨more, id, fun x mem => smaller x (Multiset.mem_coe.1 mem), ?_⟩
  rw [← Multiset.coe_singleton, Multiset.coe_add, Multiset.coe_add, Multiset.coe_eq_coe]
  rw [List.append_assoc]
  exact List.perm_append_comm.trans ((List.perm_append_singleton id rest).append_right more)

theorem Falls.inside {next work : List ExprId} {size : Nat} (falls : Falls next work)
    (inside : ∀ id ∈ work, id < size) : ∀ id ∈ next, id < size := by
  obtain ⟨id, rest, more, rfl, rfl, smaller⟩ := falls
  have ⟨first, others⟩ := List.forall_mem_cons.1 inside
  exact List.forall_mem_append.2 ⟨fun x mem => Nat.lt_trans (smaller x mem) first, others⟩

variable {σ : Type}

/-- A loop over a stack that ends wherever it starts from here, goes one way only, and never has a
handle on its stack that is not there. -/
structure Works (turn : σ → σ → Prop) (work : σ → List ExprId) (size : Nat) (start : σ) : Prop where
  ends : Acc (fun t s => turn s t) start
  inside : ∀ s, Relation.ReflTransGen turn start s → ∀ id ∈ work s, id < size
  single : ∀ s t u, turn s t → turn s u → t = u

section
variable {turn : σ → σ → Prop} {work : σ → List ExprId} {inv : σ → Prop}

theorem acc_of_falls (step : ∀ s t, inv s → turn s t → inv t ∧ Falls (work t) (work s)) {start : σ}
    (holds : inv start) : Acc (fun t s => turn s t) start := by
  have wf := InvImage.wf work wellFounded_falls
  induction start using wf.induction with
  | _ s ih =>
    refine ⟨s, fun t taken => ?_⟩
    obtain ⟨kept, falls⟩ := step s t holds taken
    exact ih t falls kept

theorem lasts_of_step (step : ∀ s t, inv s → turn s t → inv t) {start s : σ} (holds : inv start)
    (run : Relation.ReflTransGen turn start s) : inv s := by
  induction run with
  | refl => exact holds
  | tail _ last ih => exact step _ _ ih last

theorem end_unique (single : ∀ s t u, turn s t → turn s u → t = u) {start s t : σ}
    (run : Relation.ReflTransGen turn start s) (stop : ∀ u, ¬ turn s u)
    (other : Relation.ReflTransGen turn start t) (stop' : ∀ u, ¬ turn t u) : s = t := by
  have one : Relator.RightUnique turn := fun _ _ _ => single _ _ _
  rcases Relation.ReflTransGen.total_of_right_unique one run other with further | further
  · rcases further.cases_head with same | ⟨u, first, _⟩
    · exact same
    · exact absurd first (stop u)
  · rcases further.cases_head with same | ⟨u, first, _⟩
    · exact same.symm
    · exact absurd first (stop' u)

end

namespace Arena

variable {a : Arena} {id : ExprId} {body : List ExprId}

theorem Turn.single {s t u : List ExprId × List ExprId × Nat} (first : a.Turn s t) (second : a.Turn s u) :
    t = u := by
  cases first with
  | keep stays =>
    cases second with
    | keep => rfl
    | splice groups => exact absurd groups (stays.2 _)
  | splice groups =>
    cases second with
    | keep stays => exact absurd groups (stays.2 _)
    | splice groups' => rw [groups.unique groups']

theorem Turn.falls (ordered : a.Ordered) {s t : List ExprId × List ExprId × Nat} (turn : a.Turn s t) :
    Falls t.1 s.1 := by
  cases turn with
  | keep => exact ⟨_, _, [], rfl, rfl, nofun⟩
  | splice groups =>
    obtain ⟨shape, here, -⟩ := groups
    exact ⟨_, _, _, rfl, rfl, ordered.child_lt here⟩

def Stuck (a : Arena) (e : BuildError) (s : List ExprId × List ExprId × Nat) : Prop :=
  ∃ id rest, s.1 = id :: rest ∧ a.slots id = .error e

theorem Stuck.not_turn {e : BuildError} {s t : List ExprId × List ExprId × Nat} (stuck : a.Stuck e s) :
    ¬ a.Turn s t := by
  obtain ⟨id, rest, is, unknown⟩ := stuck
  intro turn
  cases turn with
  | keep stays =>
    cases is
    obtain ⟨⟨ts, known⟩, -⟩ := stays
    cases unknown.symm.trans known
  | splice groups =>
    cases is
    obtain ⟨_, _, _, known⟩ := groups
    cases unknown.symm.trans known

section
variable {expand : ExprId → Except BuildError (List ExprId × Nat)}

theorem exists_stuck_of_expandAll {e : BuildError}
    (answers : ∀ id flat n, expand id = .ok (flat, n) → a.Expansion [id] flat n)
    (fails : ∀ id ∈ body, expand id = .error e → ∀ work out k,
      ∃ s, Relation.ReflTransGen a.Turn (id :: work, out, k) s ∧ a.Stuck e s)
    (failed : expandAll expand body = .error e) (work out : List ExprId) (k : Nat) :
    ∃ s, Relation.ReflTransGen a.Turn (body ++ work, out, k) s ∧ a.Stuck e s := by
  induction body generalizing out k with
  | nil => cases failed
  | cons id rest ih =>
    have others : ∀ x ∈ rest, expand x = .error e → ∀ work out k,
        ∃ s, Relation.ReflTransGen a.Turn (x :: work, out, k) s ∧ a.Stuck e s :=
      fun x mem => fails x (List.mem_cons_of_mem id mem)
    cases head : expand id with
    | error e' =>
      rw [expandAll, head] at failed
      cases failed
      exact fails id List.mem_cons_self head (rest ++ work) out k
    | ok answer =>
      obtain ⟨first, n⟩ := answer
      -- what expands is worked off before the rest
      have before := (answers id first n head).turns (rest ++ work) out k
      have behind : expandAll expand rest = .error e := by
        rw [expandAll, head] at failed
        cases tail : expandAll expand rest with
        | error e' =>
          rw [tail] at failed
          exact failed
        | ok answer =>
          rw [tail] at failed
          cases failed
      obtain ⟨s, run, stuck⟩ := ih others behind (out ++ first) (k + n)
      exact ⟨s, before.trans run, stuck⟩

end

section
variable (ordered : a.Ordered)

include ordered

theorem exists_stuck_of_expandWithin {depth : Nat} {e : BuildError} (known : id < a.size)
    (enough : id < depth) (failed : a.expandWithin depth id = .error e) (work out : List ExprId)
    (k : Nat) : ∃ s, Relation.ReflTransGen a.Turn (id :: work, out, k) s ∧ a.Stuck e s := by
  induction depth generalizing id work out k with
  | zero => exact absurd enough (Nat.not_lt_zero id)
  | succ depth ih =>
    rcases a.groupedStatements?_cases id with ⟨items, found, groups⟩ | ⟨found, -⟩ | ⟨e', found, slots⟩
    · have ⟨shape, here, _⟩ := groups
      have below := ordered.child_lt here
      have inner : expandAll (a.expandWithin depth) items = .error e := by
        rw [expandWithin_of_groups found] at failed
        cases all : expandAll (a.expandWithin depth) items with
        | error e' =>
          rw [all] at failed
          cases failed
          rfl
        | ok answer =>
          rw [all] at failed
          cases failed
      obtain ⟨s, run, stuck⟩ := exists_stuck_of_expandAll (fun _ _ _ => expansion_of_expandWithin)
        (fun item mem failed => ih (Nat.lt_trans (below item mem) known)
          (Nat.lt_of_lt_of_le (below item mem) (Nat.le_of_lt_succ enough)) failed)
        inner work out (k + 1)
      exact ⟨s, .head (.splice groups) run, stuck⟩
    · rw [expandWithin_of_stays found] at failed
      cases failed
    · rw [expandWithin, found] at failed
      cases failed
      exact ⟨_, .refl, id, work, rfl, slots⟩

theorem exists_stuck_of_flattenBlocks (known : ∀ id ∈ body, id < a.size) {e : BuildError}
    (failed : a.flattenBlocks body = .error e) :
    ∃ s, Relation.ReflTransGen a.Turn (body, [], 0) s ∧ a.Stuck e s := by
  have stuck := exists_stuck_of_expandAll (fun _ _ _ => expansion_of_expandWithin)
    (fun id mem failed => exists_stuck_of_expandWithin ordered (known id mem)
      (Nat.lt_succ_of_lt (known id mem)) failed) failed [] [] 0
  rwa [List.append_nil] at stuck

end

theorem turns_of_flattenBlocks {flat : List ExprId} {n : Nat}
    (done : a.flattenBlocks body = .ok (flat, n)) :
    Relation.ReflTransGen a.Turn (body, [], 0) ([], flat, n) := by
  have run := (expansion_of_flattenBlocks done).turns [] [] 0
  rwa [List.append_nil, List.nil_append, Nat.zero_add] at run

/-- Flattening by a loop: it ends with what flattening answers, or before the statement for which
flattening fails. -/
structure Flattens (a : Arena) (body : List ExprId) : Prop where
  works : Works a.Turn (fun s => s.1) a.size (body, [], 0)
  done : ∀ flat n, a.flattenBlocks body = .ok (flat, n) ↔
    Relation.ReflTransGen a.Turn (body, [], 0) ([], flat, n)
  stuck : ∀ e, a.flattenBlocks body = .error e ↔
    ∃ s, Relation.ReflTransGen a.Turn (body, [], 0) s ∧ a.Stuck e s

theorem Ordered.flattens (ordered : a.Ordered) (known : ∀ id ∈ body, id < a.size) :
    a.Flattens body := by
  have single : ∀ s t u, a.Turn s t → a.Turn s u → t = u := fun _ _ _ => Turn.single
  have finished (flat : List ExprId) (n : Nat) (t : List ExprId × List ExprId × Nat) :
      ¬ a.Turn ([], flat, n) t := nofun
  refine ⟨⟨?_, fun s run => ?_, single⟩, fun flat n => ?_, fun e => ?_⟩
  · exact acc_of_falls (fun _ _ _ turn => ⟨trivial, turn.falls ordered⟩) trivial
  · exact lasts_of_step (fun _ _ inside turn => (turn.falls ordered).inside inside) known run
  -- turns are determined, so two runs that end have one end
  · refine ⟨turns_of_flattenBlocks, fun run => ?_⟩
    cases answer : a.flattenBlocks body with
    | ok other =>
      cases end_unique single (turns_of_flattenBlocks answer) (finished _ _) run (finished _ _)
      rfl
    | error e =>
      obtain ⟨s, run', stuck⟩ := exists_stuck_of_flattenBlocks ordered known answer
      cases end_unique single run (finished _ _) run' fun _ => stuck.not_turn
      obtain ⟨_, _, ⟨⟩, _⟩ := stuck
  · refine ⟨exists_stuck_of_flattenBlocks ordered known, fun ⟨s, run, stuck⟩ => ?_⟩
    cases answer : a.flattenBlocks body with
    | ok other =>
      cases end_unique single (turns_of_flattenBlocks answer) (finished _ _) run fun _ => stuck.not_turn
      obtain ⟨_, _, ⟨⟩, _⟩ := stuck
    | error e' =>
      obtain ⟨t, run', stuck'⟩ := exists_stuck_of_flattenBlocks ordered known answer
      cases end_unique single run (fun _ => stuck.not_turn) run' fun _ => stuck'.not_turn
      obtain ⟨id, rest, is, unknown⟩ := stuck
      obtain ⟨_, _, is', unknown'⟩ := stuck'
      cases is.symm.trans is'
      cases unknown.symm.trans unknown'
      rfl

end Arena

namespace Unreachable

/-- One turn of a loop over a stack of statements. The lists of the top are cut, and what is kept goes
onto the stack, the last statement on top. -/
inductive Turn : List ExprId × State → List ExprId × State → Prop
  | mk {id : ExprId} {work nested : List ExprId} {s t : State} {node : Node}
      (here : s.arena.node id = .ok node)
      (cut : cutLists id node.statementLists s = .ok nested t) :
      Turn (id :: work, s) (nested.reverse ++ work, t)

structure Stage (size : Nat) (p : List ExprId × State) : Prop where
  ordered : p.2.arena.Ordered
  same : p.2.arena.size = size
  inside : ∀ id ∈ p.1, id < size

variable {size : Nat} {a : Arena} {id : ExprId} {work : List ExprId} {s t : State}

theorem Turn.single {p q r : List ExprId × State} (first : Turn p q) (second : Turn p r) : q = r := by
  obtain ⟨here, cut⟩ := first
  obtain ⟨here', cut'⟩ := second
  cases here.symm.trans here'
  cases cut.symm.trans cut'
  rfl

/-- What is cut out of statement lists is not there any more, and what is kept is smaller. -/
theorem exists_cut {node : Node} (ordered : s.arena.Ordered) (here : s.arena.node id = .ok node) :
    ∃ nested t, cutLists id node.statementLists s = .ok nested t ∧ s.arena.Sheds t.arena ∧
      ∀ x ∈ nested, x < id := by
  have below := ordered.child_lt here
  have member {list : List ExprId} (isList : list ∈ node.statementLists) {x : ExprId}
      (mem : x ∈ s.arena.upToReturn list) : x ∈ node.children :=
    Node.mem_children_of_mem_list isList ((s.arena.upToReturn_prefix list).subset mem)
  obtain ⟨t, cut, -⟩ := exists_cutLists here fun list isList x mem =>
    Nat.lt_trans (below x (member isList mem)) (Arena.lt_size_of_node here)
  refine ⟨_, t, cut, ?_, fun x mem => ?_⟩
  · refine ((sheds_cutLists (a := s.arena) fun other there list isList child mem => ?_).of_ok cut).1
      (.refl s.arena)
    cases here.symm.trans there
    exact Node.mem_children_of_mem_list isList mem
  · obtain ⟨list, isList, mem⟩ := List.mem_flatMap.1 mem
    exact below x (member isList mem)

theorem Stage.exists_turn (stage : Stage size (id :: work, s)) : ∃ q, Turn (id :: work, s) q := by
  obtain ⟨node, here⟩ := Arena.exists_node_of_lt (stage.same ▸ stage.inside id List.mem_cons_self)
  obtain ⟨nested, t, cut, -⟩ := exists_cut stage.ordered here
  exact ⟨_, here, cut⟩

theorem Stage.turn {p q : List ExprId × State} (stage : Stage size p) (turn : Turn p q) :
    Stage size q ∧ Falls q.1 p.1 := by
  obtain @⟨id, work, nested, s, t, node, here, cut⟩ := turn
  obtain ⟨_, _, cut', sheds, smaller⟩ := exists_cut stage.ordered here
  cases cut.symm.trans cut'
  have falls : Falls (nested.reverse ++ work) (id :: work) :=
    ⟨id, work, _, rfl, rfl, fun x mem => smaller x (List.mem_reverse.1 mem)⟩
  exact ⟨⟨stage.ordered.sheds sheds, sheds.size.trans stage.same, falls.inside stage.inside⟩, falls⟩

theorem turns_of_forM {visit : ExprId → CutM Unit} {ids : List ExprId}
    (each : ∀ id ∈ ids, ∀ work s t, visit id s = .ok ⟨⟩ t →
      Relation.ReflTransGen Turn (id :: work, s) (work, t))
    (done : ids.forM visit s = .ok ⟨⟩ t) (work : List ExprId) :
    Relation.ReflTransGen Turn (ids ++ work, s) (work, t) := by
  induction ids generalizing s with
  | nil =>
    cases done
    exact .refl
  | cons id rest ih =>
    obtain ⟨_, u, first, others⟩ := exists_of_bind_eq_ok done
    exact (each id List.mem_cons_self _ s u first).trans
      (ih (fun x mem => each x (List.mem_cons_of_mem id mem)) others)

theorem turns_of_visitWithin {depth : Nat} (done : visitWithin depth id s = .ok ⟨⟩ t)
    (work : List ExprId) : Relation.ReflTransGen Turn (id :: work, s) (work, t) := by
  induction depth generalizing id s t work with
  | zero => cases done
  | succ depth ih =>
    obtain ⟨node, u, asked, done⟩ := exists_of_bind_eq_ok done
    obtain ⟨nested, v, cut, rest⟩ := exists_of_bind_eq_ok done
    have here : u = s ∧ s.arena.node id = .ok node := ((sheds_ask (a := s.arena) _).of_ok asked).2
    obtain ⟨rfl, here⟩ := here
    exact .head (.mk here cut) (turns_of_forM (fun x _ work s t done => ih done work) rest work)

structure Visits (a : Arena) (n : Nat) (body : List ExprId) : Prop where
  works : Works Turn (fun p => p.1) a.size (body.reverse, ⟨a, n⟩)
  goes : ∀ id work s, Relation.ReflTransGen Turn (body.reverse, ⟨a, n⟩) (id :: work, s) →
    ∃ q, Turn (id :: work, s) q
  answers : ∃ t, (visitAll body).run ⟨a, n⟩ = .ok ⟨⟩ t
  done : ∀ t, (visitAll body).run ⟨a, n⟩ = .ok ⟨⟩ t ↔
    Relation.ReflTransGen Turn (body.reverse, ⟨a, n⟩) ([], t)

theorem visits_of_ordered (ordered : a.Ordered) {body : List ExprId}
    (known : ∀ id ∈ body, id < a.size) (n : Nat) : Visits a n body := by
  have start : Stage a.size (body.reverse, ⟨a, n⟩) :=
    ⟨ordered, rfl, fun id mem => known id (List.mem_reverse.1 mem)⟩
  have stages {p : List ExprId × State} (run : Relation.ReflTransGen Turn (body.reverse, ⟨a, n⟩) p) :
      Stage a.size p := lasts_of_step (fun _ _ stage turn => (stage.turn turn).1) start run
  have single : ∀ p q r, Turn p q → Turn p r → q = r := fun _ _ _ => Turn.single
  have finished (s : State) (p : List ExprId × State) : ¬ Turn ([], s) p := nofun
  -- a run of the loop is all that is needed: as turns are single, no other run ends elsewhere
  obtain ⟨t, _, visited, -⟩ := cleared_of_visitAll ordered known n
  have run : Relation.ReflTransGen Turn (body.reverse, ⟨a, n⟩) ([], t) := by
    have run := turns_of_forM (fun _ _ work _ _ done => turns_of_visitWithin done work) visited []
    rwa [List.append_nil] at run
  refine ⟨⟨?_, fun p run => (stages run).inside, single⟩,
    fun id work s run => (stages run).exists_turn, ⟨t, visited⟩, fun u => ?_⟩
  · exact acc_of_falls (fun _ _ stage turn => stage.turn turn) start
  · constructor
    · intro done
      cases visited.symm.trans done
      exact run
    · intro other
      cases end_unique single run (finished _) other (finished _)
      exact visited

end Unreachable

end WasmBuilder
