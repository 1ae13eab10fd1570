import WasmBuilder.Proofs.Labels.Arena
import WasmBuilder.Proofs.Startup.Returns

/-!
What bodies contribute, and the statements that stand for it.

A body contributes what it is handed to run and its results. The statements of a body stand for these
contributions up to the first result, whatever comes behind: blocks that only group may be replaced by
their items, and what is behind a return may be cut off.
-/

set_option autoImplicit false

namespace WasmBuilder

inductive Contribution where
  | statement (id : ExprId)
  /-- The last value of a result, behind which the body returns. -/
  | result (value : ExprId)
  deriving DecidableEq

namespace Contribution

def isResult : Contribution → Bool
  | statement _ => false
  | result _ => true

def due : List Contribution → List Contribution
  | [] => []
  | .statement id :: rest => .statement id :: due rest
  | .result value :: _ => [.result value]

theorem due_append_of_statements {first : List Contribution}
    (statements : ∀ c ∈ first, c.isResult = false) (second : List Contribution) :
    due (first ++ second) = first ++ due second := by
  induction first with
  | nil => rfl
  | cons c first ih =>
    cases c with
    | statement id =>
      rw [List.cons_append, due, ih fun d mem => statements d (List.mem_cons_of_mem _ mem)]
      rfl
    | result value => cases statements _ List.mem_cons_self

theorem due_append_of_result {first : List Contribution} (results : ∃ c ∈ first, c.isResult = true)
    (second : List Contribution) : due (first ++ second) = due first := by
  obtain ⟨c, mem, isResult⟩ := results
  induction first with
  | nil => cases mem
  | cons d first ih =>
    cases d with
    | statement id =>
      rcases List.mem_cons.1 mem with rfl | behind
      · cases isResult
      · rw [List.cons_append, due, due, ih behind]
    | result value => rfl

theorem due_of_statements {cs : List Contribution} (statements : ∀ c ∈ cs, c.isResult = false) :
    due cs = cs := by
  have whole := due_append_of_statements statements []
  rwa [List.append_nil, due, List.append_nil] at whole

theorem due_eq_nil_iff {cs : List Contribution} : due cs = [] ↔ cs = [] := by
  cases cs with
  | nil => exact ⟨fun _ => rfl, fun _ => rfl⟩
  | cons c cs => cases c <;> exact ⟨nofun, nofun⟩

/-- Nothing is contributed behind a body that returns. -/
def ResultsLast : List (List Contribution) → Prop
  | [] => True
  | own :: rest => ((∃ c ∈ own, c.isResult = true) → rest.flatten = []) ∧ ResultsLast rest

/-- All is due that is due in its own body, unless something is contributed behind a body that
returns. -/
theorem due_flatten_eq_iff {bodies : List (List Contribution)} :
    due bodies.flatten = bodies.flatMap due ↔ ResultsLast bodies := by
  induction bodies with
  | nil => exact ⟨fun _ => trivial, fun _ => rfl⟩
  | cons own rest ih =>
    rw [List.flatten_cons, List.flatMap_cons, ResultsLast]
    by_cases results : ∃ c ∈ own, c.isResult = true
    · have nothing : rest.flatMap due = [] ↔ rest.flatten = [] := by
        simp only [List.flatMap_eq_nil_iff, List.flatten_eq_nil_iff, due_eq_nil_iff]
      rw [due_append_of_result results, List.self_eq_append_right, nothing, ← ih]
      constructor
      · intro empty
        refine ⟨fun _ => empty, ?_⟩
        rw [empty, nothing.2 empty]
        rfl
      · exact fun last => last.1 results
    · have statements : ∀ c ∈ own, c.isResult = false := by
        intro c mem
        by_contra isResult
        exact results ⟨c, mem, by simpa using isResult⟩
      rw [due_append_of_statements statements, due_of_statements statements, List.append_cancel_left_eq,
        ih]
      exact ⟨fun others => ⟨fun found => absurd found results, others⟩, And.right⟩

end Contribution

open Contribution (statement result)

namespace Arena

/-- Slots that were found are found in every arena that came of this one. -/
theorem Extends.slots {a c : Arena} (grown : Extends a c) (labelled : a.Labelled) {id : ExprId}
    {ts : List NumType} (found : a.slots id = .ok ts) : c.slots id = .ok ts := by
  have old : id < a.size := by
    obtain ⟨node, here, _⟩ := slotsWithin_succ_eq_ok_iff.1 found
    obtain ⟨_, entry⟩ := node_eq_ok_iff.1 here
    exact (Array.getElem?_eq_some_iff.1 entry).1
  rw [grown.labelled.slots_eq (Nat.lt_of_lt_of_le old grown.size_le), grown.kept id old,
    ← labelled.slots_eq old, found]

/-- Statements that stand for contributions, as far as the first result. -/
inductive Stands (a : Arena) : List Contribution → List ExprId → Prop
  | nil : Stands a [] []
  | statement {id : ExprId} {cs : List Contribution} {body : List ExprId} (passes : a.Passes id)
      (others : Stands a cs body) : Stands a (statement id :: cs) (id :: body)
  | result {id value : ExprId} (here : a.node id = .ok (.ret (some value))) (cs : List Contribution)
      (body : List ExprId) : Stands a (result value :: cs) (id :: body)
  /-- The items of a block that leaves nothing stand for the block. -/
  | items {cs : List Contribution} {before after items : List ExprId} {id : ExprId} {shape : Shape}
      (stands : Stands a cs (before ++ id :: after)) (here : a.node id = .ok (.block items shape))
      (silent : a.slots id = .ok []) : Stands a cs (before ++ items ++ after)

namespace Stands

variable {a c : Arena} {cs more : List Contribution} {body others : List ExprId}

theorem of_passing {ids : List ExprId} (passing : ∀ id ∈ ids, a.Passes id) :
    a.Stands (ids.map .statement) ids := by
  induction ids with
  | nil => exact .nil
  | cons id rest ih =>
    exact .statement (passing id List.mem_cons_self)
      (ih fun other mem => passing other (List.mem_cons_of_mem id mem))

theorem append (first : a.Stands cs body) (second : a.Stands more others) :
    a.Stands (cs ++ more) (body ++ others) := by
  induction first with
  | nil => exact second
  | statement passes _ ih => exact .statement passes ih
  -- nothing behind a return matters, so more may stand there
  | result here cs body => exact .result here (cs ++ more) (body ++ others)
  | @items cs before after items id shape _ here silent ih =>
    rw [List.append_assoc, List.cons_append] at ih
    rw [List.append_assoc]
    exact .items ih here silent

/-- Operations that are carried out are no statements to be replaced. -/
theorem folds (stands : a.Stands cs body) (folds : a.Folds c)
    (slots : ∀ id, a.slots id = .ok [] → c.slots id = .ok []) : c.Stands cs body := by
  induction stands with
  | nil => exact .nil
  | statement passes _ ih => exact .statement (passes.folds folds) ih
  | result here cs body => exact .result (folds.fixed here rfl) cs body
  | items _ here silent ih => exact .items ih (folds.fixed here rfl) (slots _ silent)

theorem of_extends (stands : a.Stands cs body) (labelled : a.Labelled) (grown : Extends a c)
    (moved : a.Folds c) : c.Stands cs body :=
  stands.folds moved fun _ silent => grown.slots labelled silent

section
variable (calm : a.Calm)

include calm

/-- What is cut off is behind the return of the first result. -/
theorem cut (stands : a.Stands cs body) {kept : List ExprId} {n : Nat}
    (done : a.cut body = .ok (kept, n)) : a.Stands cs kept := by
  -- on the statements that stand for what is due; whatever passes is kept
  induction stands generalizing kept n with
  | nil =>
    cases done
    exact .nil
  | statement passes _ ih =>
    rw [cut_cons_of_passes passes] at done
    obtain ⟨⟨tail, m⟩, rest, done⟩ := bind_eq_ok_iff.1 done
    cases done
    exact .statement passes (ih rest)
  | result here cs body =>
    rw [cut_cons_of_return here] at done
    cases done
    exact .result here cs []
  | @items cs before after items id shape _ here silent ih =>
    rw [List.append_assoc] at done
    rcases cut_append_eq_ok done with stopped | passing
    · obtain ⟨m, run⟩ := stopped (id :: after)
      exact ih run
    · -- neither the block nor its items return, so the cut goes on behind them
      have inside : ∀ x ∈ items, a.Passes x := calm id _ here
      rw [cut_append_of_passing passing] at done
      obtain ⟨⟨rest, m⟩, cut, done⟩ := bind_eq_ok_iff.1 done
      cases done
      rw [cut_append_of_passing inside] at cut
      obtain ⟨⟨tail, m⟩, behind, cut⟩ := bind_eq_ok_iff.1 cut
      cases cut
      rw [← List.append_assoc]
      apply Stands.items (ih _) here silent
      · exact n
      · rw [cut_append_of_passing passing, cut_cons_of_passes ⟨_, here, rfl⟩, behind]
        rfl

end

theorem groupedStatements?_eq_some {id : ExprId} {items : List ExprId}
    (done : a.groupedStatements? id = .ok (some items)) :
    (∃ shape, a.node id = .ok (.block items shape)) ∧ a.slots id = .ok [] := by
  obtain ⟨ts, slots, done⟩ := bind_eq_ok_iff.1 done
  obtain ⟨node, here, done⟩ := bind_eq_ok_iff.1 done
  split at done
  next inside shape =>
    split at done
    next groups =>
      cases done
      rw [Bool.and_eq_true, List.isEmpty_iff] at groups
      exact ⟨⟨shape, here⟩, groups.1 ▸ slots⟩
    next => cases done
  next => cases done

/-- A list in which some expressions give way to what they expand to. -/
theorem expandAll {expand : ExprId → Except BuildError (List ExprId × Nat)}
    (each : ∀ {before after ids : List ExprId} {id : ExprId} {n : Nat}, expand id = .ok (ids, n) →
      a.Stands cs (before ++ id :: after) → a.Stands cs (before ++ ids ++ after))
    {before after flat : List ExprId} {n : Nat} (done : Arena.expandAll expand body = .ok (flat, n))
    (stands : a.Stands cs (before ++ body ++ after)) : a.Stands cs (before ++ flat ++ after) := by
  induction body generalizing before flat n with
  | nil =>
    cases done
    exact stands
  | cons id rest ih =>
    obtain ⟨⟨first, n⟩, one, done⟩ := bind_eq_ok_iff.1 done
    obtain ⟨⟨others, m⟩, more, done⟩ := bind_eq_ok_iff.1 done
    cases done
    rw [List.append_assoc, List.cons_append] at stands
    have next := each one stands
    rw [← List.append_assoc] at next
    rw [← List.append_assoc before]
    exact ih more next

theorem expandWithin (depth : Nat) {before after ids : List ExprId} {id : ExprId} {n : Nat}
    (done : a.expandWithin depth id = .ok (ids, n)) (stands : a.Stands cs (before ++ id :: after)) :
    a.Stands cs (before ++ ids ++ after) := by
  induction depth generalizing before after ids id n with
  | zero => cases done
  | succ depth ih =>
    obtain ⟨grouped, found, done⟩ := bind_eq_ok_iff.1 done
    cases grouped with
    | none =>
      cases done
      rwa [List.append_assoc]
    | some items =>
      obtain ⟨⟨flat, m⟩, all, done⟩ := bind_eq_ok_iff.1 done
      cases done
      obtain ⟨⟨shape, here⟩, silent⟩ := groupedStatements?_eq_some found
      exact expandAll (fun done stands => ih done stands) all (.items stands here silent)

theorem flattenBlocks {flat : List ExprId} {n : Nat} (done : a.flattenBlocks body = .ok (flat, n))
    (stands : a.Stands cs body) : a.Stands cs flat := by
  have whole : a.Stands cs ([] ++ flat ++ []) :=
    expandAll (fun done stands => expandWithin _ done stands) done (by simpa using stands)
  simpa using whole

end Stands

end Arena

end WasmBuilder
