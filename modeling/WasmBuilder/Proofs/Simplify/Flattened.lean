import WasmBuilder.Lower.Module
import WasmBuilder.Proofs.Lowering.Depth
import WasmBuilder.Proofs.Simplify.Expansion

/-!
Flattening and the binary.

The items of a grouping block are lowered as the statements that they are without it. So a flattened
body gets the code that it had, takes the same scratch locals and adds the same types, and lowering
fails where flattening does.
-/

set_option autoImplicit false

namespace WasmBuilder

namespace Lower

open Wasm (Instr)

variable {α β : Type}

def Alike (m m' : LowerM α) : Prop := ∀ s r, m s = .ok r ↔ m' s = .ok r

namespace Alike

theorem refl (m : LowerM α) : Alike m m := fun _ _ => Iff.rfl

theorem trans {m m' m'' : LowerM α} (first : Alike m m') (second : Alike m' m'') : Alike m m'' :=
  fun s r => (first s r).trans (second s r)

theorem bind {m m' : LowerM α} {f f' : α → LowerM β} (first : Alike m m')
    (second : ∀ x, Alike (f x) (f' x)) : Alike (m >>= f) (m' >>= f') := by
  intro s r
  rw [bind_eq_ok, bind_eq_ok]
  exact exists_congr fun x => exists_congr fun t => and_congr (first s _) (second x t r)

theorem mapM {γ : Type} {f : γ → LowerM α} {xs ys : List γ}
    (each : List.Forall₂ (fun x y => Alike (f x) (f y)) xs ys) : Alike (xs.mapM f) (ys.mapM f) := by
  induction each with
  | nil => exact .refl _
  | cons first _ ih =>
    rw [List.mapM_cons, List.mapM_cons]
    exact first.bind fun _ => ih.bind fun _ => .refl _

end Alike

section
variable {l : Layout} {f : ExprId → LowerM (List Instr)} {id : ExprId} {items body flat : List ExprId}
  {n : Nat}

theorem operands_append (f : ExprId → LowerM (List Instr)) (first second : List ExprId) :
    Layout.operands f (first ++ second) =
      (do return (← Layout.operands f first) ++ (← Layout.operands f second)) := by
  induction first with
  | nil => simp [Layout.operands]
  | cons id rest ih =>
    simp only [List.cons_append, Layout.operands, ih, bind_assoc, pure_bind, List.append_assoc]

theorem statement_of_silent (silent : l.arena.slots id = .ok []) : l.statement f id = f id := by
  rw [Layout.statement, silent]
  show (do return (← f id) ++ [] : LowerM (List Instr)) = f id
  simp

theorem statement_groups (groups : l.arena.Groups id items) :
    Alike (l.statement l.expr id) (l.body items) := by
  obtain ⟨shape, here, _, silent⟩ := groups
  have opened (depth : Nat) (s : LowerState) :
      l.exprWithin (depth + 1) id s = l.statements (l.exprWithin depth) items s := by
    rw [exprWithin_succ here, Layout.node, silent, ← sequence_statements]
    rfl
  rw [statement_of_silent silent]
  intro s r
  constructor
  · intro done
    rw [Layout.expr, Arena.pathBound, opened] at done
    exact covered_statements (fun item _ => covered_expr _ item) s r done
  · intro done
    -- one level above the items, the block itself is found
    refine covered_expr (l.arena.pathBound + 1) id s r ?_
    rw [opened]
    exact done

theorem body_expansion (expansion : l.arena.Expansion body flat n) : Alike (l.body body) (l.body flat) := by
  induction expansion with
  | nil => exact .refl _
  | keep _ _ ih => exact (Alike.refl _).bind fun _ => ih.bind fun _ => .refl _
  | @splice id items rest first others _ _ groups _ _ inside behind =>
    have apart : l.body (first ++ others) = (do return (← l.body first) ++ (← l.body others)) := by
      simp only [Layout.body, statements_eq_operands]
      exact operands_append _ first others
    rw [apart]
    exact ((statement_groups groups).trans inside).bind fun _ => behind.bind fun _ => .refl _

theorem slots_of_statement (answered : Answered (l.statement f) id) :
    ∃ ts, l.arena.slots id = .ok ts := by
  obtain ⟨s, r, done⟩ := answered
  obtain ⟨code, t, _, rest⟩ := bind_eq_ok.1 done
  cases slots : l.arena.slots id with
  | error e =>
    rw [slots] at rest
    cases rest
  | ok ts => exact ⟨ts, rfl⟩

theorem exists_expandAll {expand : ExprId → Except BuildError (List ExprId × Nat)}
    (each : ∀ id ∈ body, ∃ flat n, expand id = .ok (flat, n)) :
    ∃ flat n, Arena.expandAll expand body = .ok (flat, n) := by
  induction body with
  | nil => exact ⟨[], 0, rfl⟩
  | cons id rest ih =>
    obtain ⟨first, m, head⟩ := each id List.mem_cons_self
    obtain ⟨others, k, tail⟩ := ih fun other mem => each other (List.mem_cons_of_mem id mem)
    exact ⟨first ++ others, m + k, Arena.expandAll_cons_of_ok head tail⟩

theorem exists_expandWithin {depth : Nat} (shallow : l.arena.Shallow depth id)
    (answered : Answered (l.statement l.expr) id) :
    ∃ flat n, l.arena.expandWithin depth id = .ok (flat, n) := by
  induction depth generalizing id with
  | zero => exact shallow.elim
  | succ depth ih =>
    rcases l.arena.groupedStatements?_cases id with
      ⟨items, found, groups⟩ | ⟨found, _⟩ | ⟨e, _, unknown⟩
    · -- lowering the block lowered its items as statements
      have ⟨_, here, _⟩ := groups
      obtain ⟨s, r, done⟩ := answered
      have inside := (statement_groups groups s r).1 done
      obtain ⟨node, there, below⟩ := shallow
      cases here.symm.trans there
      have each : ∀ item ∈ items, ∃ flat n, l.arena.expandWithin depth item = .ok (flat, n) :=
        fun item mem => ih (below item mem) (takes_statements mem s r inside)
      obtain ⟨flat, n, all⟩ := exists_expandAll each
      exact ⟨flat, n + 1, by rw [Arena.expandWithin_of_groups found, all]; rfl⟩
    · exact ⟨[id], 0, Arena.expandWithin_of_stays found depth⟩
    · obtain ⟨ts, known⟩ := slots_of_statement answered
      cases unknown.symm.trans known

theorem takes_body_shallow :
    Takes (l.body body) (∀ id ∈ body, l.arena.Shallow l.arena.size id) := fun s r done id mem => by
  have answered := takes_statements mem s r done
  exact (shallow_of_answered answered.of_statement).within_size

theorem takes_body : Takes (l.body body) (∃ flat n, l.arena.flattenBlocks body = .ok (flat, n)) :=
  fun s r done => exists_expandAll fun id mem =>
    exists_expandWithin (takes_body_shallow s r done id mem).succ (takes_statements mem s r done)

end

section
variable {l : Layout} {body flat : List ExprId} {n : Nat}

theorem alike_function (expansion : l.arena.Expansion body flat n) (typeIndex paramWidth : Nat)
    (shapes : List Shape) :
    Alike (function l typeIndex paramWidth shapes body)
      (function l typeIndex paramWidth shapes flat) := by
  have code : Alike ((l.withVariables shapes).body body) ((l.withVariables shapes).body flat) :=
    body_expansion expansion
  exact (Alike.refl _).bind fun _ => code.bind fun _ => .refl _

theorem alike_declaration {f : Function} {scope : Scope} (kind : f.kind = .defined scope body)
    (expansion : l.arena.Expansion body flat n) :
    Alike (declaration l f) (declaration l (Build.Function.withBody f flat)) := by
  obtain ⟨id, params, result, _⟩ := f
  cases kind
  exact (Alike.refl _).bind fun typeIndex =>
    (alike_function expansion typeIndex _ _).bind fun _ => .refl _

theorem alike_startFunction (expansion : l.arena.Expansion body flat n) (some : flat ≠ []) :
    Alike (startFunction l body) (startFunction l flat) := by
  have any : body ≠ [] := by
    rintro rfl
    cases expansion
    exact some rfl
  rw [startFunction, startFunction, List.isEmpty_eq_false_iff.2 any,
    List.isEmpty_eq_false_iff.2 some]
  exact (Alike.refl _).bind fun typeIndex =>
    (alike_function expansion typeIndex 0 []).bind fun _ => .refl _

theorem takes_function {P : Prop} {typeIndex paramWidth : Nat} {shapes : List Shape}
    (takes : Takes ((l.withVariables shapes).body body) P) :
    Takes (function l typeIndex paramWidth shapes body) P :=
  .after fun _ => takes.bind

theorem takes_declaration {P : Prop} {f : Function} {scope : Scope} (kind : f.kind = .defined scope body)
    (takes : Takes ((l.withVariables scope.shapes).body body) P) : Takes (declaration l f) P := by
  obtain ⟨id, params, result, _⟩ := f
  cases kind
  exact .after fun _ => (takes_function takes).bind

theorem takes_startFunction {P : Prop} (takes : Takes ((l.withVariables []).body body) P)
    (none : body = [] → P) : Takes (startFunction l body) P := by
  cases body with
  | nil => exact fun _ _ _ => none rfl
  | cons id rest => exact .after fun _ => (takes_function takes).bind

theorem takes_mapM {f : α → LowerM β} {P : Prop} {x : α} {xs : List α} (mem : x ∈ xs)
    (takes : Takes (f x) P) : Takes (xs.mapM f) P := by
  induction xs with
  | nil => cases mem
  | cons y ys ih =>
    rw [List.mapM_cons]
    rcases List.mem_cons.1 mem with rfl | mem
    · exact takes.bind
    · exact .after fun _ => (ih mem).bind

end

end Lower

end WasmBuilder
