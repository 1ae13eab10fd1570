import Mathlib.Data.List.Nodup
import WasmBuilder.Proofs.Lowering.Module

/-!
Function types are listed once.

Lowering adds a type only when it is not in the list, so no two entries of the type section of a
module are the same.
-/

set_option autoImplicit false

namespace WasmBuilder.Lower

open Wasm (Instr)

def Distinct {α : Type} (m : LowerM α) : Prop :=
  ∀ (s : LowerState) (x : α) (t : LowerState), m s = .ok (x, t) → s.types.toList.Nodup →
    t.types.toList.Nodup

namespace Distinct

variable {α β : Type}

theorem pure (x : α) : Distinct (Pure.pure x) := by
  rintro s _ _ ⟨⟩ distinct
  exact distinct

theorem throw (e : BuildError) : Distinct (MonadExcept.throw e : LowerM α) := by
  intro s x t done
  cases done

theorem lift (e : Except BuildError α) : Distinct (liftM e : LowerM α) := by
  intro s x t done distinct
  cases e with
  | error e => cases done
  | ok y =>
    cases done
    exact distinct

theorem bind {m : LowerM α} {f : α → LowerM β} (first : Distinct m)
    (second : ∀ x, Distinct (f x)) : Distinct (m >>= f) := by
  intro s y u done distinct
  cases run : m s with
  | error e => simp [Bind.bind, StateT.bind, Except.bind, run] at done
  | ok result =>
    obtain ⟨x, t⟩ := result
    have rest : f x t = .ok (y, u) := by
      simpa [Bind.bind, StateT.bind, Except.bind, run] using done
    exact second x t y u rest (first s x t run distinct)

theorem mapM {f : α → LowerM β} (each : ∀ x, Distinct (f x)) (xs : List α) :
    Distinct (xs.mapM f) := by
  induction xs with
  | nil => exact pure []
  | cons x xs ih =>
    rw [List.mapM_cons]
    exact (each x).bind fun y => ih.bind fun ys => pure _

theorem forM {f : α → LowerM PUnit} (each : ∀ x, Distinct (f x)) (xs : List α) :
    Distinct (xs.forM f) := by
  induction xs with
  | nil => exact pure _
  | cons x xs ih => exact (each x).bind fun _ => ih

theorem of_types_eq {m : LowerM α}
    (same : ∀ (s : LowerState) (x : α) (t : LowerState), m s = .ok (x, t) → t.types = s.types) :
    Distinct m := by
  intro s x t done distinct
  rw [same s x t done]
  exact distinct

end Distinct

theorem distinct_intern (signature : Signature) : Distinct (intern signature) := by
  intro s i t done distinct
  unfold intern at done
  split at done
  · cases done
    exact distinct
  next missing =>
    cases done
    rw [Array.findIdx?_eq_none_iff] at missing
    simp only [Array.toList_push]
    apply List.nodup_append.2
    refine ⟨distinct, List.nodup_singleton _, ?_⟩
    intro old mem new isNew same
    rw [List.mem_singleton.1 isNew] at same
    simpa [same] using missing old (Array.mem_toList_iff.1 mem)

theorem distinct_spill (ts : List NumType) : Distinct (spill ts) := by
  have taken (t : NumType) : Distinct (acquire t) := by
    apply Distinct.of_types_eq
    intro s i t done
    unfold acquire at done
    split at done <;> cases done <;> rfl
  have released (i : Nat) : Distinct (release i) := by
    apply Distinct.of_types_eq
    rintro s _ _ ⟨⟩
    rfl
  refine (Distinct.mapM taken ts).bind fun is => ?_
  exact (Distinct.forM released is).bind fun _ => .pure is

theorem distinct_blockType (ts : List NumType) : Distinct (blockType ts) := by
  match ts with
  | [] | [_] => exact .pure _
  | _ :: _ :: _ => exact (distinct_intern _).bind fun _ => .pure _

section
variable (l : Layout) {lower : ExprId → LowerM (List Instr)} (each : ∀ id, Distinct (lower id))

include each

theorem distinct_operands (ids : List ExprId) : Distinct (Layout.operands lower ids) := by
  induction ids with
  | nil => exact .pure _
  | cons id rest ih => exact (each id).bind fun _ => ih.bind fun _ => .pure _

theorem distinct_statement (id : ExprId) : Distinct (l.statement lower id) :=
  (each id).bind fun _ => (Distinct.lift _).bind fun _ => .pure _

theorem distinct_statements (ids : List ExprId) : Distinct (l.statements lower ids) := by
  induction ids with
  | nil => exact .pure _
  | cons id rest ih => exact (distinct_statement l each id).bind fun _ => ih.bind fun _ => .pure _

theorem distinct_sequence (value : Bool) (ids : List ExprId) :
    Distinct (l.sequence lower value ids) := by
  induction ids with
  | nil => exact .pure _
  | cons id rest ih =>
    cases rest with
    | nil =>
      cases value with
      | true => exact each id
      | false => exact distinct_statement l each id
    | cons => exact (distinct_statement l each id).bind fun _ => ih.bind fun _ => .pure _

theorem distinct_extract (composite : ExprId) (offset width : Nat) :
    Distinct (l.extract lower composite offset width) := by
  refine (Distinct.lift _).bind fun node => ?_
  split
  · exact (Distinct.lift _).bind fun _ => .pure _
  · exact (Distinct.lift _).bind fun _ => .pure _
  · refine (Distinct.lift _).bind fun all => ?_
    dsimp only
    split
    · exact (Distinct.throw _).bind fun _ => (each composite).bind fun _ =>
        (distinct_spill all).bind fun _ => .pure _
    · exact (each composite).bind fun _ => (distinct_spill all).bind fun _ => .pure _

theorem distinct_node (id : ExprId) (node : Node) : Distinct (l.node lower id node) := by
  cases node with
  | const | memorySize | nop => exact .pure _
  | localGet | globalGet => exact (Distinct.lift _).bind fun _ => .pure _
  | localSet _ _ value | globalSet _ _ value =>
    exact (Distinct.lift _).bind fun _ => (each value).bind fun _ => .pure _
  | binary _ left right => exact (each left).bind fun _ => (each right).bind fun _ => .pure _
  | unary _ operand => exact (each operand).bind fun _ => .pure _
  | call _ args =>
    exact (distinct_operands each args).bind fun _ => (Distinct.lift _).bind fun _ => .pure _
  | callIndirect index args signature =>
    exact (distinct_operands each args).bind fun _ => (each index).bind fun _ =>
      (distinct_intern signature).bind fun _ => .pure _
  | block items => exact (Distinct.lift _).bind fun _ => distinct_sequence l each _ items
  | group items => exact distinct_operands each items
  | extract composite _ offset width => exact distinct_extract l each composite offset width
  | choose cond thenItems elseItems shape =>
    refine (Distinct.lift _).bind fun ts => (each cond).bind fun _ => ?_
    refine (distinct_blockType ts).bind fun _ => (distinct_sequence l each _ thenItems).bind fun _ => ?_
    split
    · exact (distinct_sequence l each _ elseItems).bind fun _ => .pure _
    · exact .pure _
  | loop init cond step body =>
    refine (distinct_statements l each init).bind fun _ => (each cond).bind fun _ => ?_
    exact (distinct_statements l each body).bind fun _ =>
      (distinct_statements l each step).bind fun _ => .pure _
  | ret value =>
    cases value with
    | none => exact .pure _
    | some value => exact (each value).bind fun _ => .pure _
  | load _ addr => exact (each addr).bind fun _ => .pure _
  | store _ addr value => exact (each addr).bind fun _ => (each value).bind fun _ => .pure _
  | memoryGrow delta => exact (each delta).bind fun _ => .pure _

end

theorem distinct_exprWithin (l : Layout) (depth : Nat) (id : ExprId) :
    Distinct (l.exprWithin depth id) := by
  induction depth generalizing id with
  | zero => exact .throw _
  | succ depth ih => exact (Distinct.lift _).bind fun node => distinct_node l ih id node

theorem distinct_function (l : Layout) (typeIndex paramWidth : Nat) (shapes : List Shape)
    (body : List ExprId) : Distinct (function l typeIndex paramWidth shapes body) := by
  intro s g t done distinct
  obtain ⟨code, run, -⟩ := function_eq_ok_iff.1 done
  exact distinct_statements _ (distinct_exprWithin _ _) body _ _ _ run distinct

theorem distinct_declaration (l : Layout) (f : Function) : Distinct (declaration l f) := by
  refine (distinct_intern f.signature).bind fun typeIndex => ?_
  split
  · exact .pure _
  · exact (distinct_function l typeIndex _ _ _).bind fun _ => .pure _

theorem distinct_startFunction (l : Layout) (startBody : List ExprId) :
    Distinct (startFunction l startBody) := by
  unfold startFunction
  split
  · exact .pure _
  · exact (distinct_intern _).bind fun typeIndex =>
      (distinct_function l typeIndex 0 [] startBody).bind fun _ => .pure _

theorem nodup_types {b : Build} {tableExport : Option String} {m : Wasm.Module}
    (done : b.lower tableExport = .ok m) : m.types.Nodup := by
  obtain ⟨⟨⟨lowered, start⟩, state⟩, run, done⟩ := bind_eq_ok_iff.1 done
  obtain ⟨memory, imported, done⟩ := bind_eq_ok_iff.1 done
  obtain ⟨table, slots, done⟩ := bind_eq_ok_iff.1 done
  obtain ⟨exports, exported, done⟩ := bind_eq_ok_iff.1 done
  have distinct : Distinct (functions (moduleLayout b) b.functions.toList b.startBody) := by
    refine (Distinct.mapM (distinct_declaration (moduleLayout b)) _).bind fun declared => ?_
    exact (distinct_startFunction (moduleLayout b) b.startBody).bind fun start => .pure _
  cases done
  exact (distinct {} _ state run List.nodup_nil).map fun _ _ same => Signature.funcType_injective same

end WasmBuilder.Lower
