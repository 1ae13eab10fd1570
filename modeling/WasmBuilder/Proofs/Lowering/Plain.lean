import WasmBuilder.Proofs.Lowering.Indices
import WasmBuilder.Proofs.Wasm.Numeric

/-!
Code of expressions handles numbers only, well typed or not.
-/

set_option autoImplicit false

namespace WasmBuilder.Lower

open Wasm (Instr)
open Wasm.Instr (isPlainSeq)

@[simp] theorem isPlainSeq_append (first second : List Instr) :
    isPlainSeq (first ++ second) = (isPlainSeq first && isPlainSeq second) := by
  induction first with
  | nil => rfl
  | cons i rest ih => rw [List.cons_append, isPlainSeq, isPlainSeq, ih, Bool.and_assoc]

theorem isPlainSeq_map {α : Type} {f : α → Instr} (each : ∀ x, (f x).isPlain = true) (xs : List α) :
    isPlainSeq (xs.map f) = true := by
  induction xs with
  | nil => rfl
  | cons x xs ih => rw [List.map_cons, isPlainSeq, each, ih, Bool.and_self]

section
variable {l : Layout} {K : Tables} {sub : ExprId → List Instr → Prop}
  (each : ∀ id code, sub id code → isPlainSeq code = true)

include each

theorem plain_codes {ids : List ExprId} {code : List Instr} (codes : Codes sub ids code) :
    isPlainSeq code = true := by
  induction codes with
  | nil => rfl
  | cons first _ ih => rw [isPlainSeq_append, each _ _ first, ih, Bool.and_self]

theorem plain_statement {id : ExprId} {code : List Instr} (lowered : StatementCode l sub id code) :
    isPlainSeq code = true := by
  cases lowered with
  | mk value =>
    rw [isPlainSeq_append, each _ _ value, isPlainSeq_map fun _ => rfl]
    rfl

theorem plain_statements {ids : List ExprId} {code : List Instr}
    (lowered : Codes (StatementCode l sub) ids code) : isPlainSeq code = true :=
  plain_codes (fun _ _ => plain_statement each) lowered

theorem plain_sequence {value : Bool} {items : List ExprId} {code : List Instr}
    (lowered : SequenceCode l sub value items code) : isPlainSeq code = true := by
  cases lowered with
  | statements all => exact plain_statements each all
  | empty => rfl
  | value _ others result =>
    rw [isPlainSeq_append, plain_statements each others, each _ _ result, Bool.and_self]

theorem plain_node {id : ExprId} {node : Node} {code : List Instr}
    (lowered : NodeCode l K sub id node code) : isPlainSeq code = true := by
  cases lowered with
  | const | leave | memorySize | nop => rfl
  | localGet | globalGet => exact isPlainSeq_map (fun _ => rfl) _
  | extractLocal | extractGlobal => exact isPlainSeq_map (fun _ => rfl) _
  | localSet _ operand | globalSet _ operand =>
    rw [isPlainSeq_append, each _ _ operand, isPlainSeq_map fun _ => rfl]
    rfl
  | binary first second =>
    rw [isPlainSeq_append, isPlainSeq_append, each _ _ first, each _ _ second]
    rfl
  | unary value =>
    rw [isPlainSeq_append, each _ _ value]
    rfl
  | call operands =>
    rw [isPlainSeq_append, plain_codes each operands]
    rfl
  | callIndirect operands chosen =>
    rw [isPlainSeq_append, isPlainSeq_append, plain_codes each operands, each _ _ chosen]
    rfl
  | block _ body => exact plain_sequence each body
  | group operands => exact plain_codes each operands
  | extract _ _ _ _ value =>
    rw [isPlainSeq_append, isPlainSeq_append, each _ _ value, isPlainSeq_map fun _ => rfl,
      isPlainSeq_map fun _ => rfl]
    rfl
  | chooseBoth _ decided _ yes no =>
    simp [isPlainSeq, Instr.isPlain, each _ _ decided, plain_sequence each yes,
      plain_sequence each no]
  | chooseOne _ decided yes =>
    simp [isPlainSeq, Instr.isPlain, each _ _ decided, plain_sequence each yes]
  | loop before test inside behind =>
    simp [isPlainSeq, Instr.isPlain, plain_statements each before, each _ _ test,
      plain_statements each inside, plain_statements each behind]
  | ret result =>
    rw [isPlainSeq_append, each _ _ result]
    rfl
  | load place =>
    rw [isPlainSeq_append, each _ _ place]
    rfl
  | store place stored =>
    rw [isPlainSeq_append, isPlainSeq_append, each _ _ place, each _ _ stored]
    rfl
  | memoryGrow amount =>
    rw [isPlainSeq_append, each _ _ amount]
    rfl

end

theorem plain_codeWithin {l : Layout} {K : Tables} (depth : Nat) (id : ExprId) (code : List Instr)
    (lowered : CodeWithin l K depth id code) : isPlainSeq code = true := by
  induction depth generalizing id code with
  | zero => exact lowered.elim
  | succ depth ih =>
    obtain ⟨node, _, lowered⟩ := lowered
    exact plain_node ih lowered

/-- A function of a build is a function of plain code, whatever its type. -/
theorem FunctionCode.isPlain {l : Layout} {types : List Signature} {signature : Signature}
    {shapes : List Shape} {body : List ExprId} {g : Wasm.Func}
    (code : FunctionCode l types signature shapes body g) (type : Wasm.FuncType) :
    (Wasm.FuncInstance.code type g.locals g.body).IsPlain := by
  cases code with
  | mk _ statements =>
    exact ⟨plain_statements (fun id code => plain_codeWithin _ id code) statements, _, rfl⟩

theorem Parts.plain {b : Build} {types : List Signature} {lowered : List Lowered}
    {start : Option Wasm.Func} (parts : Parts b types lowered start) {g : Wasm.Func}
    (mem : g ∈ lowered.filterMap Lowered.func? ++ start.toList) : isPlainSeq g.body = true := by
  obtain ⟨_, _, _, code, _⟩ := parts.func_code mem
  exact (code.isPlain ⟨[], []⟩).1

end WasmBuilder.Lower
