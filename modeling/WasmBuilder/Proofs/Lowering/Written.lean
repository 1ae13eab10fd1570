import WasmBuilder.Proofs.Course.Sheds
import WasmBuilder.Proofs.Lowering.Module
import WasmBuilder.Proofs.Wasm.Fixed

/-!
Which machine locals the code of a body writes.

Code writes the locals that the body says are written, and scratch locals, which lie behind all
variables. All else holds what it held when the function was called.
-/

set_option autoImplicit false

namespace WasmBuilder

namespace Lower

open Wasm (Instr)
open Wasm.Instr (targetsSeq)

def Layout.Writes (l : Layout) (id : ExprId) (k : Nat) : Prop :=
  ∃ slot shape value base, l.arena.node id = .ok (.localSet slot shape value) ∧
    l.localBase slot = .ok base ∧ base ≤ k ∧ k < base + shape.width

def OnlyWrites (P : Nat → Prop) (code : List Instr) : Prop := ∀ k ∈ targetsSeq code, P k

theorem targetsSeq_append (first second : List Instr) :
    targetsSeq (first ++ second) = targetsSeq first ++ targetsSeq second := by
  induction first with
  | nil => rfl
  | cons i rest ih => rw [List.cons_append, targetsSeq, targetsSeq, ih, List.append_assoc]

namespace OnlyWrites

variable {P : Nat → Prop} {first second code : List Instr}

theorem nil : OnlyWrites P [] := by
  intro k mem
  cases mem

theorem append (one : OnlyWrites P first) (two : OnlyWrites P second) :
    OnlyWrites P (first ++ second) := by
  intro k mem
  rw [targetsSeq_append] at mem
  rcases List.mem_append.1 mem with inFirst | inSecond
  · exact one k inFirst
  · exact two k inSecond

theorem of_none {i : Instr} (none : i.targets = []) : OnlyWrites P [i] := by
  intro k mem
  rw [targetsSeq, none] at mem
  cases mem

theorem single {i : Instr} (each : ∀ k ∈ i.targets, P k) : OnlyWrites P [i] := by
  intro k mem
  rw [targetsSeq, targetsSeq, List.append_nil] at mem
  exact each k mem

theorem map {α : Type} {f : α → Instr} {xs : List α} (each : ∀ x ∈ xs, ∀ k ∈ (f x).targets, P k) :
    OnlyWrites P (xs.map f) := by
  induction xs with
  | nil => exact nil
  | cons x rest ih =>
    have head : OnlyWrites P [f x] := single (each x List.mem_cons_self)
    exact head.append (ih fun y mem => each y (List.mem_cons_of_mem x mem))

theorem map_none {α : Type} {f : α → Instr} (none : ∀ x, (f x).targets = []) (xs : List α) :
    OnlyWrites P (xs.map f) := by
  apply map
  intro x _ k mem
  rw [none] at mem
  cases mem

section
variable {l : Layout} {K : Tables} {sub : ExprId → List Instr → Prop}

theorem of_codes {ids : List ExprId}
    (each : ∀ id ∈ ids, ∀ code, sub id code → OnlyWrites P code) (codes : Codes sub ids code) :
    OnlyWrites P code := by
  induction codes with
  | nil => exact nil
  | cons first _ ih =>
    apply append (each _ List.mem_cons_self _ first)
    exact ih fun id mem => each id (List.mem_cons_of_mem _ mem)

theorem of_statements {ids : List ExprId}
    (each : ∀ id ∈ ids, ∀ code, sub id code → OnlyWrites P code)
    (codes : Codes (StatementCode l sub) ids code) : OnlyWrites P code := by
  refine of_codes (fun id mem code lowered => ?_) codes
  cases lowered with
  | mk value => exact (each id mem _ value).append (map_none (fun _ => rfl) _)

theorem of_sequence {value : Bool} {items : List ExprId}
    (each : ∀ id ∈ items, ∀ code, sub id code → OnlyWrites P code)
    (lowered : SequenceCode l sub value items code) : OnlyWrites P code := by
  cases lowered with
  | statements all => exact of_statements each all
  | empty => exact nil
  | value split others result =>
    subst split
    apply append
    · exact of_statements (fun id mem => each id (List.mem_append_left _ mem)) others
    · exact each _ (by simp) _ result

/-- What code of a node writes: what its operands write, its own target, and scratch locals. -/
theorem of_node {id : ExprId} {node : Node}
    (each : ∀ child ∈ node.children, ∀ code, sub child code → OnlyWrites P code)
    (own : ∀ slot shape value base k, node = .localSet slot shape value →
      l.localBase slot = .ok base → base ≤ k → k < base + shape.width → P k)
    (scratch : ∀ k, l.scratchBase ≤ k → P k) (lowered : NodeCode l K sub id node code) :
    OnlyWrites P code := by
  cases lowered with
  | const | leave | memorySize => exact of_none rfl
  | nop => exact nil
  | localGet | globalGet | extractLocal | extractGlobal => exact map_none (fun _ => rfl) _
  | localSet at_ operand =>
    apply append (each _ (by simp [Node.children]) _ operand)
    apply map
    intro i mem k is
    have small := List.mem_range.1 (List.mem_reverse.1 mem)
    cases List.mem_singleton.1 is
    exact own _ _ _ _ _ rfl at_ (Nat.le_add_right _ _) (Nat.add_lt_add_left small _)
  | globalSet _ operand =>
    exact (each _ (by simp [Node.children]) _ operand).append (map_none (fun _ => rfl) _)
  | binary first second =>
    have one := each _ (by simp [Node.children]) _ first
    have two := each _ (by simp [Node.children]) _ second
    exact (one.append two).append (of_none rfl)
  | unary value => exact (each _ (by simp [Node.children]) _ value).append (of_none rfl)
  | call operands => exact (of_codes each operands).append (of_none rfl)
  | callIndirect operands chosen =>
    have args := of_codes (fun id mem => each id (List.mem_append_left _ mem)) operands
    have index := each _ (by simp [Node.children]) _ chosen
    exact (args.append index).append (of_none rfl)
  | block _ body => exact of_sequence each body
  | group operands => exact of_codes each operands
  -- a spilled composite goes to scratch locals
  | extract _ _ _ _ value =>
    have inside := each _ (by simp [Node.children]) _ value
    refine (inside.append (map fun i mem k is => ?_)).append (map_none (fun _ => rfl) _)
    cases List.mem_singleton.1 is
    obtain ⟨j, _, rfl⟩ := List.mem_map.1 (List.mem_reverse.1 mem)
    exact scratch _ (Nat.le_add_right _ _)
  | chooseBoth _ decided _ yes no =>
    apply append (each _ (by simp [Node.children]) _ decided)
    have one := of_sequence (fun id mem => each id (by simp [Node.children, mem])) yes
    have two := of_sequence (fun id mem => each id (by simp [Node.children, mem])) no
    apply single
    intro k mem
    rcases List.mem_append.1 mem with inFirst | inSecond
    · exact one k inFirst
    · exact two k inSecond
  | chooseOne _ decided yes =>
    apply append (each _ (by simp [Node.children]) _ decided)
    exact single (of_sequence (fun id mem => each id (by simp [Node.children, mem])) yes)
  | loop before test inside behind =>
    have init := of_statements (fun id mem => each id (by simp [Node.children, mem])) before
    have cond := each _ (by simp [Node.children]) _ test
    have body := of_statements (fun id mem => each id (by simp [Node.children, mem])) inside
    have step := of_statements (fun id mem => each id (by simp [Node.children, mem])) behind
    have leave : OnlyWrites P [.unary (.eqz .w32), .brIf 1] := by
      intro k mem
      cases mem
    have round := (((cond.append leave).append body).append step).append (of_none (i := .br 0) rfl)
    apply append init
    apply single
    intro k mem
    exact (single (P := P) (i := .loop .empty _) round) k mem
  | ret result => exact (each _ (by simp [Node.children]) _ result).append (of_none rfl)
  | load place => exact (each _ (by simp [Node.children]) _ place).append (of_none rfl)
  | store place stored =>
    have one := each _ (by simp [Node.children]) _ place
    have two := each _ (by simp [Node.children]) _ stored
    exact (one.append two).append (of_none rfl)
  | memoryGrow amount => exact (each _ (by simp [Node.children]) _ amount).append (of_none rfl)

end

theorem of_codeWithin {l : Layout} {K : Tables} (scratch : ∀ k, l.scratchBase ≤ k → P k)
    {root : ExprId} (own : ∀ id k, l.arena.Within root id → l.Writes id k → P k) {depth : Nat}
    {id : ExprId} (within : l.arena.Within root id) (coded : CodeWithin l K depth id code) :
    OnlyWrites P code := by
  induction depth generalizing id code with
  | zero => exact coded.elim
  | succ depth ih =>
    obtain ⟨node, here, lowered⟩ := coded
    apply of_node _ _ scratch lowered
    · intro child mem code coded
      exact ih (within.child here mem) coded
    · rintro slot shape value base k rfl at_ le lt
      exact own id k within ⟨slot, shape, value, base, here, at_, le, lt⟩

end OnlyWrites

/-- A function writes scratch locals, and what statements of its body say. -/
theorem FunctionCode.writes {l : Layout} {types : List Signature} {signature : Signature}
    {shapes : List Shape} {body : List ExprId} {g : Wasm.Func}
    (code : FunctionCode l types signature shapes body g) {k : Nat} (mem : k ∈ targetsSeq g.body) :
    (shapes.map Shape.width).sum ≤ k ∨ ∃ root ∈ body, ∃ id, l.arena.Within root id ∧
      (l.withVariables shapes).Writes id k := by
  cases code with
  | @mk _ _ instrs typed statements =>
    let P (k : Nat) : Prop := (shapes.map Shape.width).sum ≤ k ∨ ∃ root ∈ body, ∃ id,
      l.arena.Within root id ∧ (l.withVariables shapes).Writes id k
    have all : OnlyWrites P instrs := by
      refine OnlyWrites.of_statements (fun root inBody code coded => ?_) statements
      refine OnlyWrites.of_codeWithin (fun k behind => .inl behind) ?_ .self coded
      intro id k within writes
      exact .inr ⟨root, inBody, id, within, writes⟩
    exact all k mem

end Lower

end WasmBuilder
