import WasmBuilder.Proofs.Expr.Depth
import WasmBuilder.Proofs.Lowering.Success
import WasmBuilder.Proofs.Typing.Provides

/-!
Well-typed expressions are lowered without failure.

Lowering looks a bounded number of operands deep. Well-typed expressions have no cycles, so the bound
is never met, and all that their nodes look for is there.
-/

set_option autoImplicit false

namespace WasmBuilder.Setting

open Lower (Layout LowerState Succeeds)

variable {v : Setting} {id : ExprId}

theorem WellTyped.exists_shallow (typed : v.WellTyped id) : ∃ depth, v.arena.Shallow depth id := by
  induction typed with
  | mk here _ _ _ ih =>
    obtain ⟨depth, below⟩ := Arena.Shallow.exists_common ih
    exact ⟨depth + 1, _, here, below⟩

theorem WellTyped.shallow (typed : v.WellTyped id) : v.arena.Shallow v.arena.pathBound id := by
  obtain ⟨depth, shallow⟩ := typed.exists_shallow
  exact shallow.within_size.succ

section
variable {l : Layout} (laid : v.Laid l)

include laid

theorem sequenceReady {sub : ExprId → Prop} {items : List ExprId} (value : Bool)
    (operands : ∀ item ∈ items, sub item) (typed : ∀ item ∈ items, v.WellTyped item) :
    Lower.SequenceReady l sub value items := by
  refine ⟨operands, fun id mem => ?_⟩
  rw [laid.arena]
  refine (typed id ?_).exists_slots
  cases value with
  | true => exact List.dropLast_subset _ mem
  | false => exact mem

variable (known : ∀ (k : Nat) (s : Signature), v.signatures[k]? = some s →
  ∃ i, l.funcIndices[k]? = some i)

include known

theorem ready_of_consistent {sub : ExprId → Prop} {node : Node} (here : v.arena.node id = .ok node)
    {ts : List NumType} (leaves : v.Leaves id ts) (consistent : v.Consistent id node)
    (typed : ∀ child ∈ node.children, v.WellTyped child)
    (operands : ∀ child ∈ node.children, sub child) :
    Lower.Ready l (fun _ => True) sub id node := by
  have slots : l.arena.slots id = .ok ts := by rw [laid.arena]; exact leaves
  cases node with
  | const | memorySize | nop => trivial
  | localGet slot shape => exact laid.exists_localBase consistent
  | localSet slot shape value =>
    exact ⟨laid.exists_localBase consistent.1, operands value List.mem_cons_self⟩
  | globalGet global shape => exact laid.exists_globalBase consistent
  | globalSet global shape value =>
    exact ⟨laid.exists_globalBase consistent.1, operands value List.mem_cons_self⟩
  | binary op left right =>
    exact ⟨operands left List.mem_cons_self,
      operands right (List.mem_cons_of_mem left List.mem_cons_self)⟩
  | unary op operand => exact operands operand List.mem_cons_self
  | call func args signature =>
    obtain ⟨i, found⟩ := known func signature consistent.1
    refine ⟨⟨i, ?_⟩, operands⟩
    rw [Layout.funcIndex, found]
  | callIndirect index args signature =>
    exact ⟨fun arg mem => operands arg (List.mem_append_left [index] mem),
      operands index (List.mem_append_right args List.mem_cons_self),
      Lower.succeeds_intern signature⟩
  | block items shape => exact ⟨ts, slots, sequenceReady laid _ operands typed⟩
  | group items => exact operands
  | extract composite index offset width =>
    have inner := typed composite List.mem_cons_self
    cases inner with
    | @mk _ other us there known consistent' _ =>
      refine ⟨other, by rw [laid.arena, there], ?_⟩
      split
      next slot shape => exact laid.exists_localBase consistent'
      next global shape => exact laid.exists_globalBase consistent'
      next =>
        obtain ⟨all, whole, fits⟩ := consistent
        exact ⟨all, by rw [laid.arena]; exact whole, fits, operands composite List.mem_cons_self,
          Lower.succeeds_spill all⟩
  | choose cond thenItems elseItems shape =>
    refine ⟨ts, slots, operands cond (List.mem_append_left elseItems List.mem_cons_self),
      Lower.succeeds_blockType ts, sequenceReady laid _ ?_ ?_, sequenceReady laid _ ?_ ?_⟩
    · exact fun x mem => operands x (List.mem_append_left elseItems (List.mem_cons_of_mem cond mem))
    · exact fun x mem => typed x (List.mem_append_left elseItems (List.mem_cons_of_mem cond mem))
    · exact fun x mem => operands x (List.mem_append_right (cond :: thenItems) mem)
    · exact fun x mem => typed x (List.mem_append_right (cond :: thenItems) mem)
  | loop init cond step body =>
    have among {x : ExprId} (mem : x ∈ init ++ body ++ step) :
        x ∈ (Node.loop init cond step body).children := by
      simp only [Node.children, List.mem_append, List.mem_cons] at mem ⊢
      grind
    refine ⟨fun x mem => ⟨operands x (among mem), ?_⟩, operands cond (by simp [Node.children])⟩
    rw [laid.arena]
    exact (typed x (among mem)).exists_slots
  | ret value =>
    cases value with
    | none => trivial
    | some value => exact operands value List.mem_cons_self
  | load type addr offset => exact operands addr List.mem_cons_self
  | store type addr value offset =>
    exact ⟨operands addr List.mem_cons_self,
      operands value (List.mem_cons_of_mem addr List.mem_cons_self)⟩
  | memoryGrow delta => exact operands delta List.mem_cons_self

theorem succeeds_exprWithin {depth : Nat} (typed : v.WellTyped id)
    (shallow : v.arena.Shallow depth id) : Succeeds (fun _ => True) (l.exprWithin depth id) := by
  induction depth generalizing id with
  | zero => exact shallow.elim
  | succ depth ih =>
    obtain ⟨node, here, below⟩ := shallow
    cases typed with
    | mk there leaves consistent operands =>
      cases here.symm.trans there
      have both : ∀ child ∈ node.children, v.WellTyped child ∧ v.arena.Shallow depth child :=
        fun child mem => ⟨operands child mem, below child mem⟩
      have ready := ready_of_consistent laid known here leaves consistent operands both
      have read : l.arena.node id = .ok node := by rw [laid.arena, here]
      exact .lift_bind read (Lower.succeeds_node (fun child both => ih both.1 both.2) ready)

theorem succeeds_expr (typed : v.WellTyped id) : Succeeds (fun _ => True) (l.expr id) := by
  have shallow := typed.shallow
  rw [← laid.arena] at shallow
  exact succeeds_exprWithin laid known typed (laid.arena ▸ shallow)

theorem succeeds_statement (typed : v.WellTyped id) :
    Succeeds (fun _ => True) (l.statement l.expr id) := by
  refine Lower.succeeds_statement (fun x typed => succeeds_expr laid known typed) ⟨typed, ?_⟩
  rw [laid.arena]
  exact typed.exists_slots

theorem succeeds_body {body : List ExprId} (typed : ∀ id ∈ body, v.WellTyped id) :
    Succeeds (fun _ => True) (l.body body) := by
  refine Lower.succeeds_statements (fun x typed => succeeds_expr laid known typed) fun id mem =>
    ⟨typed id mem, ?_⟩
  rw [laid.arena]
  exact (typed id mem).exists_slots

end

end WasmBuilder.Setting
