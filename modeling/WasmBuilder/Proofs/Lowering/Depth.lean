import WasmBuilder.Proofs.Expr.Depth
import WasmBuilder.Proofs.Lowering.Fields

/-!
Lowering, and how deep it looks.

Where lowering succeeds at all, it has looked at every operand, so the expression is a finite tree,
and looking to the bound of the arena comes to the same code and the same tables.
-/

set_option autoImplicit false

namespace WasmBuilder.Lower

open Wasm (Instr)

variable {α β : Type}

def Covered (m m' : LowerM α) : Prop := ∀ s r, m s = .ok r → m' s = .ok r

/-- A computation that answers only if something holds. -/
def Takes (m : LowerM α) (P : Prop) : Prop := ∀ s r, m s = .ok r → P

theorem bind_eq_ok {m : LowerM α} {f : α → LowerM β} {s : LowerState} {r : β × LowerState} :
    (m >>= f) s = .ok r ↔ ∃ x t, m s = .ok (x, t) ∧ f x t = .ok r := by
  simp only [bind, StateT.bind]
  cases m s with
  | error e => simp [Except.bind]
  | ok answer => simp [Except.bind, Prod.ext_iff]

namespace Covered

theorem refl (m : LowerM α) : Covered m m := fun _ _ done => done

theorem bind {m m' : LowerM α} {f f' : α → LowerM β} (first : Covered m m')
    (second : ∀ x, Covered (f x) (f' x)) : Covered (m >>= f) (m' >>= f') := by
  intro s r done
  obtain ⟨x, t, run, rest⟩ := bind_eq_ok.1 done
  exact bind_eq_ok.2 ⟨x, t, first s _ run, second x t r rest⟩

end Covered

namespace Takes

variable {m : LowerM α} {f : α → LowerM β} {P Q : Prop}

theorem imp (takes : Takes m P) (implies : P → Q) : Takes m Q :=
  fun s r done => implies (takes s r done)

theorem bind (first : Takes m P) : Takes (m >>= f) P := by
  intro s r done
  obtain ⟨x, t, run, _⟩ := bind_eq_ok.1 done
  exact first s _ run

theorem after (second : ∀ x, Takes (f x) P) : Takes (m >>= f) P := by
  intro s r done
  obtain ⟨x, t, _, rest⟩ := bind_eq_ok.1 done
  exact second x t r rest

end Takes

section
variable {l : Layout} {f g : ExprId → LowerM (List Instr)} {ids : List ExprId}

theorem covered_operands (each : ∀ id ∈ ids, Covered (f id) (g id)) :
    Covered (Layout.operands f ids) (Layout.operands g ids) := by
  induction ids with
  | nil => exact .refl _
  | cons id rest ih =>
    exact (each id List.mem_cons_self).bind fun _ =>
      (ih fun other mem => each other (List.mem_cons_of_mem id mem)).bind fun _ => .refl _

theorem covered_statement {id : ExprId} (each : Covered (f id) (g id)) :
    Covered (l.statement f id) (l.statement g id) := each.bind fun _ => .refl _

theorem statements_eq_operands (f : ExprId → LowerM (List Instr)) (ids : List ExprId) :
    l.statements f ids = Layout.operands (l.statement f) ids := by
  induction ids with
  | nil => rfl
  | cons id rest ih => rw [Layout.statements, Layout.operands, ih]

theorem covered_statements (each : ∀ id ∈ ids, Covered (f id) (g id)) :
    Covered (l.statements f ids) (l.statements g ids) := by
  rw [statements_eq_operands, statements_eq_operands]
  exact covered_operands fun id mem => covered_statement (each id mem)

theorem sequence_statements (f : ExprId → LowerM (List Instr)) (ids : List ExprId) :
    l.sequence f false ids = l.statements f ids := by
  rw [statements_eq_operands]
  induction ids with
  | nil => rfl
  | cons id rest ih =>
    cases rest with
    | nil =>
      -- nothing stands behind the last one
      funext s
      show l.statement f id s = (do return (← l.statement f id) ++ [] : LowerM (List Instr)) s
      simp only [List.append_nil, bind_pure]
    | cons =>
      rw [Layout.sequence, Layout.operands, ih]
      exact List.cons_ne_nil _ _

theorem covered_sequence (value : Bool) (each : ∀ id ∈ ids, Covered (f id) (g id)) :
    Covered (l.sequence f value ids) (l.sequence g value ids) := by
  induction ids with
  | nil => exact .refl _
  | cons id rest ih =>
    have here := each id List.mem_cons_self
    cases rest with
    | nil =>
      cases value with
      | true => exact here
      | false => exact covered_statement here
    | cons =>
      exact (covered_statement here).bind fun _ =>
        (ih fun other mem => each other (List.mem_cons_of_mem id mem)).bind fun _ => .refl _

theorem covered_extract {composite offset width : Nat} (each : Covered (f composite) (g composite)) :
    Covered (l.extract f composite offset width) (l.extract g composite offset width) := by
  refine (Covered.refl _).bind fun node => ?_
  split
  · exact .refl _
  · exact .refl _
  · refine (Covered.refl _).bind fun all => ?_
    split
    · exact (Covered.refl _).bind fun _ => each.bind fun _ => .refl _
    · exact each.bind fun _ => .refl _

theorem covered_node {id : ExprId} {node : Node}
    (each : ∀ child ∈ node.children, Covered (f child) (g child)) :
    Covered (l.node f id node) (l.node g id node) := by
  cases node with
  | const | localGet | globalGet | memorySize | nop => exact .refl _
  | localSet slot shape value | globalSet slot shape value =>
    exact (Covered.refl _).bind fun _ => (each value List.mem_cons_self).bind fun _ => .refl _
  | binary op left right | store _ left right =>
    exact (each left List.mem_cons_self).bind fun _ =>
      (each right (by simp [Node.children])).bind fun _ => .refl _
  | unary _ operand | load _ operand | memoryGrow operand =>
    exact (each operand List.mem_cons_self).bind fun _ => .refl _
  | call func args =>
    exact (covered_operands each).bind fun _ => .refl _
  | callIndirect index args signature =>
    exact (covered_operands fun id mem => each id (List.mem_append_left _ mem)).bind fun _ =>
      (each index (by simp [Node.children])).bind fun _ => .refl _
  | block items shape => exact (Covered.refl _).bind fun _ => covered_sequence _ each
  | group items => exact covered_operands each
  | extract composite index offset width => exact covered_extract (each composite List.mem_cons_self)
  -- slots and types do not depend on how operands are lowered
  | choose cond thenItems elseItems shape =>
    refine (Covered.refl _).bind fun slots => (each cond (by simp [Node.children])).bind fun _ => ?_
    refine (Covered.refl _).bind fun _ => ?_
    refine (covered_sequence _ fun id mem => each id (by simp [Node.children, mem])).bind fun _ => ?_
    split
    · exact (covered_sequence _ fun id mem => each id (by simp [Node.children, mem])).bind fun _ =>
        .refl _
    · exact .refl _
  | loop init cond step body =>
    have part (ids : List ExprId) (among : ∀ id ∈ ids, id ∈ init ++ cond :: body ++ step) :
        Covered (l.statements f ids) (l.statements g ids) :=
      covered_statements fun id mem => each id (among id mem)
    exact (part init (by simp +contextual)).bind fun _ =>
      (each cond (by simp [Node.children])).bind fun _ =>
      (part body (by simp +contextual)).bind fun _ =>
      (part step (by simp +contextual)).bind fun _ => .refl _
  | ret value =>
    cases value with
    | none => exact .refl _
    | some value => exact (each value List.mem_cons_self).bind fun _ => .refl _

def Answered (f : ExprId → LowerM (List Instr)) (id : ExprId) : Prop := ∃ s r, f id s = .ok r

theorem takes_answered (id : ExprId) : Takes (f id) (Answered f id) := fun s r done => ⟨s, r, done⟩

theorem takes_operands {id : ExprId} (mem : id ∈ ids) :
    Takes (Layout.operands f ids) (Answered f id) := by
  induction ids with
  | nil => cases mem
  | cons first rest ih =>
    rcases List.mem_cons.1 mem with rfl | mem
    · exact (takes_answered id).bind
    · exact .after fun _ => (ih mem).bind

theorem takes_statement (id : ExprId) : Takes (l.statement f id) (Answered f id) :=
  (takes_answered id).bind

theorem takes_statements {id : ExprId} (mem : id ∈ ids) :
    Takes (l.statements f ids) (Answered (l.statement f) id) := by
  rw [statements_eq_operands]
  exact takes_operands mem

theorem Answered.of_statement {id : ExprId} (answered : Answered (l.statement f) id) :
    Answered f id := by
  obtain ⟨s, r, done⟩ := answered
  exact takes_statement id s r done

theorem takes_sequence (value : Bool) {id : ExprId} (mem : id ∈ ids) :
    Takes (l.sequence f value ids) (Answered f id) := by
  induction ids with
  | nil => cases mem
  | cons first rest ih =>
    cases rest with
    | nil =>
      cases List.mem_singleton.1 mem
      cases value with
      | true => exact takes_answered id
      | false => exact takes_statement id
    | cons =>
      rcases List.mem_cons.1 mem with rfl | mem
      · exact (takes_statement id).bind
      · exact .after fun _ => (ih mem).bind

theorem takes_extract {composite offset width : Nat} :
    Takes (l.extract f composite offset width) (Answered f composite ∨ l.IsRead composite) := by
  intro s r done
  obtain ⟨node, t, found, rest⟩ := bind_eq_ok.1 done
  have here : l.arena.node composite = .ok node := by
    cases read : l.arena.node composite with
    | error e =>
      rw [read] at found
      cases found
    | ok other =>
      rw [read] at found
      cases found
      rfl
  cases node with
  | localGet slot shape => exact .inr (.inl ⟨slot, shape, here⟩)
  | globalGet global shape => exact .inr (.inr ⟨global, shape, here⟩)
  | _ =>
    refine .inl (Takes.after (P := Answered f composite) (fun all => ?_) t r rest)
    dsimp only
    split
    · exact .after fun _ => (takes_answered composite).bind
    · exact (takes_answered composite).bind

/-- A node answers only if its operands do, but for a variable that a field is read from. -/
theorem takes_node {id child : ExprId} {node : Node} (mem : child ∈ node.children) :
    Takes (l.node f id node) (Answered f child ∨ l.IsRead child) := by
  have answered {m : LowerM (List Instr)} (takes : Takes m (Answered f child)) :
      Takes m (Answered f child ∨ l.IsRead child) := takes.imp .inl
  have here := takes_answered (f := f) child
  cases node with
  | const | localGet | globalGet | memorySize | nop => cases mem
  | localSet slot shape value | globalSet slot shape value =>
    cases List.mem_singleton.1 mem
    exact answered (.after fun _ => here.bind)
  | binary op left right | store _ left right =>
    rcases List.mem_cons.1 mem with rfl | mem
    · exact answered here.bind
    · cases List.mem_singleton.1 mem
      exact answered (.after fun _ => here.bind)
  | unary _ operand | load _ operand | memoryGrow operand =>
    cases List.mem_singleton.1 mem
    exact answered here.bind
  | call func args => exact answered (takes_operands mem).bind
  | callIndirect index args signature =>
    rcases List.mem_append.1 mem with mem | mem
    · exact answered (takes_operands mem).bind
    · cases List.mem_singleton.1 mem
      exact answered (.after fun _ => here.bind)
  | block items shape => exact answered (.after fun _ => takes_sequence _ mem)
  | group items => exact answered (takes_operands mem)
  | extract composite index offset width =>
    cases List.mem_singleton.1 mem
    exact takes_extract
  | choose cond thenItems elseItems shape =>
    refine answered (.after fun slots => ?_)
    rcases List.mem_append.1 mem with mem | mem
    · rcases List.mem_cons.1 mem with rfl | mem
      · exact here.bind
      · exact .after fun _ => .after fun _ => (takes_sequence _ mem).bind
    · refine .after fun _ => .after fun _ => .after fun _ => ?_
      -- an arm with something in it is not left out
      have any : elseItems.isEmpty = false := List.isEmpty_eq_false_iff.2 (List.ne_nil_of_mem mem)
      simp only [any, Bool.not_false, Bool.or_true, if_true]
      exact (takes_sequence _ mem).bind
  | loop init cond step body =>
    refine answered ?_
    have part {ids : List ExprId} (mem : child ∈ ids) :
        Takes (l.statements f ids) (Answered f child) := (takes_statements mem).imp .of_statement
    rcases List.mem_append.1 mem with mem | mem
    · rcases List.mem_append.1 mem with mem | mem
      · exact (part mem).bind
      · rcases List.mem_cons.1 mem with rfl | mem
        · exact .after fun _ => here.bind
        · exact .after fun _ => .after fun _ => (part mem).bind
    · exact .after fun _ => .after fun _ => .after fun _ => (part mem).bind
  | ret value =>
    cases value with
    | none => cases mem
    | some value =>
      cases List.mem_singleton.1 mem
      exact answered here.bind

end

variable {l : Layout} {depth : Nat} {id : ExprId}

theorem exprWithin_succ_eq_ok {s : LowerState} {r : List Instr × LowerState} :
    l.exprWithin (depth + 1) id s = .ok r ↔
      ∃ node, l.arena.node id = .ok node ∧ l.node (l.exprWithin depth) id node s = .ok r := by
  cases found : l.arena.node id with
  | error e =>
    rw [Layout.exprWithin, found]
    constructor
    · intro done
      cases done
    · rintro ⟨_, here, _⟩
      cases here
  | ok node =>
    rw [exprWithin_succ found]
    exact ⟨fun done => ⟨node, rfl, done⟩, by rintro ⟨_, ⟨⟩, done⟩; exact done⟩

/-- What has code is no deeper than lowering looked, but for a variable below it. -/
theorem shallow_of_answered (answered : Answered (l.exprWithin depth) id) :
    l.arena.Shallow (depth + 1) id := by
  induction depth generalizing id with
  | zero =>
    obtain ⟨s, r, done⟩ := answered
    cases done
  | succ depth ih =>
    obtain ⟨s, r, done⟩ := answered
    obtain ⟨node, here, done⟩ := exprWithin_succ_eq_ok.1 done
    refine ⟨node, here, fun child mem => ?_⟩
    rcases takes_node mem s r done with below | ⟨slot, shape, read⟩ | ⟨global, shape, read⟩
    · exact ih below
    · exact ⟨_, read, nofun⟩
    · exact ⟨_, read, nofun⟩

theorem covered_of_shallow {deep : Nat} (shallow : l.arena.Shallow deep id) (depth : Nat) :
    Covered (l.exprWithin depth id) (l.exprWithin deep id) := by
  induction deep generalizing depth id with
  | zero => exact shallow.elim
  | succ deep ih =>
    intro s r done
    cases depth with
    | zero => cases done
    | succ depth =>
      obtain ⟨node, here, below⟩ := shallow
      rw [exprWithin_succ here] at done ⊢
      exact covered_node (fun child mem => ih (below child mem) depth) s r done

theorem covered_expr (depth : Nat) (id : ExprId) : Covered (l.exprWithin depth id) (l.expr id) := by
  intro s r done
  have shallow := (shallow_of_answered ⟨s, r, done⟩).within_size
  exact covered_of_shallow shallow.succ depth s r done

end WasmBuilder.Lower
