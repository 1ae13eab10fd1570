import WasmBuilder.Lower.Module

/-!
Two ways to lower operands, side by side.

Lowering only runs computations one after the other. So a relation between computations that this
keeps, and that holds of what lowering asks of the layout, holds of all code when it holds of the code
of the operands: of the lists of a node, of the node, and of a body.
-/

set_option autoImplicit false

namespace WasmBuilder.Lower

open Wasm (Instr)

/-- A relation between computations that holds of all that lowering does besides its operands. What is
asked of the arena is asked of expressions that are `known`. -/
structure Congruence (l : Layout) (known : ExprId → Prop)
    (R : ∀ {α : Type}, LowerM α → LowerM α → Prop) : Prop where
  total : ∀ {α : Type} {m : LowerM α}, (∀ s, ∃ r, m s = .ok r) → R m m
  bind : ∀ {α β : Type} {m m' : LowerM α} {f f' : α → LowerM β},
    R m m' → (∀ x, R (f x) (f' x)) → R (m >>= f) (m' >>= f')
  localBase : ∀ slot, R (liftM (l.localBase slot)) (liftM (l.localBase slot))
  globalBase : ∀ global, R (liftM (l.globalBase global)) (liftM (l.globalBase global))
  funcIndex : ∀ func, R (liftM (l.funcIndex func)) (liftM (l.funcIndex func))
  slots : ∀ id, known id → R (liftM (l.arena.slots id)) (liftM (l.arena.slots id))
  node : ∀ id, known id → R (liftM (l.arena.node id)) (liftM (l.arena.node id))
  narrow : ∀ id, known id → R (α := PUnit) (throw (.unknownExpression id))
    (throw (.unknownExpression id))

theorem total_intern (signature : Signature) (s : LowerState) : ∃ r, intern signature s = .ok r := by
  unfold intern
  split <;> exact ⟨_, rfl⟩

theorem total_acquire (t : NumType) (s : LowerState) : ∃ r, acquire t s = .ok r := by
  unfold acquire
  split <;> exact ⟨_, rfl⟩

namespace Congruence

variable {l : Layout} {known : ExprId → Prop} {R : ∀ {α : Type}, LowerM α → LowerM α → Prop}
  {α β : Type} {f g : ExprId → LowerM (List Instr)} {ids : List ExprId}

variable (congruence : Congruence l known @R)

include congruence

theorem pure (x : α) : R (Pure.pure x) (Pure.pure x) := congruence.total fun _ => ⟨_, rfl⟩

theorem mapM {f g : α → LowerM β} {xs : List α} (each : ∀ x ∈ xs, R (f x) (g x)) :
    R (xs.mapM f) (xs.mapM g) := by
  induction xs with
  | nil => exact congruence.pure []
  | cons x xs ih =>
    rw [List.mapM_cons, List.mapM_cons]
    refine congruence.bind (each x List.mem_cons_self) fun _ => ?_
    exact congruence.bind (ih fun y mem => each y (List.mem_cons_of_mem x mem)) fun _ =>
      congruence.pure _

theorem forM {f g : α → LowerM PUnit} {xs : List α} (each : ∀ x ∈ xs, R (f x) (g x)) :
    R (xs.forM f) (xs.forM g) := by
  induction xs with
  | nil => exact congruence.pure _
  | cons x xs ih =>
    exact congruence.bind (each x List.mem_cons_self) fun _ =>
      ih fun y mem => each y (List.mem_cons_of_mem x mem)

theorem intern (signature : Signature) : R (intern signature) (intern signature) :=
  congruence.total (total_intern signature)

theorem spill (ts : List NumType) : R (spill ts) (spill ts) := by
  refine congruence.bind (congruence.mapM fun t _ => congruence.total (total_acquire t)) fun is => ?_
  exact congruence.bind (congruence.forM fun i _ => congruence.total fun s => ⟨_, rfl⟩) fun _ =>
    congruence.pure is

theorem blockType (ts : List NumType) : R (blockType ts) (blockType ts) := by
  match ts with
  | [] | [_] => exact congruence.pure _
  | _ :: _ :: _ => exact congruence.bind (congruence.intern _) fun _ => congruence.pure _

theorem operands (each : ∀ id ∈ ids, R (f id) (g id)) :
    R (Layout.operands f ids) (Layout.operands g ids) := by
  induction ids with
  | nil => exact congruence.pure _
  | cons id rest ih =>
    refine congruence.bind (each id List.mem_cons_self) fun _ => ?_
    exact congruence.bind (ih fun other mem => each other (List.mem_cons_of_mem id mem)) fun _ =>
      congruence.pure _

theorem statement {id : ExprId} (isKnown : known id) (each : R (f id) (g id)) :
    R (l.statement f id) (l.statement g id) :=
  congruence.bind each fun _ => congruence.bind (congruence.slots id isKnown) fun _ =>
    congruence.pure _

theorem statements (all : ∀ id ∈ ids, known id) (each : ∀ id ∈ ids, R (f id) (g id)) :
    R (l.statements f ids) (l.statements g ids) := by
  induction ids with
  | nil => exact congruence.pure _
  | cons id rest ih =>
    have ⟨isKnown, others⟩ := List.forall_mem_cons.1 all
    have ⟨here, later⟩ := List.forall_mem_cons.1 each
    exact congruence.bind (congruence.statement isKnown here) fun _ =>
      congruence.bind (ih others later) fun _ => congruence.pure _

theorem sequence (value : Bool) (all : ∀ id ∈ ids, known id) (each : ∀ id ∈ ids, R (f id) (g id)) :
    R (l.sequence f value ids) (l.sequence g value ids) := by
  induction ids with
  | nil => exact congruence.pure _
  | cons id rest ih =>
    have ⟨isKnown, others⟩ := List.forall_mem_cons.1 all
    have ⟨here, later⟩ := List.forall_mem_cons.1 each
    cases rest with
    | nil =>
      cases value with
      | true => exact here
      | false => exact congruence.statement isKnown here
    | cons =>
      exact congruence.bind (congruence.statement isKnown here) fun _ =>
        congruence.bind (ih others later) fun _ => congruence.pure _

theorem extract {composite : ExprId} (isKnown : known composite)
    (each : R (f composite) (g composite)) (offset width : Nat) :
    R (l.extract f composite offset width) (l.extract g composite offset width) := by
  refine congruence.bind (congruence.node composite isKnown) fun node => ?_
  split
  · exact congruence.bind (congruence.localBase _) fun _ => congruence.pure _
  · exact congruence.bind (congruence.globalBase _) fun _ => congruence.pure _
  · refine congruence.bind (congruence.slots composite isKnown) fun all => ?_
    have spilled := congruence.bind each fun code =>
      congruence.bind (congruence.spill all) fun is => congruence.pure
        (code ++ (is.map (l.scratchBase + ·)).reverse.map Instr.localSet ++
          (((is.map (l.scratchBase + ·)).drop offset).take width).map Instr.localGet)
    dsimp only
    split
    · exact congruence.bind (congruence.narrow composite isKnown) fun _ => spilled
    · exact spilled

/-- What relates the code of the operands of a node relates the code of the node. -/
theorem node_of_children {id : ExprId} (isKnown : known id) {node : Node}
    (all : ∀ child ∈ node.children, known child)
    (each : ∀ child ∈ node.children, R (f child) (g child)) :
    R (l.node f id node) (l.node g id node) := by
  have slots := congruence.slots id isKnown
  cases node with
  | const | memorySize | nop => exact congruence.pure _
  | localGet slot => exact congruence.bind (congruence.localBase slot) fun _ => congruence.pure _
  | globalGet global => exact congruence.bind (congruence.globalBase global) fun _ => congruence.pure _
  | localSet slot _ value =>
    exact congruence.bind (congruence.localBase slot) fun _ =>
      congruence.bind (each value List.mem_cons_self) fun _ => congruence.pure _
  | globalSet global _ value =>
    exact congruence.bind (congruence.globalBase global) fun _ =>
      congruence.bind (each value List.mem_cons_self) fun _ => congruence.pure _
  | binary _ left right | store _ left right =>
    exact congruence.bind (each left List.mem_cons_self) fun _ =>
      congruence.bind (each right (by simp [Node.children])) fun _ => congruence.pure _
  | unary _ operand | load _ operand | memoryGrow operand =>
    exact congruence.bind (each operand List.mem_cons_self) fun _ => congruence.pure _
  | call func args =>
    exact congruence.bind (congruence.operands each) fun _ =>
      congruence.bind (congruence.funcIndex func) fun _ => congruence.pure _
  | callIndirect index args signature =>
    refine congruence.bind (congruence.operands fun x mem => each x (List.mem_append_left _ mem))
      fun _ => ?_
    exact congruence.bind (each index (by simp [Node.children])) fun _ =>
      congruence.bind (congruence.intern signature) fun _ => congruence.pure _
  | block items => exact congruence.bind slots fun _ => congruence.sequence _ all each
  | group items => exact congruence.operands each
  | extract composite _ offset width =>
    exact congruence.extract (all composite List.mem_cons_self) (each composite List.mem_cons_self) _ _
  | choose cond thenItems elseItems shape =>
    -- both arms are lists of operands
    have arm (value : Bool) {ids : List ExprId}
        (among : ∀ x ∈ ids, x ∈ cond :: thenItems ++ elseItems) :
        R (l.sequence f value ids) (l.sequence g value ids) :=
      congruence.sequence value (fun x mem => all x (among x mem)) fun x mem => each x (among x mem)
    refine congruence.bind slots fun ts => congruence.bind (each cond (by simp [Node.children]))
      fun _ => congruence.bind (congruence.blockType ts) fun _ => ?_
    refine congruence.bind (arm _ (by simp +contextual)) fun _ => ?_
    split
    · exact congruence.bind (arm _ (by simp +contextual)) fun _ => congruence.pure _
    · exact congruence.pure _
  | loop init cond step body =>
    have part {ids : List ExprId} (among : ∀ x ∈ ids, x ∈ init ++ cond :: body ++ step) :
        R (l.statements f ids) (l.statements g ids) :=
      congruence.statements (fun x mem => all x (among x mem)) fun x mem => each x (among x mem)
    refine congruence.bind (part (by simp +contextual)) fun _ =>
      congruence.bind (each cond (by simp [Node.children])) fun _ => ?_
    exact congruence.bind (part (by simp +contextual)) fun _ =>
      congruence.bind (part (by simp +contextual)) fun _ => congruence.pure _
  | ret value =>
    cases value with
    | none => exact congruence.pure _
    | some value => exact congruence.bind (each value List.mem_cons_self) fun _ => congruence.pure _

end Congruence

end WasmBuilder.Lower
