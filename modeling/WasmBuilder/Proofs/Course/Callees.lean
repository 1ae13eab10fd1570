import WasmBuilder.Proofs.Course.References
import WasmBuilder.Proofs.Startup.Body

/-!
Which callables the steps of a body call.

A body sees the functions that are declared when it is opened, and only steps that call one of these
make calls.
-/

set_option autoImplicit false

namespace WasmBuilder

def Node.isCall : Node → Bool
  | call .. | callIndirect .. => true
  | _ => false

def Arena.CallsSome (a : Arena) (callables : Array Callable) (id : ExprId) : Prop :=
  ∃ (k : Nat) (d : Callable) (args : List ExprId), callables[k]? = some d ∧ a.Calls d args id

namespace Body

variable {b c : Body}

/-- What steps add: nodes, of which the calls are of callables that the body sees, and statements
among the expressions that there are. -/
structure Adds (b c : Body) : Prop where
  continues : b.arena.Continues c.arena
  callables : c.callables = b.callables
  calls : ∀ (id : ExprId) (node : Node), b.arena.size ≤ id → c.arena.node id = .ok node →
    node.isCall = true → c.arena.CallsSome b.callables id
  roots : (∀ x ∈ b.statements, x < b.arena.size) → ∀ x ∈ c.statements, x < c.arena.size

namespace Adds

theorem refl (b : Body) : Adds b b where
  continues := .refl _
  callables := rfl
  calls _ _ behind here := absurd (Arena.lt_size_of_node here) (Nat.not_lt.2 behind)
  roots old := old

theorem trans {d : Body} (first : Adds b c) (second : Adds c d) : Adds b d where
  continues id node here := second.continues id node (first.continues id node here)
  callables := second.callables.trans first.callables
  calls id node behind here isCall := by
    by_cases old : id < c.arena.size
    · -- the first of them made it, and it is still there
      have made := second.continues.node_of_lt old here
      obtain ⟨k, d, args, known, calls⟩ := first.calls id node behind made isCall
      exact ⟨k, d, args, known, calls.lasts second.continues.lasts⟩
    · rw [← first.callables]
      exact second.calls id node (Nat.not_lt.1 old) here isCall
  roots old := second.roots (first.roots old)

instance : IsPreorder Body Adds where
  refl := refl
  trans _ _ _ := trans

/-- Any node but a call can be added. -/
theorem push {node : Node} (plain : node.isCall = false) (label : Option Shape) :
    Adds b { b with arena := b.arena.push node label } where
  continues := Arena.continues_push _ _ _
  callables := rfl
  calls id other behind here isCall := by
    rw [Arena.node_of_push behind here, plain] at isCall
    cases isCall
  roots old x mem := by
    rw [Arena.size_push]
    exact Nat.lt_succ_of_lt (old x mem)

theorem pushCall {callable : Nat} {d : Callable} {args : List ExprId}
    (known : b.callables[callable]? = some d) {node : Node} {label : Option Shape}
    (called : (b.arena.push node label).Calls d args b.arena.size) :
    Adds b { b with arena := b.arena.push node label } where
  continues := Arena.continues_push _ _ _
  callables := rfl
  calls id other behind here _ := by
    have inside := Arena.lt_size_of_node here
    rw [Arena.size_push] at inside
    cases Nat.le_antisymm (Nat.le_of_lt_succ inside) behind
    exact ⟨callable, d, args, known, called⟩
  roots old x mem := by
    rw [Arena.size_push]
    exact Nat.lt_succ_of_lt (old x mem)

theorem of_size_eq (continues : b.arena.Continues c.arena) (size : c.arena.size = b.arena.size)
    (callables : c.callables = b.callables) (statements : c.statements = b.statements) :
    Adds b c where
  continues := continues
  callables := callables
  calls id node behind here :=
    absurd (Arena.lt_size_of_node here) (Nat.not_lt.2 (size ▸ behind))
  roots old := by
    rw [statements, size]
    exact old

end Adds

theorem adds_ask {α : Type} (question : Body → Except BuildError α) :
    Moves Adds b (ask question) fun x t => t = b ∧ question b = .ok x := by
  unfold Moves
  rw [ask_run]
  cases answer : question b with
  | ok x => exact ⟨.refl b, rfl, rfl⟩
  | error e => exact .refl b

theorem adds_settle (id : ExprId) : Moves Adds b (settle id) fun _ _ => True :=
  (adds_ask _).weaken fun _ _ _ _ => trivial

theorem adds_primitiveOf (id : ExprId) : Moves Adds b (primitiveOf id) fun _ _ => True :=
  (adds_ask _).weaken fun _ _ _ _ => trivial

theorem adds_emit {node : Node} (plain : node.isCall = false) (shape : Shape) :
    Moves Adds b (emit node shape) fun _ _ => True :=
  ⟨.push plain _, trivial⟩

theorem adds_emitOperand {node : Node} (plain : node.isCall = false) (shape : Shape) :
    Moves Adds b (emitOperand node shape) fun _ _ => True :=
  (adds_emit plain shape).bind fun _ _ _ _ => Moves.pure trivial

theorem adds_read (name : String) : Moves Adds b (read name) fun _ _ => True := by
  apply Moves.intro
  · intro o c done
    obtain ⟨storage, index, slot, -, -, -, rfl⟩ := read_eq_ok_iff.1 done
    have plain : (readNode storage index slot.shape).isCall = false := by cases storage <;> rfl
    exact ⟨.push plain _, trivial⟩
  · intro e c failed
    have ⟨_, same, _⟩ := read_eq_error_iff.1 failed
    exact same ▸ .refl b

theorem adds_write (name : String) (value : ExprId) :
    Moves Adds b (write name value) fun _ _ => True := by
  apply Moves.intro
  · intro id c done
    obtain ⟨storage, index, shape, d, binds, rfl, rfl⟩ := write_eq_ok_iff.1 done
    have bound : Adds b d := by
      apply Adds.of_size_eq _ _ binds.callables_eq binds.statements_eq <;> rw [binds.arena_eq]
      exact .refl _
    have plain : (writeNode storage index shape value).isCall = false := by cases storage <;> rfl
    exact ⟨bound.trans (.push plain _), trivial⟩
  · exact fun e c failed => write_error failed ▸ .refl b

theorem adds_assign (pairs : List (String × ExprId)) :
    Moves Adds b (assign pairs) fun _ _ => True := by
  apply (Moves.mapM fun p _ c _ => adds_write p.1 p.2).bind
  intro writes c _ _
  exact adds_emit rfl .auto

theorem adds_field (operand : Operand) (key : FieldKey) :
    Moves Adds b (field operand key) fun _ _ => True := by
  apply (adds_ask _).bind
  rintro ⟨result, arena⟩ b _ ⟨rfl, done⟩
  obtain ⟨-, index, offset, width, label, rfl⟩ := Arena.field_eq_push done
  have pushed : Moves Adds b (modify fun c => { c with
      arena := b.arena.push (.extract operand.id index offset width) label }) fun _ _ => True :=
    Moves.modify (.push rfl label) trivial
  exact pushed.bind fun _ _ _ _ => Moves.pure trivial

theorem adds_giveResult {values : List ExprId} (known : ∀ v ∈ values, v < b.arena.size) :
    Moves Adds b (giveResult values) fun _ _ => True := by
  unfold Moves
  rcases giveResult_cases values b with ⟨e, run⟩ | ⟨last, arena, result, -, continues, size, run⟩
  · rw [run]
    exact .refl b
  · rw [run]
    have labelled : Adds b { b with arena } := .of_size_eq continues size rfl rfl
    have returning : (Node.ret (some last)).isCall = false := rfl
    have returned := labelled.trans (.push returning (some .none))
    refine ⟨{ returned with roots := fun old x mem => ?_ }, trivial⟩
    have inside (v : ExprId) (lt : v < b.arena.size) :
        v < (arena.push (.ret (some last)) (some .none)).size := by
      rw [Arena.size_push, size]
      exact Nat.lt_succ_of_lt lt
    rcases List.mem_append.1 mem with before | new
    · rcases List.mem_append.1 before with before | value
      · exact inside x (old x before)
      · exact inside x (known x (List.dropLast_subset _ value))
    · rw [List.mem_singleton.1 new]
      simp

theorem adds_exec {values : List ExprId} (known : ∀ v ∈ values, v < b.arena.size) :
    Moves Adds b (exec values) fun _ _ => True := by
  unfold exec
  split
  · exact Moves.throw
  · refine Moves.modify { Adds.refl b with roots := fun old x mem => ?_ } trivial
    rcases List.mem_append.1 mem with before | value
    · exact old x before
    · exact known x value

theorem adds_block (values : List ExprId) : Moves Adds b (block values) fun _ _ => True := by
  unfold block
  cases values.getLast? with
  | none => exact Moves.throw
  | some last => exact (adds_settle last).bind fun shape _ _ _ => adds_emitOperand rfl shape

/-- A call adds a call of the callable, behind a constant when it goes through the table. -/
theorem adds_reach {callable : Nat} {d : Callable} (known : b.callables[callable]? = some d)
    (args : List ExprId) : Moves Adds b (match d.kind with
      | .indirect slot => do
        let index ← i32 slot
        emitOperand (.callIndirect index args d.signature) d.result
      | .direct | .external => emitOperand (.call d.func args d.signature) d.result)
      fun _ _ => True := by
  cases kind : d.kind with
  | direct | external =>
    have called : (b.arena.push (.call d.func args d.signature) (some d.result)).Calls d args
        b.arena.size := .direct (by simp [kind]) (Arena.node_push_size ..)
    exact ⟨.pushCall known called, trivial⟩
  | indirect slot =>
    have constant : Moves Adds b (i32 slot) fun id c => c.callables[callable]? = some d ∧
        c.arena.node id = .ok (.const (.i32 (BitVec.ofNat 32 slot))) := by
      refine ⟨.push rfl _, known, ?_⟩
      rw [Arena.node_push_size, Value.ofNumber, BitVec.ofInt_natCast,
        BitVec.setWidth_ofNat_of_le (by decide)]
    apply constant.bind
    rintro index c _ ⟨known, chosen⟩
    have called : (c.arena.push (.callIndirect index args d.signature) (some d.result)).Calls d args
        c.arena.size := by
      refine .indirect kind ?_ (Arena.node_push_size ..)
      exact Arena.continues_push _ _ _ index _ chosen
    exact ⟨.pushCall known called, trivial⟩

theorem adds_call (callable : Nat) (args : List ExprId) :
    Moves Adds b (call callable args) fun _ _ => True := by
  apply Moves.get_bind
  cases known : b.callables[callable]? with
  | none => exact Moves.throw
  | some d =>
    dsimp only
    split
    · exact Moves.throw
    · exact adds_reach known args

theorem adds_tuple (values : List ExprId) : Moves Adds b (tuple values) fun _ _ => True :=
  (Moves.mapM fun id _ _ _ => adds_settle id).bind fun _ _ _ _ => adds_emitOperand rfl _

theorem adds_record (fields : List (String × ExprId)) :
    Moves Adds b (record fields) fun _ _ => True :=
  (Moves.mapM fun f _ _ _ => adds_settle f.2).bind fun _ _ _ _ => adds_emitOperand rfl _

theorem adds_binary (kind : BinaryKind) (left right : ExprId) :
    Moves Adds b (binary kind left right) fun _ _ => True := by
  apply (adds_primitiveOf left).bind
  intro leftType b _ _
  apply (adds_primitiveOf right).bind
  intro rightType b _ _
  dsimp only
  split
  · exact Moves.throw
  · cases kind.select leftType with
    | none => exact Moves.throw
    | some op => exact adds_emit rfl _

theorem adds_unary (kind : UnaryKind) (operand : ExprId) :
    Moves Adds b (unary kind operand) fun _ _ => True := by
  apply (adds_primitiveOf operand).bind
  intro type b _ _
  cases kind.select type with
  | none => exact Moves.throw
  | some op => exact adds_emit rfl _

theorem adds_choose (declared : Shape) (cond : ExprId) (thenItems elseItems : List ExprId) :
    Moves Adds b (choose declared cond thenItems elseItems) fun _ _ => True := by
  have shaped : Moves Adds b (chooseShape declared thenItems) fun _ _ => True := by
    unfold chooseShape
    split
    · cases thenItems.getLast? with
      | none => exact Moves.pure trivial
      | some last => exact adds_settle last
    · exact Moves.pure trivial
  exact shaped.bind fun shape _ _ _ => adds_emitOperand rfl shape

theorem adds_store (type : NumType) (addr value : ExprId) (offset : Nat) :
    Moves Adds b (store type addr value offset) fun _ _ => True := by
  apply (adds_primitiveOf value).bind
  intro actual b _ _
  dsimp only
  split
  · exact Moves.throw
  · exact adds_emit rfl .none

namespace Step

theorem adds_handOut {step : BodyM ExprId} (adds : Moves Adds b step fun _ _ => True) :
    Moves Adds b (handOut step) fun _ _ => True :=
  adds.bind fun _ _ _ _ => Moves.pure trivial

theorem adds_handOperand {step : BodyM Operand} (adds : Moves Adds b step fun _ _ => True) :
    Moves Adds b (some <$> step) fun _ _ => True := by
  rw [← bind_pure_comp]
  exact adds.bind fun _ _ _ _ => Moves.pure trivial

/-- Every step but a raw one adds calls of declared functions only. -/
theorem adds_run {step : Step} (notRaw : step.isRaw = false)
    (known : ∀ o ∈ step.operands, o.id < b.arena.size) :
    Moves Adds b step.run fun _ _ => True := by
  have plain {ids : List ExprId} (all : ∀ o ∈ ids.map Operand.plain, o.id < b.arena.size) :
      ∀ id ∈ ids, id < b.arena.size := fun id mem => all _ (List.mem_map_of_mem mem)
  cases step with
  | read name => exact adds_handOperand (adds_read name)
  | write name value => exact adds_handOut (adds_write name value)
  | assign pairs => exact adds_handOut (adds_assign pairs)
  | field operand key => exact adds_handOperand (adds_field operand key)
  | giveResult values =>
    exact (adds_giveResult (plain known)).bind fun _ _ _ _ => Moves.pure trivial
  | exec values => exact (adds_exec (plain known)).bind fun _ _ _ _ => Moves.pure trivial
  | block values => exact adds_handOperand (adds_block values)
  | call callable args => exact adds_handOperand (adds_call callable args)
  | literal value type => exact adds_handOut (adds_emit rfl _)
  | tuple values => exact adds_handOperand (adds_tuple values)
  | record fields => exact adds_handOperand (adds_record fields)
  | binary kind left right => exact adds_handOut (adds_binary kind left right)
  | unary kind operand => exact adds_handOut (adds_unary kind operand)
  | choose declared cond thenItems elseItems =>
    exact adds_handOperand (adds_choose declared cond thenItems elseItems)
  | loop init cond step body => exact adds_handOut (adds_emit rfl _)
  | raw node shape => cases notRaw
  | load type addr offset => exact adds_handOut (adds_emit rfl _)
  | store type addr value offset => exact adds_handOut (adds_store type addr value offset)
  | memorySize => exact adds_handOut (adds_emit rfl _)
  | memoryGrow delta => exact adds_handOut (adds_emit rfl _)

end Step

end Body

end WasmBuilder
