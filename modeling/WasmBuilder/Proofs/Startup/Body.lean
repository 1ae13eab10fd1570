import WasmBuilder.Proofs.Course.Body
import WasmBuilder.Proofs.Startup.Contributions

/-!
What steps of a body contribute.

Only two steps add statements. All others add expressions that take for operands what they were given,
and hand out no return.
-/

set_option autoImplicit false

namespace WasmBuilder.Body

variable {b c : Body}

structure Tame (b c : Body) : Prop where
  continues : b.arena.Continues c.arena
  calm : b.arena.Calm → c.arena.Calm
  statements : c.statements = b.statements

namespace Tame

theorem refl (b : Body) : Tame b b := ⟨.refl _, id, rfl⟩

theorem trans {d : Body} (first : Tame b c) (second : Tame c d) : Tame b d where
  continues id node here := second.continues id node (first.continues id node here)
  calm := second.calm ∘ first.calm
  statements := second.statements.trans first.statements

instance : IsPreorder Body Tame where
  refl := refl
  trans _ _ _ := trans

theorem passes (tame : Tame b c) {id : ExprId} (passes : b.arena.Passes id) : c.arena.Passes id :=
  passes.folds tame.continues.folds

theorem push {node : Node} (passing : ∀ child ∈ node.children, b.arena.Passes child)
    (label : Option Shape) : Tame b { b with arena := b.arena.push node label } :=
  ⟨Arena.continues_push _ _ _, fun calm => calm.push passing label, rfl⟩

end Tame

theorem tame_ask {α : Type} (question : Body → Except BuildError α) :
    Moves Tame b (ask question) fun x t => t = b ∧ question b = .ok x := by
  apply Moves.get_bind
  cases question b with
  | ok x => exact Moves.pure ⟨rfl, rfl⟩
  | error e => exact Moves.throw

theorem tame_settle (id : ExprId) : Moves Tame b (settle id) fun _ c => c = b :=
  (tame_ask _).weaken fun _ _ _ same => same.1

theorem tame_primitiveOf (id : ExprId) : Moves Tame b (primitiveOf id) fun _ c => c = b :=
  (tame_ask _).weaken fun _ _ _ same => same.1

/-- What is handed out is no return. -/
def Gives (o : Operand) (c : Body) : Prop := c.arena.Passes o.id

section
variable (node : Node) (passing : ∀ child ∈ node.children, b.arena.Passes child)
  (goesOn : node.isReturn = false) (shape : Shape)

include passing goesOn

theorem tame_emit : Moves Tame b (emit node shape) fun id c => Gives (.plain id) c :=
  ⟨.push passing _, node, Arena.node_push_size _ _ _, goesOn⟩

theorem tame_emitOperand : Moves Tame b (emitOperand node shape) Gives := by
  apply (tame_emit node passing goesOn shape).bind
  intro id c _ passes
  apply Moves.pure
  rwa [Gives, Operand.id_ofShape]

end

theorem tame_read (name : String) : Moves Tame b (read name) Gives := by
  apply Moves.intro
  · intro o c done
    obtain ⟨storage, index, slot, -, -, rfl, rfl⟩ := read_eq_ok_iff.1 done
    have passing : ∀ child ∈ (readNode storage index slot.shape).children, b.arena.Passes child := by
      cases storage <;> exact fun _ mem => absurd mem List.not_mem_nil
    refine ⟨.push passing _, ?_⟩
    rw [Gives, Operand.id_ofShape]
    exact ⟨_, Arena.node_push_size _ _ _, by cases storage <;> rfl⟩
  · intro e c failed
    have ⟨_, same, _⟩ := read_eq_error_iff.1 failed
    exact same ▸ .refl b

theorem tame_write (name : String) {value : ExprId} (passes : b.arena.Passes value) :
    Moves Tame b (write name value) fun id c => Gives (.plain id) c := by
  apply Moves.intro
  · intro id c done
    obtain ⟨storage, index, shape, d, binds, rfl, rfl⟩ := write_eq_ok_iff.1 done
    have same : Tame b d := by
      refine ⟨?_, ?_, binds.statements_eq⟩ <;> rw [binds.arena_eq]
      · exact .refl _
      · exact id
    have passing : ∀ child ∈ (writeNode storage index shape value).children, d.arena.Passes child := by
      cases storage <;> simpa [writeNode, Node.children] using same.passes passes
    exact ⟨same.trans (.push passing _), _, Arena.node_push_size _ _ _, by cases storage <;> rfl⟩
  · exact fun e c failed => write_error failed ▸ .refl b

theorem tame_writes {pairs : List (String × ExprId)} (passing : ∀ p ∈ pairs, b.arena.Passes p.2) :
    Moves Tame b (pairs.mapM fun p => write p.1 p.2) fun ids c => ∀ id ∈ ids, c.arena.Passes id := by
  induction pairs generalizing b with
  | nil => exact Moves.pure fun _ mem => absurd mem List.not_mem_nil
  | cons p rest ih =>
    rw [List.mapM_cons]
    apply (tame_write p.1 (passing p List.mem_cons_self)).bind
    intro id c tame written
    have later (q : String × ExprId) (mem : q ∈ rest) : c.arena.Passes q.2 :=
      tame.passes (passing q (List.mem_cons_of_mem p mem))
    apply (ih later).bind
    intro ids d more others
    exact Moves.pure (List.forall_mem_cons.2 ⟨more.passes written, others⟩)

theorem tame_assign {pairs : List (String × ExprId)} (passing : ∀ p ∈ pairs, b.arena.Passes p.2) :
    Moves Tame b (assign pairs) fun id c => Gives (.plain id) c := by
  apply (tame_writes passing).bind
  intro ids c _ written
  exact tame_emit (.block ids .auto) written rfl .auto

theorem tame_field {operand : Operand} (passes : b.arena.Passes operand.id) (key : FieldKey) :
    Moves Tame b (field operand key) Gives := by
  apply (tame_ask _).bind
  rintro ⟨result, arena⟩ b _ ⟨rfl, done⟩
  obtain ⟨is, index, offset, width, label, rfl⟩ := Arena.field_eq_push done
  have passing : ∀ child ∈ (Node.extract operand.id index offset width).children,
      b.arena.Passes child := by
    intro child mem
    rwa [List.mem_singleton.1 mem]
  have pushed : Moves Tame b (modify fun c => { c with
      arena := b.arena.push (.extract operand.id index offset width) label })
      fun _ c => c.arena.Passes result.id := by
    refine Moves.modify (.push passing label) ?_
    rw [is]
    exact ⟨_, Arena.node_push_size _ _ _, rfl⟩
  exact pushed.bind fun _ _ _ passes => Moves.pure passes

theorem tame_block {values : List ExprId} (passing : ∀ id ∈ values, b.arena.Passes id) :
    Moves Tame b (block values) Gives := by
  unfold block
  cases values.getLast? with
  | none => exact Moves.throw
  | some last =>
    apply (tame_settle last).bind
    rintro shape b _ rfl
    exact tame_emitOperand (.block values shape) passing rfl shape

theorem tame_reach (c : Callable) {args : List ExprId} (passing : ∀ id ∈ args, b.arena.Passes id) :
    Moves Tame b (match c.kind with
      | .indirect slot => do
        let index ← i32 slot
        emitOperand (.callIndirect index args c.signature) c.result
      | .direct | .external => emitOperand (.call c.func args c.signature) c.result) Gives := by
  have direct : Moves Tame b (emitOperand (.call c.func args c.signature) c.result) Gives :=
    tame_emitOperand (.call c.func args c.signature) passing rfl _
  cases c.kind with
  | direct | external => exact direct
  | indirect slot =>
    have constant : Moves Tame b (i32 slot) fun id c => Gives (.plain id) c :=
      tame_emit (.const _) (fun _ mem => absurd mem List.not_mem_nil) rfl _
    apply constant.bind
    intro index d tame made
    apply tame_emitOperand
    · intro child mem
      rcases List.mem_append.1 mem with arg | slot
      · exact tame.passes (passing child arg)
      · rwa [List.mem_singleton.1 slot]
    · rfl

theorem tame_call (callable : Nat) {args : List ExprId} (passing : ∀ id ∈ args, b.arena.Passes id) :
    Moves Tame b (call callable args) Gives := by
  apply Moves.get_bind
  cases b.callables[callable]? with
  | none => exact Moves.throw
  | some c =>
    dsimp only
    split
    · exact Moves.throw
    · exact tame_reach c passing

theorem tame_settle_all {α : Type} (f : α → ExprId) (xs : List α) :
    Moves Tame b (xs.mapM fun x => settle (f x)) fun _ _ => True :=
  Moves.mapM fun x _ _ _ => (tame_settle (f x)).weaken fun _ _ _ _ => trivial

theorem tame_tuple {values : List ExprId} (passing : ∀ id ∈ values, b.arena.Passes id) :
    Moves Tame b (tuple values) Gives := by
  apply (tame_settle_all id values).bind
  intro shapes c tame _
  apply tame_emitOperand
  · exact fun id mem => tame.passes (passing id mem)
  · rfl

theorem tame_record {fields : List (String × ExprId)} (passing : ∀ f ∈ fields, b.arena.Passes f.2) :
    Moves Tame b (record fields) Gives := by
  apply (tame_settle_all (·.2) fields).bind
  intro shapes c tame _
  apply tame_emitOperand
  · intro id mem
    obtain ⟨f, field, rfl⟩ := List.mem_map.1 mem
    exact tame.passes (passing f field)
  · rfl

theorem tame_binary (kind : BinaryKind) {left right : ExprId} (first : b.arena.Passes left)
    (second : b.arena.Passes right) :
    Moves Tame b (binary kind left right) fun id c => Gives (.plain id) c := by
  apply (tame_primitiveOf left).bind
  rintro leftType b _ rfl
  apply (tame_primitiveOf right).bind
  rintro rightType b _ rfl
  dsimp only
  split
  · exact Moves.throw
  · cases kind.select leftType with
    | none => exact Moves.throw
    | some op =>
      apply tame_emit
      · simp [Node.children, first, second]
      · rfl

theorem tame_unary (kind : UnaryKind) {operand : ExprId} (passes : b.arena.Passes operand) :
    Moves Tame b (unary kind operand) fun id c => Gives (.plain id) c := by
  apply (tame_primitiveOf operand).bind
  rintro type b _ rfl
  cases kind.select type with
  | none => exact Moves.throw
  | some op =>
    apply tame_emit
    · simp [Node.children, passes]
    · rfl

theorem tame_choose (declared : Shape) {cond : ExprId} {thenItems elseItems : List ExprId}
    (passing : ∀ id ∈ cond :: thenItems ++ elseItems, b.arena.Passes id) :
    Moves Tame b (choose declared cond thenItems elseItems) Gives := by
  have shaped : Moves Tame b (chooseShape declared thenItems) fun _ c => c = b := by
    unfold chooseShape
    split
    · cases thenItems.getLast? with
      | none => exact Moves.pure rfl
      | some last => exact tame_settle last
    · exact Moves.pure rfl
  apply shaped.bind
  rintro shape b _ rfl
  exact tame_emitOperand (.choose cond thenItems elseItems shape) passing rfl shape

theorem tame_store (type : NumType) {addr value : ExprId} (offset : Nat)
    (first : b.arena.Passes addr) (second : b.arena.Passes value) :
    Moves Tame b (store type addr value offset) fun id c => Gives (.plain id) c := by
  apply (tame_primitiveOf value).bind
  rintro actual b _ rfl
  dsimp only
  split
  · exact Moves.throw
  · apply tame_emit
    · simp [Node.children, first, second]
    · rfl

namespace Step

def contributions : Step → List Contribution
  | exec values => values.map .statement
  | giveResult values =>
    values.dropLast.map .statement ++ (values.getLast?.map .result).toList
  | _ => []

theorem tame_handOut {step : BodyM ExprId}
    (tame : Moves Tame b step fun id c => Gives (.plain id) c) :
    Moves Tame b (handOut step) fun handed c => ∀ o ∈ handed, Gives o c := by
  apply tame.bind
  intro id c _ passes
  apply Moves.pure
  rintro o ⟨⟩
  exact passes

theorem tame_handOperand {step : BodyM Operand} (tame : Moves Tame b step Gives) :
    Moves Tame b (some <$> step) fun handed c => ∀ o ∈ handed, Gives o c := by
  rw [← bind_pure_comp]
  apply tame.bind
  intro o c _ passes
  apply Moves.pure
  rintro _ ⟨⟩
  exact passes

/-- A step that contributes nothing adds no statements, and uses and hands out no returns. -/
theorem tame_run {step : Step} (notRaw : step.isRaw = false) (silent : step.contributions = [])
    (passing : ∀ o ∈ step.operands, b.arena.Passes o.id) :
    Moves Tame b step.run fun handed c => ∀ o ∈ handed, Gives o c := by
  have plain {ids : List ExprId} (all : ∀ o ∈ ids.map Operand.plain, b.arena.Passes o.id) :
      ∀ id ∈ ids, b.arena.Passes id := fun id mem => all _ (List.mem_map_of_mem mem)
  have leaf {node : Node} (none : node.children = []) :
      ∀ child ∈ node.children, b.arena.Passes child := by
    rw [none]
    exact fun _ mem => absurd mem List.not_mem_nil
  cases step with
  | read name => exact tame_handOperand (tame_read name)
  | write name value => exact tame_handOut (tame_write name (passing _ List.mem_cons_self))
  | assign pairs =>
    exact tame_handOut (tame_assign fun p mem => passing _ (List.mem_map_of_mem mem))
  | field operand key => exact tame_handOperand (tame_field (passing _ List.mem_cons_self) key)
  | giveResult values =>
    -- without a value it fails
    have none : values = [] := by
      have nothing := (List.append_eq_nil_iff.1 silent).2
      simpa [List.getLast?_eq_none_iff] using nothing
    subst none
    exact Tame.refl b
  | exec values =>
    have none : values = [] := by simpa [contributions] using silent
    subst none
    exact Tame.refl b
  | block values => exact tame_handOperand (tame_block (plain passing))
  | call callable args => exact tame_handOperand (tame_call callable (plain passing))
  | literal value type => exact tame_handOut (tame_emit (.const _) (leaf rfl) rfl _)
  | tuple values => exact tame_handOperand (tame_tuple (plain passing))
  | record fields =>
    exact tame_handOperand (tame_record fun f mem => passing _ (List.mem_map_of_mem mem))
  | binary kind left right =>
    exact tame_handOut (tame_binary kind (passing (.plain left) (by simp [operands]))
      (passing (.plain right) (by simp [operands])))
  | unary kind operand => exact tame_handOut (tame_unary kind (passing _ List.mem_cons_self))
  | choose declared cond thenItems elseItems =>
    exact tame_handOperand (tame_choose declared (plain passing))
  | loop init cond step body =>
    exact tame_handOut (tame_emit (.loop init cond step body) (plain passing) rfl _)
  | raw node shape => cases notRaw
  | load type addr offset =>
    exact tame_handOut (tame_emit (.load type addr offset) (plain passing) rfl _)
  | store type addr value offset =>
    exact tame_handOut (tame_store type offset (passing (.plain addr) (by simp [operands]))
      (passing (.plain value) (by simp [operands])))
  | memorySize => exact tame_handOut (tame_emit .memorySize (leaf rfl) rfl _)
  | memoryGrow delta =>
    exact tame_handOut (tame_emit (.memoryGrow delta) (plain passing) rfl _)

end Step

theorem ask_run {α : Type} (question : Body → Except BuildError α) (b : Body) :
    ask question b = match question b with | .ok x => .ok x b | .error e => .error e b := by
  show (match question b with | .ok answer => pure answer | .error e => throw e : BodyM α) b = _
  cases question b <;> rfl

/-- A result fails without a trace, or ends the body with a return of the last value. -/
theorem giveResult_cases (values : List ExprId) (b : Body) :
    (∃ e, giveResult values b = .error e b) ∨
      ∃ last arena result, values.getLast? = some last ∧ b.arena.Continues arena ∧
        arena.size = b.arena.size ∧ giveResult values b = .ok ⟨⟩ { b with
          arena := arena.push (.ret (some last)) (some .none)
          result
          statements := b.statements ++ values.dropLast ++ [arena.size] } := by
  unfold giveResult
  cases values.getLast? with
  | none => exact .inl ⟨_, rfl⟩
  | some last =>
    simp only [settle, bind, EStateM.bind, ask_run]
    cases b.arena.settle last with
    | error e => exact .inl ⟨e, rfl⟩
    | ok actual =>
      have seen : (get : BodyM Body) b = .ok b b := rfl
      simp only [seen]
      by_cases first : b.result = .auto
      · -- the value is labelled anew, and keeps its node
        simp only [first, if_true, EStateM.bind, ask_run]
        cases relabelled : b.arena.relabel last actual with
        | error e => exact .inl ⟨e, rfl⟩
        | ok arena =>
          obtain ⟨continues, size⟩ := Arena.continues_relabel relabelled
          exact .inr ⟨last, arena, actual, rfl, continues, size, rfl⟩
      · simp only [first, if_false]
        cases fits : actual.lowersLike b.result with
        | false => exact .inl ⟨_, rfl⟩
        | true => exact .inr ⟨last, b.arena, b.result, rfl, .refl _, rfl, rfl⟩
structure Contributes (cs : List Contribution) (b c : Body) : Prop where
  continues : b.arena.Continues c.arena
  calm : b.arena.Calm → c.arena.Calm
  added : ∃ more, c.statements = b.statements ++ more ∧ c.arena.Stands cs more

theorem Tame.contributes (tame : Tame b c) : Contributes [] b c :=
  ⟨tame.continues, tame.calm, [], tame.statements.trans (List.append_nil _).symm, .nil⟩

theorem contributes_exec {values : List ExprId} (passing : ∀ id ∈ values, b.arena.Passes id)
    (done : exec values b = .ok ⟨⟩ c) : Contributes (values.map .statement) b c := by
  unfold exec at done
  split at done
  · cases done
  · cases done
    exact ⟨.refl _, id, values, rfl, .of_passing passing⟩

theorem contributes_giveResult {values : List ExprId} (passing : ∀ id ∈ values, b.arena.Passes id)
    (done : giveResult values b = .ok ⟨⟩ c) :
    Contributes (values.dropLast.map .statement ++ (values.getLast?.map .result).toList) b c := by
  rcases giveResult_cases values b with ⟨e, failed⟩ | ⟨last, arena, result, isLast, continues, size, run⟩
  · cases done.symm.trans failed
  cases done.symm.trans run
  have tame : Tame b { b with arena } :=
    ⟨continues, fun calm => calm.of_continues continues size, rfl⟩
  have pushed := arena.continues_push (.ret (some last)) (some .none)
  refine ⟨fun id node here => pushed id node (continues id node here), fun calm => ?_, ?_⟩
  · apply (tame.calm calm).push
    intro child mem
    rw [List.mem_singleton.1 mem]
    exact tame.passes (passing last (List.mem_of_getLast? isLast))
  · refine ⟨values.dropLast ++ [arena.size], List.append_assoc .., Arena.Stands.append ?_ ?_⟩
    · apply Arena.Stands.of_passing
      intro id mem
      exact (tame.passes (passing id ((List.dropLast_sublist _).subset mem))).folds pushed.folds
    · rw [isLast]
      exact .result (Arena.node_push_size ..) [] []

namespace Step

theorem nothing_cases (step : BodyM Unit) (b : Body) :
    (∃ d, step b = .ok ⟨⟩ d ∧ (do step; return none : BodyM (Option Operand)) b = .ok none d) ∨
      ∃ e d, step b = .error e d ∧ (do step; return none : BodyM (Option Operand)) b = .error e d := by
  cases run : step b with
  | ok u d => exact .inl ⟨d, rfl, by simp only [bind, EStateM.bind, run]; rfl⟩
  | error e d => exact .inr ⟨e, d, rfl, by simp only [bind, EStateM.bind, run]⟩

variable {step : Step} (notRaw : step.isRaw = false)
  (passing : ∀ o ∈ step.operands, b.arena.Passes o.id)

include notRaw passing

theorem contributes_of_ok {handed : Option Operand} (done : step.run b = .ok handed c) :
    Contributes step.contributions b c ∧ ∀ o ∈ handed, Gives o c := by
  have plain {ids : List ExprId} (all : ∀ o ∈ ids.map Operand.plain, b.arena.Passes o.id) :
      ∀ id ∈ ids, b.arena.Passes id := fun id mem => all _ (List.mem_map_of_mem mem)
  have tame (silent : step.contributions = []) :
      Contributes step.contributions b c ∧ ∀ o ∈ handed, Gives o c := by
    obtain ⟨tame, gives⟩ := (tame_run notRaw silent passing).of_ok done
    exact ⟨silent ▸ tame.contributes, gives⟩
  cases step with
  | exec values =>
    rcases nothing_cases (Body.exec values) b with ⟨d, run, is⟩ | ⟨e, d, _, is⟩
    · cases done.symm.trans is
      exact ⟨contributes_exec (plain passing) run, nofun⟩
    · cases done.symm.trans is
  | giveResult values =>
    rcases nothing_cases (Body.giveResult values) b with ⟨d, run, is⟩ | ⟨e, d, _, is⟩
    · cases done.symm.trans is
      exact ⟨contributes_giveResult (plain passing) run, nofun⟩
    · cases done.symm.trans is
  | _ => exact tame rfl

theorem tame_of_error {e : BuildError} (failed : step.run b = .error e c) : Tame b c := by
  cases step with
  | exec values =>
    rcases nothing_cases (Body.exec values) b with ⟨d, _, is⟩ | ⟨e, d, run, is⟩
    · cases failed.symm.trans is
    · cases failed.symm.trans is
      unfold Body.exec at run
      split at run <;> cases run
      exact .refl b
  | giveResult values =>
    rcases nothing_cases (Body.giveResult values) b with ⟨d, _, is⟩ | ⟨e, d, run, is⟩
    · cases failed.symm.trans is
    · cases failed.symm.trans is
      rcases giveResult_cases values b with ⟨e, same⟩ | ⟨_, _, _, _, _, _, other⟩
      · cases run.symm.trans same
        exact .refl b
      · cases run.symm.trans other
  | _ => exact (tame_run notRaw rfl passing).of_error failed

end Step

end WasmBuilder.Body
