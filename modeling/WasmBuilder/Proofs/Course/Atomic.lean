import WasmBuilder.Proofs.Startup.Body

/-!
What a step that fails leaves of a body.

Steps ask all their questions before they change anything, so a failed question leaves the body as it
was. The only step that changes a body more than once is a row of writes: it stops at the first write
that fails, and keeps what the writes before have done.
-/

set_option autoImplicit false

namespace WasmBuilder.Body

variable {α β : Type}

def Looks (m : BodyM α) : Prop := ∀ b, (∃ x, m b = .ok x b) ∨ ∃ e, m b = .error e b

def Succeeds (m : BodyM α) : Prop := ∀ b, ∃ x c, m b = .ok x c

def Atomic (m : BodyM α) : Prop := ∀ b e c, m b = .error e c → c = b

theorem bind_of_ok {m : BodyM α} {f : α → BodyM β} {x : α} {b c : Body} (run : m b = .ok x c) :
    (m >>= f) b = f x c := by
  simp only [bind, EStateM.bind, run]

theorem bind_of_error {m : BodyM α} {f : α → BodyM β} {e : BuildError} {b c : Body}
    (run : m b = .error e c) : (m >>= f) b = .error e c := by
  simp only [bind, EStateM.bind, run]

namespace Looks

theorem ask (question : Body → Except BuildError α) : Looks (ask question) := by
  intro b
  rw [ask_run]
  cases question b with
  | ok x => exact .inl ⟨x, rfl⟩
  | error e => exact .inr ⟨e, rfl⟩

theorem pure (x : α) : Looks (Pure.pure x) := fun _ => .inl ⟨x, rfl⟩

theorem throw (e : BuildError) : Looks (MonadExcept.throw e : BodyM α) := fun _ => .inr ⟨e, rfl⟩

theorem bind {m : BodyM α} {f : α → BodyM β} (first : Looks m) (second : ∀ x, Looks (f x)) :
    Looks (m >>= f) := by
  intro b
  rcases first b with ⟨x, run⟩ | ⟨e, run⟩
  · rw [bind_of_ok run]
    exact second x b
  · exact .inr ⟨e, bind_of_error run⟩

theorem mapM {f : α → BodyM β} (each : ∀ x, Looks (f x)) (xs : List α) : Looks (xs.mapM f) := by
  induction xs with
  | nil => exact pure []
  | cons x rest ih =>
    rw [List.mapM_cons]
    exact (each x).bind fun _ => ih.bind fun _ => pure _

theorem atomic {m : BodyM α} (looks : Looks m) : Atomic m := by
  intro b e c failed
  rcases looks b with ⟨x, run⟩ | ⟨e', run⟩
  · cases failed.symm.trans run
  · cases failed.symm.trans run
    rfl

end Looks

namespace Succeeds

theorem pure (x : α) : Succeeds (Pure.pure x) := fun b => ⟨x, b, rfl⟩

theorem modify (f : Body → Body) : Succeeds (MonadState.modifyGet fun b => (PUnit.unit, f b)) :=
  fun b => ⟨⟨⟩, f b, rfl⟩

theorem emit (node : Node) (shape : Shape) : Succeeds (emit node shape) := fun _ => ⟨_, _, rfl⟩

theorem bind {m : BodyM α} {f : α → BodyM β} (first : Succeeds m) (second : ∀ x, Succeeds (f x)) :
    Succeeds (m >>= f) := by
  intro b
  obtain ⟨x, c, run⟩ := first b
  rw [bind_of_ok run]
  exact second x c

theorem emitOperand (node : Node) (shape : Shape) : Succeeds (emitOperand node shape) :=
  (emit node shape).bind fun _ => pure _

theorem atomic {m : BodyM α} (succeeds : Succeeds m) : Atomic m := by
  intro b e c failed
  obtain ⟨x, d, run⟩ := succeeds b
  cases failed.symm.trans run

end Succeeds

namespace Atomic

theorem of_looks_bind {m : BodyM α} {f : α → BodyM β} (first : Looks m)
    (second : ∀ x, Atomic (f x)) : Atomic (m >>= f) := by
  intro b e c failed
  rcases first b with ⟨x, run⟩ | ⟨e', run⟩
  · rw [bind_of_ok run] at failed
    exact second x b e c failed
  · cases failed.symm.trans (bind_of_error run)
    rfl

theorem bind_succeeds {m : BodyM α} {f : α → BodyM β} (first : Atomic m)
    (second : ∀ x, Succeeds (f x)) : Atomic (m >>= f) := by
  intro b e c failed
  cases run : m b with
  | error e' d =>
    cases failed.symm.trans (bind_of_error run)
    exact first b e c run
  | ok x d =>
    rw [bind_of_ok run] at failed
    obtain ⟨y, d', run'⟩ := second x d
    cases failed.symm.trans run'

theorem get_bind {f : Body → BodyM α} (each : ∀ b, Atomic (f b)) : Atomic (get >>= f) :=
  of_looks_bind (fun b => .inl ⟨b, rfl⟩) each

theorem read (name : String) : Atomic (read name) := by
  intro b e c failed
  have ⟨_, same, _⟩ := read_eq_error_iff.1 failed
  exact same

theorem write (name : String) (value : ExprId) : Atomic (write name value) :=
  fun _ _ _ failed => write_error failed

theorem field (operand : Operand) (key : FieldKey) : Atomic (field operand key) :=
  of_looks_bind (.ask _) fun _ => ((Succeeds.modify _).bind fun _ => .pure _).atomic

theorem giveResult (values : List ExprId) : Atomic (giveResult values) := by
  intro b e c failed
  rcases giveResult_cases values b with ⟨e', run⟩ | ⟨_, _, _, _, _, _, run⟩
  · cases failed.symm.trans run
    rfl
  · cases failed.symm.trans run

theorem exec (values : List ExprId) : Atomic (exec values) := by
  unfold Body.exec
  split
  · exact (Looks.throw _).atomic
  · exact (Succeeds.modify _).atomic

theorem block (values : List ExprId) : Atomic (block values) := by
  unfold Body.block
  cases values.getLast? with
  | none => exact (Looks.throw _).atomic
  | some last => exact of_looks_bind (.ask _) fun _ => (Succeeds.emitOperand _ _).atomic

theorem reach (c : Callable) (args : List ExprId) : Succeeds (match c.kind with
    | .indirect slot => do
      let index ← i32 slot
      emitOperand (.callIndirect index args c.signature) c.result
    | .direct | .external => emitOperand (.call c.func args c.signature) c.result) := by
  cases c.kind with
  | direct | external => exact .emitOperand _ _
  | indirect slot => exact (Succeeds.emit _ _).bind fun _ => .emitOperand _ _

theorem call (callable : Nat) (args : List ExprId) : Atomic (call callable args) := by
  refine get_bind fun b => ?_
  cases b.callables[callable]? with
  | none => exact (Looks.throw _).atomic
  | some c =>
    dsimp only
    split
    · exact of_looks_bind (.throw _) fun _ => (reach c args).atomic
    · exact (reach c args).atomic

theorem tuple (values : List ExprId) : Atomic (tuple values) :=
  of_looks_bind (.mapM (fun _ => .ask _) _) fun _ => (Succeeds.emitOperand _ _).atomic

theorem record (fields : List (String × ExprId)) : Atomic (record fields) :=
  of_looks_bind (.mapM (fun _ => .ask _) _) fun _ => (Succeeds.emitOperand _ _).atomic

theorem binary (kind : BinaryKind) (left right : ExprId) : Atomic (binary kind left right) := by
  refine of_looks_bind (.ask _) fun leftType => of_looks_bind (.ask _) fun rightType => ?_
  dsimp only
  split
  · exact (Looks.throw _).atomic
  · cases kind.select leftType with
    | none => exact (Looks.throw _).atomic
    | some op => exact (Succeeds.emit _ _).atomic

theorem unary (kind : UnaryKind) (operand : ExprId) : Atomic (unary kind operand) := by
  refine of_looks_bind (.ask _) fun type => ?_
  cases kind.select type with
  | none => exact (Looks.throw _).atomic
  | some op => exact (Succeeds.emit _ _).atomic

theorem choose (declared : Shape) (cond : ExprId) (thenItems elseItems : List ExprId) :
    Atomic (choose declared cond thenItems elseItems) := by
  have shaped : Looks (chooseShape declared thenItems) := by
    unfold chooseShape
    split
    · cases thenItems.getLast? with
      | none => exact .pure _
      | some last => exact .ask _
    · exact .pure _
  exact of_looks_bind shaped fun _ => (Succeeds.emitOperand _ _).atomic

theorem store (type : NumType) (addr value : ExprId) (offset : Nat) :
    Atomic (store type addr value offset) := by
  refine of_looks_bind (.ask _) fun actual => ?_
  dsimp only
  split
  · exact (Looks.throw _).atomic
  · exact (Succeeds.emit _ _).atomic

theorem handOut {m : BodyM ExprId} (atomic : Atomic m) : Atomic (Step.handOut m) :=
  atomic.bind_succeeds fun _ => .pure _

theorem handOperand {m : BodyM Operand} (atomic : Atomic m) : Atomic (some <$> m) := by
  rw [← bind_pure_comp]
  exact atomic.bind_succeeds fun _ => .pure _

/-- Every step but a row of writes. -/
theorem run {step : Step} (single : ∀ pairs, step ≠ .assign pairs) : Atomic step.run := by
  cases step with
  | read name => exact (read name).handOperand
  | write name value => exact (write name value).handOut
  | assign pairs => exact absurd rfl (single pairs)
  | field operand key => exact (field operand key).handOperand
  | giveResult values => exact (giveResult values).bind_succeeds fun _ => .pure _
  | exec values => exact (exec values).bind_succeeds fun _ => .pure _
  | block values => exact (block values).handOperand
  | call callable args => exact (call callable args).handOperand
  | literal value type => exact (Succeeds.emit _ _).atomic.handOut
  | tuple values => exact (tuple values).handOperand
  | record fields => exact (record fields).handOperand
  | binary kind left right => exact (binary kind left right).handOut
  | unary kind operand => exact (unary kind operand).handOut
  | choose declared cond thenItems elseItems =>
    exact (choose declared cond thenItems elseItems).handOperand
  | loop init cond step body => exact (Succeeds.emit _ _).atomic.handOut
  | raw node shape => exact (Succeeds.emitOperand _ _).atomic.handOperand
  | load type addr offset => exact (Succeeds.emit _ _).atomic.handOut
  | store type addr value offset => exact (store type addr value offset).handOut
  | memorySize => exact (Succeeds.emit _ _).atomic.handOut
  | memoryGrow delta => exact (Succeeds.emit _ _).atomic.handOut

end Atomic

theorem exists_of_mapM_error {f : α → BodyM β} {xs : List α} {b c : Body} {e : BuildError}
    (failed : xs.mapM f b = .error e c) : ∃ before x behind ys d,
      xs = before ++ x :: behind ∧ before.mapM f b = .ok ys d ∧ f x d = .error e c := by
  induction xs generalizing b with
  | nil => cases failed
  | cons x rest ih =>
    rw [List.mapM_cons] at failed
    cases first : f x b with
    | error e' d =>
      cases failed.symm.trans (bind_of_error first)
      exact ⟨[], x, rest, [], b, rfl, rfl, first⟩
    | ok y d =>
      rw [bind_of_ok first] at failed
      cases others : rest.mapM f d with
      | ok ys t => cases failed.symm.trans (bind_of_ok others)
      | error e' t =>
        cases failed.symm.trans (bind_of_error others)
        obtain ⟨before, z, behind, ys, u, rfl, run, last⟩ := ih others
        refine ⟨x :: before, z, behind, y :: ys, u, rfl, ?_, last⟩
        rw [List.mapM_cons, bind_of_ok first, bind_of_ok run]
        rfl

theorem Binds.result_eq {b d : Body} {name : String} {value : ExprId} {storage : Storage}
    {index : Nat} {shape : Shape} (binds : b.Binds name value storage index shape d) :
    d.result = b.result := by
  cases binds with
  | typed => rfl
  | first means => cases means <;> rfl
  | new => cases fresh : b.fresh <;> simp [setScope]

/-- The nodes of these handles were added, each of them a write of a variable, and no statement and
no result. -/
structure Wrote (b c : Body) (writes : List ExprId) : Prop where
  handles : writes = List.range' b.arena.size writes.length
  size : c.arena.size = b.arena.size + writes.length
  continues : b.arena.Continues c.arena
  made : ∀ id ∈ writes, ∃ storage index shape value,
    c.arena.node id = .ok (writeNode storage index shape value)
  statements : c.statements = b.statements
  result : c.result = b.result

theorem Wrote.nil (b : Body) : Wrote b b [] :=
  ⟨rfl, rfl, .refl _, fun _ mem => absurd mem List.not_mem_nil, rfl, rfl⟩

theorem Wrote.cons {b c d : Body} {name : String} {value id : ExprId} {writes : List ExprId}
    (first : write name value b = .ok id c) (others : Wrote c d writes) :
    Wrote b d (id :: writes) := by
  obtain ⟨storage, index, shape, t, binds, rfl, rfl⟩ := write_eq_ok_iff.1 first
  have size := others.size
  have handles := others.handles
  simp only [Arena.size_push, binds.arena_eq] at size handles
  have here := Arena.node_push_size t.arena (writeNode storage index shape value) (some .none)
  constructor
  · rw [List.length_cons, List.range'_succ, ← handles, binds.arena_eq]
  · rw [List.length_cons, size]
    omega
  · intro other node there
    refine others.continues other node (Arena.continues_push _ _ _ other node ?_)
    rw [binds.arena_eq, there]
  · intro other mem
    rcases List.mem_cons.1 mem with rfl | mem
    · exact ⟨storage, index, shape, value, others.continues _ _ here⟩
    · exact others.made other mem
  · exact others.statements.trans binds.statements_eq
  · exact others.result.trans binds.result_eq

theorem wrote_of_mapM {pairs : List (String × ExprId)} {b c : Body} {writes : List ExprId}
    (done : pairs.mapM (fun p => write p.1 p.2) b = .ok writes c) :
    Wrote b c writes ∧ writes.length = pairs.length := by
  induction pairs generalizing b writes with
  | nil =>
    cases done
    exact ⟨.nil _, rfl⟩
  | cons p rest ih =>
    rw [List.mapM_cons] at done
    obtain ⟨id, d, first, done⟩ := exists_of_bind_eq_ok done
    obtain ⟨others, t, run, done⟩ := exists_of_bind_eq_ok done
    cases done
    obtain ⟨wrote, length⟩ := ih run
    exact ⟨.cons first wrote, congrArg (· + 1) length⟩

/-- A step that fails leaves the body as it was. A row of writes that fails leaves what the writes
in front of the one that failed have done, each of them the node of its write, and adds neither a
block around them nor a statement. -/
theorem steps_fail_atomically {step : Step} {b c : Body} {e : BuildError}
    (failed : step.run b = .error e c) :
    ((∀ pairs, step ≠ .assign pairs) → c = b) ∧
    ∀ pairs, step = .assign pairs → ∃ before name value behind writes,
      pairs = before ++ (name, value) :: behind ∧
      before.mapM (fun p => write p.1 p.2) b = .ok writes c ∧ write name value c = .error e c ∧
      writes.length = before.length ∧ Wrote b c writes := by
  refine ⟨fun single => Atomic.run single b e c failed, ?_⟩
  rintro pairs rfl
  cases written : pairs.mapM (fun p => write p.1 p.2) b with
  | ok writes d =>
    have done : assign pairs b = _ := bind_of_ok written
    cases failed.symm.trans (bind_of_ok done)
  | error e' d =>
    have stopped : assign pairs b = _ := bind_of_error written
    cases failed.symm.trans (bind_of_error stopped)
    obtain ⟨before, ⟨name, value⟩, behind, writes, t, rfl, run, last⟩ := exists_of_mapM_error written
    obtain ⟨wrote, length⟩ := wrote_of_mapM run
    cases write_error last
    exact ⟨before, name, value, behind, writes, rfl, run, last, length, wrote⟩

def oneNumber : Body where
  arena := ⟨#[⟨.const (.i32 0), some .i32⟩]⟩
  globals := {}
  callables := #[]
  locals := ⟨#[⟨"n", .i64, .param⟩]⟩
  fresh := .local
  result := .auto

/-- The number does not go into the parameter, and the second of two writes stores an expression that
is not there. -/
theorem steps_fail_atomically_of_oneNumber :
    (Step.write "n" 0).run oneNumber = .error (.assignmentMismatch "n" .i64 .i32) oneNumber ∧
    ∃ c writes,
      (Step.assign [("x", 0), ("y", 7)]).run oneNumber = .error (.unknownExpression 7) c ∧
      oneNumber.Wrote c writes ∧ writes = [1] ∧ c.arena.node 1 = .ok (.localSet 1 .i32 0) ∧
      c.locals.size = 2 := by
  obtain ⟨c, mismatch⟩ : ∃ c, (Step.write "n" 0).run oneNumber =
      .error (.assignmentMismatch "n" .i64 .i32) c := ⟨_, rfl⟩
  have same := (steps_fail_atomically mismatch).1 nofun
  let after : Body := { oneNumber with
    arena := oneNumber.arena.push (.localSet 1 .i32 0) (some .none)
    locals := oneNumber.locals.declare "x" .i32 .local }
  have failed : (Step.assign [("x", 0), ("y", 7)]).run oneNumber =
      .error (.unknownExpression 7) after := rfl
  obtain ⟨before, name, value, behind, writes, split, run, last, length, wrote⟩ :=
    (steps_fail_atomically failed).2 _ rfl
  have one : writes.length = 1 := by
    have grown : after.arena.size = oneNumber.arena.size + writes.length := wrote.size
    have old : oneNumber.arena.size = 1 := rfl
    have new : after.arena.size = 2 := rfl
    omega
  have handles := wrote.handles
  rw [one] at handles
  exact ⟨same ▸ mismatch, after, writes, failed, wrote, handles, rfl, rfl⟩

end WasmBuilder.Body
