import WasmBuilder.Proofs.Labels.Body
import WasmBuilder.Proofs.Labels.Simplify

/-!
Labels are true throughout a session.

Whatever is declared, given up, simplified or compiled, in whatever order, every expression has a
label that tells what it leaves on the stack, as long as no step adds a node with a label of its
own making and the operands of steps are ones that were handed out.
-/

set_option autoImplicit false

namespace WasmBuilder

open Arena (Extends)

namespace Build

variable {b : Build} {α : Type} {Q : α → Build → Prop}

theorem keeps_guarded {step : BuildM α} (keeps : Keeps b step Q) :
    Keeps b (guarded step) Q := by
  unfold Keeps guarded at *
  cases run : step b with
  | ok x c =>
    rw [run] at keeps
    exact keeps
  | error e c =>
    rw [run] at keeps
    exact keeps

theorem extends_left {step : BuildM α} (keeps : Keeps b step Q) :
    Extends b.arena (left step b).arena := by
  unfold left
  cases run : step b with
  | ok x c => exact (keeps.of_ok run).1
  | error e c => exact keeps.of_error run

variable (labelled : b.arena.Labelled)

include labelled

theorem keeps_freshId (id : Option String) (stem : String) :
    Keeps b (freshId id stem) fun _ _ => True := by
  refine Keeps.get_bind ?_
  split
  · split
    · exact Keeps.throw labelled
    · exact Keeps.pure labelled trivial
  · exact Keeps.pure labelled trivial

theorem keeps_external (decl : ExternalDecl) (host : Signature → HostFunction) :
    Keeps b (external decl host) fun _ _ => True := by
  have added (c : Build) (labelled : c.arena.Labelled) (f : Function) (d : Callable) :
      Keeps c (addFunction f d false) fun _ _ => True := ⟨labelled.extends_self, trivial⟩
  refine keeps_guarded ?_
  refine (keeps_freshId labelled _ _).bind fun id c grown _ => Keeps.get_bind ?_
  have registered : Keeps c (modify fun b => { b with
      imports := b.imports.insert decl.key (.func (host decl.signature)) }) fun _ _ => True :=
    Keeps.modify grown.labelled.extends_self trivial
  exact registered.bind fun _ d more _ => added d more.labelled _ _

theorem keeps_exportAs (name : String) (callable : Nat) :
    Keeps b (exportAs name callable) fun _ _ => True := by
  refine Keeps.get_bind ?_
  split
  · dsimp only
    split <;> exact ⟨labelled.extends_self, trivial⟩
  · exact Keeps.pure labelled trivial

theorem keeps_useMemory (decl : MemoryDecl) : Keeps b (useMemory decl) fun _ _ => True :=
  Keeps.modify labelled.extends_self trivial

theorem keeps_adopt (key : String) (library : Library) :
    Keeps b (adopt key library) fun _ _ => True := by
  have exported : Keeps b (library.entries.forM fun e => do let _ ← exportAs e.1 e.2)
      fun _ _ => True := Keeps.forM labelled fun e _ c grown =>
    (keeps_exportAs grown.labelled e.1 e.2).bind fun _ d more _ => Keeps.pure more.labelled trivial
  exact exported.bind fun _ c grown _ => Keeps.modify grown.labelled.extends_self trivial

theorem keeps_importMemory (memory : Option MemoryDecl) :
    Keeps b (importMemory memory) fun _ _ => True := by
  cases memory with
  | none => exact Keeps.pure labelled trivial
  | some decl =>
    refine Keeps.get_bind ?_
    split
    · exact keeps_useMemory labelled decl
    · exact Keeps.pure labelled trivial

theorem keeps_lowered (options : CompileOptions) : Keeps b (lowered options) fun _ _ => True := by
  refine Keeps.get_bind ?_
  split
  · exact Keeps.throw labelled
  · split
    · exact Keeps.throw labelled
    · exact Keeps.pure labelled trivial

theorem keeps_assemble (options : CompileOptions) :
    Keeps b (assemble options) fun _ _ => True := by
  have usable : Keeps b requireUsable fun _ _ => True := by
    refine Keeps.get_bind ?_
    split
    · exact Keeps.throw labelled
    · exact Keeps.pure labelled trivial
  refine usable.bind fun _ c grown _ => ?_
  refine (keeps_importMemory grown.labelled options.memory).bind fun _ d grown _ => ?_
  have simplified : Keeps d (simplifyIf options.optimize) fun _ _ => True := by
    unfold simplifyIf
    split
    · refine (keeps_simplify grown.labelled).bind fun _ e more _ => ?_
      exact Keeps.pure more.labelled trivial
    · exact Keeps.pure grown.labelled trivial
  refine simplified.bind fun _ e grown _ => ?_
  exact keeps_lowered grown.labelled options

end Build

namespace Build

variable {b : Build}

theorem keeps_chooseKind (labelled : b.arena.Labelled) (isIndirect : Bool) (id : String)
    (params : Bindings) (result : Shape) :
    Keeps b (chooseKind isIndirect id params result) fun _ _ => True := by
  refine Keeps.get_bind ?_
  split
  · split
    · exact ⟨labelled.extends_self, trivial⟩
    · exact Keeps.throw labelled
  · exact Keeps.pure labelled trivial

/-- Closing or giving up a body first takes over its expressions, and adds none. -/
theorem extends_close (opening : Opening) {body : Body} (labelled : body.arena.Labelled) :
    Extends body.arena (left (opening.close body) b).arena := by
  cases opening with
  | globals => exact labelled.extends_self
  | function draft =>
    obtain ⟨isIndirect, id, decl⟩ := draft
    -- the build with the expressions of the body, to which the function is added
    let c : Build := { b with arena := body.arena, globals := body.globals }
    let add : BuildM Nat := do
      let kind ← chooseKind isIndirect id decl.params body.finalResult
      addFunction
        { id, params := decl.params.map (·.2), result := body.finalResult,
          kind := .defined body.locals body.statements }
        { id, func := c.functions.size, kind, params := decl.params, result := body.finalResult }
        decl.isExported
    have added : Keeps c add fun _ _ => True :=
      (keeps_chooseKind (b := c) labelled _ _ _ _).bind fun _ _ grown _ =>
        ⟨grown.labelled.extends_self, trivial⟩
    have closed : Keeps c (do let _ ← guarded add) fun _ _ => True :=
      (keeps_guarded added).bind fun _ _ grown _ => Keeps.pure grown.labelled trivial
    exact extends_left closed

theorem extends_abandon {body : Body} (labelled : body.arena.Labelled) (e : BuildError) :
    Extends body.arena (left (abandon body e : BuildM Unit) b).arena :=
  labelled.extends_self

theorem keeps_openFunction (labelled : b.arena.Labelled) (isIndirect : Bool)
    (decl : FunctionDecl) :
    Keeps b (openFunction isIndirect decl) fun p c => p.2.arena = c.arena := by
  refine keeps_guarded ?_
  refine (keeps_freshId labelled _ _).bind fun id c grown _ => ?_
  exact Keeps.get_bind (Keeps.pure grown.labelled rfl)

theorem keeps_literal (labelled : b.arena.Labelled) (value : Number) (shape : Shape) :
    Keeps b (literal value shape) fun id c => c.arena.Knows (.plain id) := by
  cases shape with
  | num t =>
    have leaves : Arena.nodeSlots b.arena.labelSlots b.arena.size (.const (.ofNumber value t)) =
        .ok (Shape.num t).flatten := by
      simp [Arena.nodeSlots, pure, Except.pure]
    refine ⟨labelled.push (by simp [Node.children]) leaves, ?_⟩
    exact Arena.knows_plain (Arena.labelSlots_push_size b.arena _ (.num t))
  | none | auto | tuple | record => exact Keeps.throw labelled

theorem keeps_chore (labelled : b.arena.Labelled) (chore : Chore) :
    Keeps b chore.run fun _ _ => True := by
  cases chore with
  | external decl host =>
    exact (keeps_external labelled decl host).bind fun _ _ grown _ => Keeps.pure grown.labelled trivial
  | exportAs name callable =>
    exact (keeps_exportAs labelled name callable).bind fun _ _ grown _ =>
      Keeps.pure grown.labelled trivial
  | useMemory decl => exact keeps_useMemory labelled decl
  | adopt key library => exact keeps_adopt labelled key library
  | fail => exact Keeps.modify labelled.extends_self trivial
  | simplify =>
    exact (keeps_simplify labelled).bind fun _ _ grown _ => Keeps.pure grown.labelled trivial
  | assemble options =>
    exact (keeps_assemble labelled options).bind fun _ _ grown _ =>
      Keeps.pure grown.labelled trivial

end Build

namespace Session

/-- A step that adds no node with a label of its own making, and takes operands that were handed
out. -/
def Lawful (s : Session) (step : Body.Step) : Prop :=
  step.isRaw = false ∧ ∀ o ∈ step.operands, s.HandedOut o

structure Sound (s : Session) : Prop where
  labelled : s.arena.Labelled
  known : ∀ o ∈ s.handed, s.arena.Knows o

variable {s t : Session}

theorem lawful_of_nil {step : Body.Step} (notRaw : step.isRaw = false) (none : step.operands = []) :
    s.Lawful step := by
  refine ⟨notRaw, fun o mem => ?_⟩
  rw [none] at mem
  cases mem

theorem lawful_of_head {step : Body.Step} {o : Operand} (notRaw : step.isRaw = false)
    (one : step.operands = [o]) (given : s.handed.head? = some o) : s.Lawful step := by
  refine ⟨notRaw, fun p mem => .inl ?_⟩
  rw [one, List.mem_singleton] at mem
  rw [mem]
  exact List.mem_of_mem_head? given

theorem Sound.knows_of_handedOut (sound : s.Sound) {o : Operand} (out : s.HandedOut o) :
    s.arena.Knows o := by
  rcases out with given | ⟨p, given, rfl⟩
  · exact sound.known o given
  · obtain ⟨ts, told, _⟩ := sound.known p given
    exact Arena.knows_plain told

theorem Sound.of_extends (sound : s.Sound) (grown : Extends s.arena t.arena)
    (same : t.handed = s.handed) : t.Sound :=
  ⟨grown.labelled, fun o mem => grown.knows (sound.known o (same ▸ mem))⟩

theorem arena_of_idle (idle : s.body = none) : s.arena = s.build.arena := by
  rw [arena, idle]

theorem arena_rebuilt (idle : s.body = none) (b : Build) :
    Session.arena { s with build := b } = b.arena :=
  arena_of_idle (s := { s with build := b }) idle

theorem arena_of_busy {opening : Opening} {body : Body} (busy : s.body = some (opening, body)) :
    s.arena = body.arena := by
  rw [arena, busy]

/-- Every step keeps a session sound. -/
theorem Sound.next (sound : s.Sound) (step : Next Lawful s t) : t.Sound := by
  have labelled := sound.labelled
  cases step with
  | @openFunction isIndirect decl draft body b idle opened =>
    rw [arena_of_idle idle] at labelled
    obtain ⟨grown, same⟩ := (Build.keeps_openFunction labelled isIndirect decl).of_ok opened
    refine sound.of_extends ?_ rfl
    rw [arena_of_idle idle]
    show Extends s.build.arena body.arena
    rw [show body.arena = b.arena from same]
    exact grown
  | @refuse isIndirect decl e b idle refused =>
    rw [arena_of_idle idle] at labelled
    have grown := (Build.keeps_openFunction labelled isIndirect decl).of_error refused
    refine sound.of_extends ?_ rfl
    rw [arena_of_idle idle, arena_rebuilt idle]
    exact grown
  | openGlobals idle opened =>
    cases opened
    refine sound.of_extends ?_ rfl
    rw [arena_of_idle idle] at labelled ⊢
    exact labelled.extends_self
  -- what is handed out now is known by the step, all else by what extends
  | @take opening body next step handed busy may done =>
    have known : ∀ o ∈ step.operands, s.arena.Knows o :=
      fun o mem => sound.knows_of_handedOut (may.2 o mem)
    rw [arena_of_busy busy] at labelled known
    obtain ⟨grown, fresh⟩ := (Body.Step.keeps_run labelled may.1 known).of_ok done
    refine ⟨grown.labelled, fun o mem => ?_⟩
    rcases List.mem_append.1 mem with new | old
    · exact fresh o (Option.mem_toList.1 new)
    · have before := sound.known o old
      rw [arena_of_busy busy] at before
      exact grown.knows before
  -- a step that fails may have added expressions before
  | @stumble opening body next step e busy may failed =>
    have known : ∀ o ∈ step.operands, s.arena.Knows o :=
      fun o mem => sound.knows_of_handedOut (may.2 o mem)
    rw [arena_of_busy busy] at labelled known
    have grown := (Body.Step.keeps_run labelled may.1 known).of_error failed
    refine sound.of_extends ?_ rfl
    rw [arena_of_busy busy]
    exact grown
  | @close opening body busy =>
    rw [arena_of_busy busy] at labelled
    refine sound.of_extends ?_ rfl
    rw [arena_of_busy busy]
    exact Build.extends_close opening labelled
  | @abandon opening body e busy =>
    rw [arena_of_busy busy] at labelled
    refine sound.of_extends ?_ rfl
    rw [arena_of_busy busy]
    exact Build.extends_abandon labelled e
  | @literal value shape id b idle made =>
    rw [arena_of_idle idle] at labelled
    obtain ⟨grown, told⟩ := (Build.keeps_literal labelled value shape).of_ok made
    have same : Session.arena { s with build := b, handed := .plain id :: s.handed } = b.arena :=
      arena_of_idle (s := { s with build := b, handed := .plain id :: s.handed }) idle
    refine ⟨by rw [same]; exact grown.labelled, fun o mem => ?_⟩
    rw [same]
    rcases List.mem_cons.1 mem with rfl | old
    · exact told
    · have before := sound.known o old
      rw [arena_of_idle idle] at before
      exact grown.knows before
  | @chore idle chore =>
    rw [arena_of_idle idle] at labelled
    refine sound.of_extends ?_ rfl
    rw [arena_of_idle idle, arena_rebuilt idle]
    exact Build.extends_left (Build.keeps_chore labelled chore)

theorem sound_of_reached (reached : Reached Lawful s) : s.Sound := by
  refine reached.invariant ⟨Arena.labelled_empty, fun o mem => ?_⟩ fun _ _ sound step => sound.next step
  cases mem

/-- Labels never drift from what is lowered. At every moment of a session each expression has a
label, its slots are found, and they are those of the label; one that is labelled as open leaves
nothing. So what a variable would take from a value that was handed out occupies the slots of the
value. -/
theorem labels_tell_slots (reached : Reached Lawful s) :
    (∀ id < s.arena.size, ∃ shape,
      s.arena.label id = .ok shape ∧ s.arena.slots id = .ok shape.flatten) ∧
    (∀ id, s.arena.label id = .ok .auto → s.arena.slots id = .ok []) ∧
    ∀ o, s.HandedOut o → ∃ shape,
      s.arena.settle o.id = .ok shape ∧ s.arena.slots o.id = .ok shape.flatten := by
  have sound := sound_of_reached reached
  have slots (id : ExprId) (shape : Shape) (label : s.arena.label id = .ok shape) :
      s.arena.slots id = .ok shape.flatten := by
    have told := Arena.labelSlots_eq_ok_iff.2 ⟨shape, label, rfl⟩
    rw [sound.labelled.slots_eq (Arena.lt_size_of_labelSlots told), told]
  refine ⟨fun id old => ?_, fun id label => slots id .auto label, fun o out => ?_⟩
  · obtain ⟨shape, label⟩ := sound.labelled.label_of_lt old
    exact ⟨shape, label, slots id shape label⟩
  · obtain ⟨ts, told, _⟩ := sound.knows_of_handedOut out
    have old := Arena.lt_size_of_labelSlots told
    obtain ⟨shape, settled, same⟩ := sound.labelled.settle_spec old
    exact ⟨shape, settled, (sound.labelled.slots_eq old).trans same⟩

/-- A record, one of its fields, an addition that is refused, and an assignment that becomes the result
of its function, which labels it anew. -/
theorem labels_tell_slots_of_test : ∃ (r s : Session) (opening : Opening) (body next : Body),
    Reached Lawful r ∧ r.body = some (opening, body) ∧
    (Body.Step.binary .add 0 3).run body = .error (.operandMismatch "add" .i32 .i64) next ∧
    Next Lawful { r with body := some (opening, next) } s ∧
    s.arena.node 2 = .ok (.group [0, 1]) ∧ s.arena.node 3 = .ok (.extract 2 1 1 1) ∧
    r.arena.label 5 = .ok .auto ∧ s.arena.label 5 = .ok .none ∧ s.arena.size = 7 ∧
    s.handed = [.plain 5, .plain 3, .view 2 (.record [("x", .i32), ("y", .i64)]), .plain 1, .plain 0] ∧
    (∀ id < s.arena.size, ∃ shape,
      s.arena.label id = .ok shape ∧ s.arena.slots id = .ok shape.flatten) ∧
    (∀ id, s.arena.label id = .ok .auto → s.arena.slots id = .ok []) ∧
    ∀ o, s.HandedOut o → ∃ shape,
      s.arena.settle o.id = .ok shape ∧ s.arena.slots o.id = .ok shape.flatten := by
  let draft : Build.Draft := ⟨false, "f", { id := some "f" }⟩
  let record : Shape := .record [("x", .i32), ("y", .i64)]
  let numbers : Array Entry := #[⟨.const (.ofNumber (.int 1) .i32), some .i32⟩,
    ⟨.const (.ofNumber (.int 2) .i64), some .i64⟩]
  let parts : Array Entry := numbers ++ #[⟨.group [0, 1], some record⟩, ⟨.extract 2 1 1 1, some .i64⟩]
  let body (entries : Array Entry) (locals : Scope) : Body :=
    { Build.newBody {} locals .local .auto with arena := ⟨entries⟩ }
  let set (label : Shape) : Array Entry :=
    parts ++ #[⟨.localSet 0 .i32 0, some .none⟩, ⟨.block [4] .auto, some label⟩]
  let v : Scope := ⟨#[⟨"v", .i32, .local⟩]⟩
  have opened : Reached Lawful ⟨{}, some (.function draft, body #[] {}), []⟩ :=
    Reached.start.next
      (.openFunction rfl (Build.openFunction_of_free rfl (by simp [Build.isTaken, fresh])))
  have one := opened.take rfl (.literal (.int 1) .i32) (lawful_of_nil rfl rfl) rfl
  have two : Reached Lawful ⟨{}, some (.function draft, body numbers {}), [.plain 1, .plain 0]⟩ :=
    one.take rfl (.literal (.int 2) .i64) (lawful_of_nil rfl rfl) rfl
  have whole := two.take rfl (.record [("x", 0), ("y", 1)])
    ⟨rfl, by simp [Body.Step.operands, HandedOut]⟩ rfl
  have part : Reached Lawful ⟨{}, some (.function draft, body parts {}),
      [.plain 3, .view 2 record, .plain 1, .plain 0]⟩ :=
    whole.take rfl (.field (.view 2 record) (.name "y")) (lawful_of_head rfl rfl rfl) rfl
  have written : Reached Lawful ⟨{}, some (.function draft, body (set .auto) v),
      [.plain 5, .plain 3, .view 2 record, .plain 1, .plain 0]⟩ :=
    part.take rfl (.assign [("v", 0)]) ⟨rfl, by simp [Body.Step.operands, HandedOut]⟩ rfl
  have refused : (Body.Step.binary .add 0 3).run (body (set .auto) v) =
      .error (.operandMismatch "add" .i32 .i64) (body (set .auto) v) := rfl
  have stumbled : Reached Lawful ⟨{}, some (.function draft, body (set .auto) v),
      [.plain 5, .plain 3, .view 2 record, .plain 1, .plain 0]⟩ :=
    written.next (.stumble rfl ⟨rfl, by simp [Body.Step.operands, HandedOut, Operand.id]⟩ refused)
  have given : Next Lawful
      ⟨{}, some (.function draft, body (set .auto) v),
        [.plain 5, .plain 3, .view 2 record, .plain 1, .plain 0]⟩
      ⟨{}, some (.function draft,
          { body (set .none ++ #[⟨.ret (some 5), some .none⟩]) v with
            statements := [6], result := .none }),
        [.plain 5, .plain 3, .view 2 record, .plain 1, .plain 0]⟩ :=
    .take rfl ⟨rfl, by simp [Body.Step.operands, HandedOut]⟩
      (show (Body.Step.giveResult [5]).run (body (set .auto) v) = .ok none _ from rfl)
  exact ⟨_, _, _, _, _, written, rfl, refused, given, rfl, rfl, rfl, rfl, rfl, rfl,
    labels_tell_slots (stumbled.next given)⟩

end Session

end WasmBuilder
