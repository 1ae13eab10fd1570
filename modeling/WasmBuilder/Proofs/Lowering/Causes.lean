import WasmBuilder.Proofs.Course.Build

/-!
Why a build that is in order fails to compile.

What a body holds may be wrong in ways that show only when it is simplified and lowered. Whatever is
found then lies in the expressions, the memory or the finished module; that an earlier step failed is
never the cause.
-/

set_option autoImplicit false

namespace WasmBuilder

inductive BuildError.InContents : BuildError → Prop
  | unknownVariable (name : String) : InContents (.unknownVariable name)
  | unknownExpression (id : Nat) : InContents (.unknownExpression id)
  | endlessExpression (id : Nat) : InContents (.endlessExpression id)
  | unknownCallable (index : Nat) : InContents (.unknownCallable index)
  | memoryLimits (maximum initial : Nat) : InContents (.memoryLimits maximum initial)
  | invalidModule : InContents .invalidModule

def Blames {α : Type} (x : Except BuildError α) : Prop := ∀ e, x = .error e → e.InContents

namespace Blames

variable {α β : Type}

theorem pure (x : α) : Blames (Pure.pure x : Except BuildError α) := nofun

theorem ok (x : α) : Blames (.ok x) := nofun

theorem error {e : BuildError} (contents : e.InContents) : Blames (.error e : Except BuildError α) := by
  rintro _ ⟨⟩
  exact contents

theorem bind {x : Except BuildError α} {f : α → Except BuildError β} (first : Blames x)
    (second : ∀ y, Blames (f y)) : Blames (x >>= f) := by
  cases x with
  | error e => exact error (first e rfl)
  | ok y => exact second y

theorem map {x : Except BuildError α} (f : α → β) (blames : Blames x) : Blames (f <$> x) := by
  cases x with
  | error e => exact error (blames e rfl)
  | ok y => exact ok (f y)

theorem mapM {f : α → Except BuildError β} (each : ∀ x, Blames (f x)) (xs : List α) :
    Blames (xs.mapM f) := by
  induction xs with
  | nil => exact pure []
  | cons x xs ih =>
    rw [List.mapM_cons]
    exact (each x).bind fun _ => ih.bind fun _ => pure _

end Blames

namespace Arena

variable (a : Arena)

theorem blames_get (id : ExprId) : Blames (a.get id) := by
  unfold get
  split
  · exact .ok _
  · exact .error (.unknownExpression id)

theorem blames_node (id : ExprId) : Blames (a.node id) := (a.blames_get id).map _

theorem blames_replace (id : ExprId) (node : Node) : Blames (a.replace id node) :=
  (a.blames_get id).bind fun _ => .pure _

theorem blames_shapeSlots {slots : ExprId → Except BuildError (List NumType)}
    (each : ∀ id, Blames (slots id)) (last : Option ExprId) (shape : Shape) :
    Blames (shapeSlots last slots shape) := by
  unfold shapeSlots
  split
  · split
    · exact each _
    · exact .pure _
  · exact .pure _

theorem blames_concatSlots {slots : ExprId → Except BuildError (List NumType)}
    (each : ∀ id, Blames (slots id)) (ids : List ExprId) : Blames (concatSlots slots ids) := by
  induction ids with
  | nil => exact .pure _
  | cons id rest ih => exact (each id).bind fun _ => ih.bind fun _ => .pure _

theorem blames_nodeSlots {slots : ExprId → Except BuildError (List NumType)}
    (each : ∀ id, Blames (slots id)) (id : ExprId) (node : Node) :
    Blames (nodeSlots slots id node) := by
  cases node with
  | block | choose => exact blames_shapeSlots each _ _
  | group items => exact blames_concatSlots each items
  | extract composite _ offset width =>
    refine (each composite).bind fun all => ?_
    split
    · exact .pure _
    · exact .error (.unknownExpression id)
  | const | localGet | localSet | globalGet | globalSet | binary | unary | call | callIndirect | loop
  | ret | load | store | memorySize | memoryGrow | nop => exact .pure _

theorem blames_slots (id : ExprId) : Blames (a.slots id) := by
  have within (depth : Nat) (id : ExprId) : Blames (a.slotsWithin depth id) := by
    induction depth generalizing id with
    | zero => exact .error (.endlessExpression id)
    | succ depth ih => exact (a.blames_node id).bind fun node => blames_nodeSlots ih id node
  exact within _ id

theorem blames_groupedStatements? (id : ExprId) : Blames (a.groupedStatements? id) := by
  refine (a.blames_slots id).bind fun slots => (a.blames_node id).bind fun node => ?_
  split
  · split <;> exact .pure _
  · exact .pure _

theorem blames_expandAll {expand : ExprId → Except BuildError (List ExprId × Nat)}
    (each : ∀ id, Blames (expand id)) (ids : List ExprId) : Blames (expandAll expand ids) := by
  induction ids with
  | nil => exact .pure _
  | cons id rest ih => exact (each id).bind fun _ => ih.bind fun _ => .pure _

theorem blames_flattenBlocks (body : List ExprId) : Blames (a.flattenBlocks body) := by
  have within (depth : Nat) (id : ExprId) : Blames (a.expandWithin depth id) := by
    induction depth generalizing id with
    | zero => exact .error (.endlessExpression id)
    | succ depth ih =>
      refine (a.blames_groupedStatements? id).bind fun grouped => ?_
      split
      · exact (blames_expandAll ih _).bind fun _ => .pure _
      · exact .pure _
  exact blames_expandAll (within _) body

theorem blames_cut (ids : List ExprId) : Blames (a.cut ids) := by
  induction ids with
  | nil => exact .pure _
  | cons id rest ih =>
    refine (a.blames_node id).bind fun node => ?_
    split
    · exact .pure _
    · exact ih.bind fun _ => .pure _

end Arena

def StepBlames {σ α : Type} (m : EStateM BuildError σ α) : Prop :=
  ∀ s e t, m s = .error e t → e.InContents

namespace StepBlames

variable {σ α β : Type}

theorem pure (x : α) : StepBlames (Pure.pure x : EStateM BuildError σ α) := nofun

theorem throw {e : BuildError} (contents : e.InContents) :
    StepBlames (MonadExcept.throw e : EStateM BuildError σ α) := by
  rintro s _ _ ⟨⟩
  exact contents

theorem update (f : σ → σ) : StepBlames (modify f : EStateM BuildError σ PUnit) := nofun

theorem bind {m : EStateM BuildError σ α} {f : α → EStateM BuildError σ β} (first : StepBlames m)
    (second : ∀ x, StepBlames (f x)) : StepBlames (m >>= f) := by
  intro s e t failed
  cases run : m s with
  | error e' t' =>
    simp only [Bind.bind, EStateM.bind, run] at failed
    cases failed
    exact first s e t run
  | ok x s' =>
    simp only [Bind.bind, EStateM.bind, run] at failed
    exact second x s' e t failed

theorem get_bind {f : σ → EStateM BuildError σ α} (each : ∀ s, StepBlames (f s)) :
    StepBlames (get >>= f) := fun s => each s s

theorem forM {f : α → EStateM BuildError σ PUnit} (each : ∀ x, StepBlames (f x)) (xs : List α) :
    StepBlames (xs.forM f) := by
  induction xs with
  | nil => exact pure _
  | cons x xs ih => exact (each x).bind fun _ => ih

theorem foldlM {f : β → α → EStateM BuildError σ β} (each : ∀ y x, StepBlames (f y x)) (y : β)
    (xs : List α) : StepBlames (xs.foldlM f y) := by
  induction xs generalizing y with
  | nil => exact pure y
  | cons x xs ih =>
    rw [List.foldlM_cons]
    exact (each y x).bind ih

end StepBlames

namespace Unreachable

theorem blames_ask {α : Type} {question : Arena → Except BuildError α}
    (each : ∀ a, Blames (question a)) : StepBlames (ask question) := by
  refine StepBlames.get_bind fun s => ?_
  split
  · exact .pure _
  next e failed => exact .throw (each s.arena e failed)

theorem blames_cutList (id : ExprId) (list : List ExprId) : StepBlames (cutList id list) := by
  refine (blames_ask fun a => a.blames_cut list).bind fun kept => ?_
  dsimp only
  split
  · refine (blames_ask fun a => a.blames_node id).bind fun node => ?_
    refine (blames_ask fun a => a.blames_replace id _).bind fun arena => ?_
    exact (StepBlames.update _).bind fun _ => .pure _
  · exact .pure _

theorem blames_cutLists (id : ExprId) (lists : List (List ExprId)) :
    StepBlames (cutLists id lists) := by
  induction lists with
  | nil => exact .pure _
  | cons list rest ih =>
    exact (blames_cutList id list).bind fun _ => ih.bind fun _ => .pure _

theorem blames_visitAll (body : List ExprId) : StepBlames (visitAll body) := by
  have within (depth : Nat) (id : ExprId) : StepBlames (visitWithin depth id) := by
    induction depth generalizing id with
    | zero => exact .throw (.endlessExpression id)
    | succ depth ih =>
      refine (blames_ask fun a => a.blames_node id).bind fun node => ?_
      exact (blames_cutLists id _).bind fun nested => .forM ih _
  exact StepBlames.get_bind fun s => .forM (within _) _

end Unreachable

namespace Lower

open Wasm (Instr)

def CodeBlames {α : Type} (m : LowerM α) : Prop := ∀ s, Blames (m s)

namespace CodeBlames

variable {α β : Type}

theorem pure (x : α) : CodeBlames (Pure.pure x) := fun _ => .ok _

theorem throw {e : BuildError} (contents : e.InContents) :
    CodeBlames (MonadExcept.throw e : LowerM α) := fun _ => .error contents

theorem lift {e : Except BuildError α} (blames : Blames e) : CodeBlames (liftM e : LowerM α) := by
  intro s
  cases e with
  | error e => exact .error (blames e rfl)
  | ok x => exact .ok _

theorem bind {m : LowerM α} {f : α → LowerM β} (first : CodeBlames m)
    (second : ∀ x, CodeBlames (f x)) : CodeBlames (m >>= f) :=
  fun s => (first s).bind fun p => second p.1 p.2

theorem mapM {f : α → LowerM β} (each : ∀ x, CodeBlames (f x)) (xs : List α) :
    CodeBlames (xs.mapM f) := by
  induction xs with
  | nil => exact pure []
  | cons x xs ih =>
    rw [List.mapM_cons]
    exact (each x).bind fun _ => ih.bind fun _ => pure _

theorem forM {f : α → LowerM PUnit} (each : ∀ x, CodeBlames (f x)) (xs : List α) :
    CodeBlames (xs.forM f) := by
  induction xs with
  | nil => exact pure _
  | cons x xs ih => exact (each x).bind fun _ => ih

end CodeBlames

theorem blames_intern (signature : Signature) : CodeBlames (intern signature) := by
  intro s
  unfold intern
  split <;> exact .ok _

theorem blames_spill (ts : List NumType) : CodeBlames (spill ts) := by
  have taken (t : NumType) : CodeBlames (acquire t) := by
    intro s
    unfold acquire
    split <;> exact .ok _
  have released (i : Nat) : CodeBlames (release i) := fun s => .ok _
  exact (CodeBlames.mapM taken ts).bind fun is => (CodeBlames.forM released is).bind fun _ => .pure is

theorem blames_blockType (ts : List NumType) : CodeBlames (blockType ts) := by
  match ts with
  | [] | [_] => exact .pure _
  | _ :: _ :: _ => exact (blames_intern _).bind fun _ => .pure _

section
variable (l : Layout)

theorem blames_localBase (slot : Nat) : Blames (l.localBase slot) := by
  unfold Layout.localBase
  split
  · exact .ok _
  · exact .error (.unknownVariable _)

theorem blames_globalBase (global : Nat) : Blames (l.globalBase global) := by
  unfold Layout.globalBase
  split
  · exact .ok _
  · exact .error (.unknownVariable _)

theorem blames_funcIndex (func : Nat) : Blames (l.funcIndex func) := by
  unfold Layout.funcIndex
  split
  · exact .ok _
  · exact .error (.unknownCallable func)

variable {lower : ExprId → LowerM (List Instr)} (each : ∀ id, CodeBlames (lower id))

include each

theorem blames_operands (ids : List ExprId) : CodeBlames (Layout.operands lower ids) := by
  induction ids with
  | nil => exact .pure _
  | cons id rest ih => exact (each id).bind fun _ => ih.bind fun _ => .pure _

theorem blames_statement (id : ExprId) : CodeBlames (l.statement lower id) :=
  (each id).bind fun _ => (CodeBlames.lift (l.arena.blames_slots id)).bind fun _ => .pure _

theorem blames_statements (ids : List ExprId) : CodeBlames (l.statements lower ids) := by
  induction ids with
  | nil => exact .pure _
  | cons id rest ih => exact (blames_statement l each id).bind fun _ => ih.bind fun _ => .pure _

theorem blames_sequence (value : Bool) (ids : List ExprId) :
    CodeBlames (l.sequence lower value ids) := by
  induction ids with
  | nil => exact .pure _
  | cons id rest ih =>
    cases rest with
    | nil =>
      cases value with
      | true => exact each id
      | false => exact blames_statement l each id
    | cons => exact (blames_statement l each id).bind fun _ => ih.bind fun _ => .pure _

theorem blames_extract (composite : ExprId) (offset width : Nat) :
    CodeBlames (l.extract lower composite offset width) := by
  refine (CodeBlames.lift (l.arena.blames_node composite)).bind fun node => ?_
  split
  · exact (CodeBlames.lift (blames_localBase l _)).bind fun _ => .pure _
  · exact (CodeBlames.lift (blames_globalBase l _)).bind fun _ => .pure _
  · refine (CodeBlames.lift (l.arena.blames_slots composite)).bind fun all => ?_
    have spilled : CodeBlames (do
        let code ← lower composite
        let locals := (← spill all).map (l.scratchBase + ·)
        return code ++ locals.reverse.map .localSet ++
          ((locals.drop offset).take width).map .localGet) :=
      (each composite).bind fun _ => (blames_spill all).bind fun _ => .pure _
    dsimp only
    split
    · exact (CodeBlames.throw (.unknownExpression composite)).bind fun _ => spilled
    · exact spilled

theorem blames_node (id : ExprId) (node : Node) : CodeBlames (l.node lower id node) := by
  have slots : CodeBlames (liftM (l.arena.slots id) : LowerM _) := .lift (l.arena.blames_slots id)
  cases node with
  | const | memorySize | nop => exact .pure _
  | localGet slot => exact (CodeBlames.lift (blames_localBase l slot)).bind fun _ => .pure _
  | globalGet global => exact (CodeBlames.lift (blames_globalBase l global)).bind fun _ => .pure _
  | localSet slot _ value =>
    exact (CodeBlames.lift (blames_localBase l slot)).bind fun _ => (each value).bind fun _ => .pure _
  | globalSet global _ value =>
    exact (CodeBlames.lift (blames_globalBase l global)).bind fun _ =>
      (each value).bind fun _ => .pure _
  | binary _ left right => exact (each left).bind fun _ => (each right).bind fun _ => .pure _
  | unary _ operand => exact (each operand).bind fun _ => .pure _
  | call func args =>
    exact (blames_operands each args).bind fun _ =>
      (CodeBlames.lift (blames_funcIndex l func)).bind fun _ => .pure _
  | callIndirect index args signature =>
    exact (blames_operands each args).bind fun _ => (each index).bind fun _ =>
      (blames_intern signature).bind fun _ => .pure _
  | block items => exact slots.bind fun _ => blames_sequence l each _ items
  | group items => exact blames_operands each items
  | extract composite _ offset width => exact blames_extract l each composite offset width
  | choose cond thenItems elseItems shape =>
    refine slots.bind fun ts => (each cond).bind fun _ => (blames_blockType ts).bind fun _ => ?_
    refine (blames_sequence l each _ thenItems).bind fun _ => ?_
    split
    · exact (blames_sequence l each _ elseItems).bind fun _ => .pure _
    · exact .pure _
  | loop init cond step body =>
    refine (blames_statements l each init).bind fun _ => (each cond).bind fun _ => ?_
    exact (blames_statements l each body).bind fun _ =>
      (blames_statements l each step).bind fun _ => .pure _
  | ret value =>
    cases value with
    | none => exact .pure _
    | some value => exact (each value).bind fun _ => .pure _
  | load _ addr => exact (each addr).bind fun _ => .pure _
  | store _ addr value => exact (each addr).bind fun _ => (each value).bind fun _ => .pure _
  | memoryGrow delta => exact (each delta).bind fun _ => .pure _

end

theorem blames_function (l : Layout) (typeIndex paramWidth : Nat) (shapes : List Shape)
    (body : List ExprId) : CodeBlames (function l typeIndex paramWidth shapes body) := by
  have within (depth : Nat) (id : ExprId) :
      CodeBlames ((l.withVariables shapes).exprWithin depth id) := by
    induction depth generalizing id with
    | zero => exact .throw (.endlessExpression id)
    | succ depth ih =>
      exact (CodeBlames.lift (Arena.blames_node _ id)).bind fun node => blames_node _ ih id node
  have emptied : CodeBlames (modify fun s => { s with scratch := #[] } : LowerM PUnit) :=
    fun _ => .ok _
  have read : CodeBlames (get : LowerM LowerState) := fun _ => .ok _
  exact emptied.bind fun _ => (blames_statements _ (within _) body).bind fun _ =>
    read.bind fun _ => .pure _

theorem blames_functions (l : Layout) (fs : List Function) (startBody : List ExprId) :
    CodeBlames (functions l fs startBody) := by
  have declared (f : Function) : CodeBlames (declaration l f) := by
    refine (blames_intern f.signature).bind fun typeIndex => ?_
    split
    · exact .pure _
    · exact (blames_function l typeIndex _ _ _).bind fun _ => .pure _
  have start : CodeBlames (startFunction l startBody) := by
    unfold startFunction
    split
    · exact .pure _
    · exact (blames_intern _).bind fun typeIndex =>
        (blames_function l typeIndex 0 [] startBody).bind fun _ => .pure _
  exact (CodeBlames.mapM declared fs).bind fun _ => start.bind fun _ => .pure _

theorem blames_memoryImport (memory : Option MemoryDecl) : Blames (memoryImport memory) := by
  unfold memoryImport
  split
  · exact .pure _
  · split
    · exact .error (.memoryLimits _ _)
    · exact .pure _

end Lower

namespace Build

theorem blames_lower (b : Build) (tableExport : Option String) :
    Blames (b.lower tableExport) := by
  have called (func : Nat) : Blames ((Lower.moduleLayout b).funcIndex func) :=
    Lower.blames_funcIndex _ func
  refine (Lower.blames_functions _ _ _ {}).bind fun _ => ?_
  refine (Lower.blames_memoryImport b.memory).bind fun _ => ?_
  refine (Blames.mapM called _).bind fun _ => ?_
  have exported (e : String × Nat) : Blames (Lower.funcExport (Lower.moduleLayout b) e) :=
    (called e.2).bind fun _ => .pure _
  exact (Blames.mapM exported _).bind fun _ => .pure _

theorem blames_simplifyBody (ref : BodyRef) (counts : SimplifyCounts) :
    StepBlames (simplifyBody ref counts) := by
  refine StepBlames.get_bind fun b => ?_
  split
  next e failed => exact .throw (b.arena.blames_flattenBlocks _ e failed)
  next flat flattened _ =>
    refine (StepBlames.update _).bind fun _ => ?_
    split
    next e failed => exact .throw (b.arena.blames_cut flat e failed)
    next body cut _ =>
      refine (StepBlames.update _).bind fun _ => ?_
      split
      next e s failed =>
        have contents := Unreachable.blames_visitAll body _ e s failed
        exact (StepBlames.update _).bind fun _ => .throw contents
      next => exact (StepBlames.update _).bind fun _ => .pure _

theorem blames_simplify : StepBlames simplify := by
  refine StepBlames.get_bind fun b => (StepBlames.update _).bind fun _ => ?_
  exact StepBlames.get_bind fun b => .foldlM (fun counts ref => blames_simplifyBody ref counts) _ _

/-- A build that compiles not, though nothing failed before, fails for what is in it. -/
theorem blames_assemble {options : CompileOptions} {b c : Build} {e : BuildError}
    (usable : b.failed = false) (failed : assemble options b = .error e c) : e.InContents := by
  have simplified : StepBlames (simplifyIf options.optimize) := by
    unfold simplifyIf
    split
    · exact blames_simplify.bind fun _ => .pure _
    · exact .pure _
  have lowered : StepBlames (lowered options) := by
    refine StepBlames.get_bind fun b => ?_
    split
    next e failed => exact .throw (b.blames_lower _ e failed)
    · split
      · exact .throw .invalidModule
      · exact .pure _
  rw [assemble_run, usable] at failed
  exact simplified.bind (fun _ => lowered) _ e c failed

end Build

end WasmBuilder
