import WasmBuilder.Proofs.Course.Grounded
import WasmBuilder.Proofs.Lowering.Congruence
import WasmBuilder.Proofs.Simplify.Acyclic

/-!
Looks and lowering that need no bound.

Looks at expressions, and lowering, go down to a bound that is computed from the arena. Where operands
come before the expressions that use them, handles fall on the way down, so that the bound is never
met: any deeper look comes to the same, and a look is what its equation without a bound says. Nor does
it meet a handle that the arena lacks, since a look-up of such a handle would end it with a failure
that names the handle. So a build whose bodies are made of expressions that are there is lowered
without meeting any other handle.
-/

set_option autoImplicit false

namespace WasmBuilder

/-- No expression without an end, and no handle from `size` on. -/
def BuildError.Inside (size : Nat) : BuildError → Prop
  | .unknownExpression id => id < size
  | .endlessExpression _ => False
  | _ => True

/-- Two computations that come to the same, and fail for nothing outside of an arena of this size. -/
structure Coincide {α : Type} (size : Nat) (x y : Except BuildError α) : Prop where
  same : x = y
  inside : ∀ e, x = .error e → e.Inside size

namespace Coincide

variable {α β : Type} {size : Nat} {x y : Except BuildError α}

theorem ok (a : α) : Coincide size (.ok a) (.ok a) := ⟨rfl, nofun⟩

theorem pure (a : α) : Coincide size (Pure.pure a) (Pure.pure a) := ok a

theorem error {e : BuildError} (inside : e.Inside size) :
    Coincide size (.error e : Except BuildError α) (.error e) := by
  refine ⟨rfl, ?_⟩
  rintro _ ⟨⟩
  exact inside

theorem bind {f g : α → Except BuildError β} (first : Coincide size x y)
    (second : ∀ a, Coincide size (f a) (g a)) : Coincide size (x >>= f) (y >>= g) := by
  obtain ⟨rfl, inside⟩ := first
  cases x with
  | error e => exact error (inside e rfl)
  | ok a => exact second a

end Coincide

namespace Arena

section
variable {size : Nat} {f g : ExprId → Except BuildError (List NumType)}

theorem coincide_shapeSlots {items : List ExprId} (each : ∀ id ∈ items, Coincide size (f id) (g id))
    (shape : Shape) :
    Coincide size (shapeSlots items.getLast? f shape) (shapeSlots items.getLast? g shape) := by
  cases shape with
  | auto =>
    cases last : items.getLast? with
    | none => exact .pure _
    | some id => exact each id (List.mem_of_getLast? last)
  | none | num | tuple | record => exact .pure _

theorem coincide_concatSlots {ids : List ExprId} (each : ∀ id ∈ ids, Coincide size (f id) (g id)) :
    Coincide size (concatSlots f ids) (concatSlots g ids) := by
  induction ids with
  | nil => exact .pure _
  | cons id rest ih =>
    refine (each id List.mem_cons_self).bind fun _ => ?_
    exact (ih fun other mem => each other (List.mem_cons_of_mem id mem)).bind fun _ => .pure _

theorem coincide_nodeSlots {id : ExprId} (known : id < size) {node : Node}
    (each : ∀ child ∈ node.children, Coincide size (f child) (g child)) :
    Coincide size (nodeSlots f id node) (nodeSlots g id node) := by
  cases node with
  | block items shape => exact coincide_shapeSlots each shape
  | choose cond thenItems elseItems shape =>
    exact coincide_shapeSlots (fun id mem => each id (by simp [Node.children, mem])) shape
  | group items => exact coincide_concatSlots each
  | extract composite _ offset width =>
    refine (each composite List.mem_cons_self).bind fun all => ?_
    split
    · exact .pure _
    · exact .error known
  | const | localGet | localSet | globalGet | globalSet | binary | unary | call | callIndirect | loop
  | ret | load | store | memorySize | memoryGrow | nop => exact .pure _

end

variable {a : Arena} {id : ExprId}

theorem coincide_node (known : id < a.size) : Coincide a.size (a.node id) (a.node id) := by
  obtain ⟨node, here⟩ := exists_node_of_lt known
  rw [here]
  exact .ok node

variable (ordered : a.Ordered)

include ordered

/-- Two looks that are deep enough for the handle come to the same. -/
theorem coincide_slotsWithin (known : id < a.size) {depth deep : Nat} (enough : id < depth)
    (other : id < deep) : Coincide a.size (a.slotsWithin depth id) (a.slotsWithin deep id) := by
  -- the handles of operands fall with the depth
  induction depth generalizing id deep with
  | zero => exact absurd enough (Nat.not_lt_zero id)
  | succ depth ih =>
    obtain ⟨deep, rfl⟩ := Nat.exists_eq_succ_of_ne_zero (Nat.ne_zero_of_lt other)
    obtain ⟨node, here⟩ := exists_node_of_lt known
    simp only [slotsWithin, here]
    refine coincide_nodeSlots known fun child mem => ?_
    have below := ordered.child_lt here child mem
    exact ih (Nat.lt_trans below known) (Nat.lt_of_lt_of_le below (Nat.le_of_lt_succ enough))
      (Nat.lt_of_lt_of_le below (Nat.le_of_lt_succ other))

theorem coincide_slots (known : id < a.size) : Coincide a.size (a.slots id) (a.slots id) :=
  coincide_slotsWithin ordered known (Nat.lt_succ_of_lt known) (Nat.lt_succ_of_lt known)

/-- The slots of an expression by those of its operands, without a bound. -/
theorem slots_eq (known : id < a.size) :
    a.slots id = (do nodeSlots a.slots id (← a.node id)) := by
  obtain ⟨node, here⟩ := exists_node_of_lt known
  rw [slots, pathBound, slotsWithin, here]
  have coincide : Coincide a.size (nodeSlots (a.slotsWithin a.size) id node)
      (nodeSlots a.slots id node) := by
    refine coincide_nodeSlots known fun child mem => ?_
    have old := Nat.lt_trans (ordered.child_lt here child mem) known
    exact coincide_slotsWithin ordered old old (Nat.lt_succ_of_lt old)
  exact coincide.same

end Arena

namespace Lower

open Wasm (Instr)

variable {α β : Type} {size : Nat}

def CodeCoincide (size : Nat) (m m' : LowerM α) : Prop := ∀ s, Coincide size (m s) (m' s)

namespace CodeCoincide

theorem lift {x y : Except BuildError α} (coincide : Coincide size x y) :
    CodeCoincide size (liftM x) (liftM y) := by
  obtain ⟨rfl, inside⟩ := coincide
  intro s
  cases x with
  | error e => exact .error (inside e rfl)
  | ok a => exact .ok _

theorem throw {e : BuildError} (inside : e.Inside size) :
    CodeCoincide size (MonadExcept.throw e : LowerM α) (MonadExcept.throw e) := fun _ => .error inside

theorem bind {m m' : LowerM α} {f f' : α → LowerM β} (first : CodeCoincide size m m')
    (second : ∀ x, CodeCoincide size (f x) (f' x)) : CodeCoincide size (m >>= f) (m' >>= f') :=
  fun s => (first s).bind fun p => second p.1 p.2

theorem eq {m m' : LowerM α} (coincide : CodeCoincide size m m') : m = m' :=
  funext fun s => (coincide s).same

end CodeCoincide

theorem coincide_funcIndex (l : Layout) (func : Nat) :
    Coincide size (l.funcIndex func) (l.funcIndex func) := by
  unfold Layout.funcIndex
  split
  · exact .ok _
  · exact .error trivial

theorem coincide_localBase (l : Layout) (slot : Nat) :
    Coincide size (l.localBase slot) (l.localBase slot) := by
  unfold Layout.localBase
  split
  · exact .ok _
  · exact .error trivial

theorem coincide_globalBase (l : Layout) (global : Nat) :
    Coincide size (l.globalBase global) (l.globalBase global) := by
  unfold Layout.globalBase
  split
  · exact .ok _
  · exact .error trivial

section
variable {l : Layout} (ordered : l.arena.Ordered)

include ordered

theorem coincidence : Congruence l (· < l.arena.size) (CodeCoincide l.arena.size) where
  total all s := by
    obtain ⟨r, done⟩ := all s
    rw [done]
    exact .ok r
  bind := .bind
  localBase slot := .lift (coincide_localBase l slot)
  globalBase global := .lift (coincide_globalBase l global)
  funcIndex func := .lift (coincide_funcIndex l func)
  slots _ known := .lift (Arena.coincide_slots ordered known)
  node _ known := .lift (Arena.coincide_node known)
  narrow _ known := .throw known

variable {id : ExprId} (known : id < l.arena.size)

include known

/-- Two ways down that are long enough for the handle come to the same code. -/
theorem coincide_exprWithin {depth deep : Nat} (enough : id < depth) (other : id < deep) :
    CodeCoincide l.arena.size (l.exprWithin depth id) (l.exprWithin deep id) := by
  -- as for slots: both bounds stay above the handle on the way down
  induction depth generalizing id deep with
  | zero => exact absurd enough (Nat.not_lt_zero id)
  | succ depth ih =>
    obtain ⟨deep, rfl⟩ := Nat.exists_eq_succ_of_ne_zero (Nat.ne_zero_of_lt other)
    obtain ⟨node, here⟩ := Arena.exists_node_of_lt known
    have below := ordered.child_lt here
    simp only [Layout.exprWithin, here]
    refine (coincidence ordered).node_of_children known
      (fun child mem => Nat.lt_trans (below child mem) known) fun child mem => ?_
    exact ih (Nat.lt_trans (below child mem) known)
      (Nat.lt_of_lt_of_le (below child mem) (Nat.le_of_lt_succ enough))
      (Nat.lt_of_lt_of_le (below child mem) (Nat.le_of_lt_succ other))

theorem coincide_expr : CodeCoincide l.arena.size (l.expr id) (l.expr id) :=
  coincide_exprWithin ordered known (Nat.lt_succ_of_lt known) (Nat.lt_succ_of_lt known)

/-- The code of an expression by the code of its operands, without a bound. -/
theorem expr_eq : l.expr id = (do l.node l.expr id (← l.arena.node id)) := by
  obtain ⟨node, here⟩ := Arena.exists_node_of_lt known
  rw [Layout.expr, Arena.pathBound, Layout.exprWithin, here]
  have below := ordered.child_lt here
  have coincide : CodeCoincide l.arena.size (l.node (l.exprWithin l.arena.size) id node)
      (l.node l.expr id node) := by
    refine (coincidence ordered).node_of_children known
      (fun child mem => Nat.lt_trans (below child mem) known) fun child mem => ?_
    have old := Nat.lt_trans (below child mem) known
    exact coincide_exprWithin ordered old old (Nat.lt_succ_of_lt old)
  exact coincide.eq

omit known

theorem coincide_body {ids : List ExprId} (all : ∀ id ∈ ids, id < l.arena.size) :
    CodeCoincide l.arena.size (l.body ids) (l.body ids) :=
  (coincidence ordered).statements all fun id mem => coincide_expr ordered (all id mem)

theorem coincide_function (typeIndex paramWidth : Nat) (shapes : List Shape) {body : List ExprId}
    (all : ∀ id ∈ body, id < l.arena.size) : CodeCoincide l.arena.size
      (function l typeIndex paramWidth shapes body) (function l typeIndex paramWidth shapes body) := by
  have congruence := coincidence ordered
  refine congruence.bind (congruence.total fun s => ⟨_, rfl⟩) fun _ => ?_
  refine congruence.bind (coincide_body (l := l.withVariables shapes) ordered all) fun _ => ?_
  exact congruence.bind (congruence.total fun s => ⟨_, rfl⟩) fun _ => congruence.pure _

theorem coincide_functions {fs : List Function} {startBody : List ExprId}
    (bodies : ∀ f ∈ fs, ∀ scope body, f.kind = .defined scope body → ∀ id ∈ body, id < l.arena.size)
    (start : ∀ id ∈ startBody, id < l.arena.size) :
    CodeCoincide l.arena.size (functions l fs startBody) (functions l fs startBody) := by
  have congruence := coincidence ordered
  have declared (f : Function) (mem : f ∈ fs) :
      CodeCoincide l.arena.size (declaration l f) (declaration l f) := by
    refine congruence.bind (congruence.intern f.signature) fun typeIndex => ?_
    split
    · exact congruence.pure _
    next scope body kind =>
      exact congruence.bind (coincide_function ordered typeIndex _ _ (bodies f mem scope body kind))
        fun _ => congruence.pure _
  have last : CodeCoincide l.arena.size (startFunction l startBody) (startFunction l startBody) := by
    unfold startFunction
    split
    · exact congruence.pure _
    · exact congruence.bind (congruence.intern _) fun typeIndex =>
        congruence.bind (coincide_function ordered typeIndex 0 [] start) fun _ => congruence.pure _
  exact congruence.bind (congruence.mapM declared) fun _ =>
    congruence.bind last fun _ => congruence.pure _

end

theorem coincide_memoryImport (memory : Option MemoryDecl) :
    Coincide size (memoryImport memory) (memoryImport memory) := by
  unfold memoryImport
  split
  · exact .pure _
  · split
    · exact .error trivial
    · exact .pure _

end Lower

theorem Coincide.mapM {α β : Type} {size : Nat} {f : α → Except BuildError β}
    (each : ∀ x, Coincide size (f x) (f x)) (xs : List α) : Coincide size (xs.mapM f) (xs.mapM f) := by
  induction xs with
  | nil => exact pure []
  | cons x xs ih =>
    rw [List.mapM_cons]
    exact (each x).bind fun _ => ih.bind fun _ => pure _

namespace Build

variable {b : Build}

/-- A build whose bodies are there is lowered without meeting any other handle. -/
theorem Grounded.coincide_lower (grounded : b.Grounded) (tableExport : Option String) :
    Coincide b.arena.size (b.lower tableExport) (b.lower tableExport) := by
  have called (func : Nat) : Coincide b.arena.size ((Lower.moduleLayout b).funcIndex func)
      ((Lower.moduleLayout b).funcIndex func) := Lower.coincide_funcIndex _ func
  have bodies (f : Function) (mem : f ∈ b.functions.toList) (scope : Scope) (body : List ExprId)
      (kind : f.kind = .defined scope body) : ∀ id ∈ body, id < b.arena.size := by
    obtain ⟨i, inside, rfl⟩ := List.getElem_of_mem mem
    intro id mem
    refine grounded.roots (.function i) id ?_
    have here : b.functions[i]? = some b.functions.toList[i] := by
      rw [← Array.getElem?_toList, List.getElem?_eq_getElem inside]
    generalize b.functions.toList[i] = f at here kind
    obtain ⟨name, params, result, kind'⟩ := f
    cases kind
    simpa only [bodyOf, here] using mem
  refine (Lower.coincide_functions (l := Lower.moduleLayout b) grounded.ordered bodies
    (grounded.roots .start) {}).bind fun _ => ?_
  refine (Lower.coincide_memoryImport b.memory).bind fun _ => ?_
  refine (Coincide.mapM called _).bind fun _ => ?_
  have exported (e : String × Nat) : Coincide b.arena.size (Lower.funcExport (Lower.moduleLayout b) e)
      (Lower.funcExport (Lower.moduleLayout b) e) := (called e.2).bind fun _ => .pure _
  exact (Coincide.mapM exported _).bind fun _ => .pure _

end Build

end WasmBuilder
