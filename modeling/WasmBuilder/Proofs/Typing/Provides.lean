import WasmBuilder.Proofs.Expr.Slots
import WasmBuilder.Proofs.Lowering.Code
import WasmBuilder.Proofs.Lowering.Variables
import WasmBuilder.Scope
import WasmBuilder.Wasm.Typing

/-!
Well-typed expressions, and what their code finds in its surroundings.

Builder steps check little of what they are given, and nodes can be added without any check. An
expression is well typed when each operand leaves exactly what the node consumes, down to the leaves.
Lowered code finds each number of a variable at its place, the scratch locals behind all variables, and
the functions and types that it names.
-/

set_option autoImplicit false

namespace WasmBuilder

/-- What surrounds the expressions of a body, as far as it matters for their types. -/
structure Setting where
  arena : Arena
  locals : List Shape
  globals : List Shape
  signatures : List Signature
  results : List NumType
  /-- Whether expressions may refer to a memory, and call through a table. -/
  hasMemory : Bool
  hasTable : Bool

namespace Setting

def Leaves (v : Setting) (id : ExprId) (ts : List NumType) : Prop := v.arena.slots id = .ok ts

/-- A variable among these has the slots of a shape. -/
def Holds (shapes : List Shape) (index : Nat) (shape : Shape) : Prop :=
  ∃ s, shapes[index]? = some s ∧ s.flatten = shape.flatten

def EndsAs (v : Setting) (id : ExprId) (items : List ExprId) : Prop :=
  ∀ ts, v.Leaves id ts → ts ≠ [] → ∃ last, items.getLast? = some last ∧ v.Leaves last ts

/-- The operands of a node leave exactly what the node consumes. Offsets are words. -/
def Consistent (v : Setting) (id : ExprId) : Node → Prop
  | .const _ | .group _ | .nop => True
  | .localGet slot shape => Holds v.locals slot shape
  | .localSet slot shape value => Holds v.locals slot shape ∧ v.Leaves value shape.flatten
  | .globalGet global shape => Holds v.globals global shape
  | .globalSet global shape value => Holds v.globals global shape ∧ v.Leaves value shape.flatten
  | .binary op left right => v.Leaves left [op.operandType] ∧ v.Leaves right [op.operandType]
  | .unary op operand => v.Leaves operand [op.operandType]
  | .call func args signature =>
    v.signatures[func]? = some signature ∧ Arena.concatSlots v.arena.slots args = .ok signature.params
  | .callIndirect index args signature =>
    v.hasTable = true ∧ Arena.concatSlots v.arena.slots args = .ok signature.params ∧
      v.Leaves index [.i32]
  | .block items _ => v.EndsAs id items
  | .extract composite _ offset width => ∃ all, v.Leaves composite all ∧ offset + width ≤ all.length
  | .choose cond thenItems elseItems _ =>
    v.Leaves cond [.i32] ∧ v.EndsAs id thenItems ∧ v.EndsAs id elseItems
  | .loop _ cond _ _ => v.Leaves cond [.i32]
  | .ret none => v.results = []
  | .ret (some value) => v.Leaves value v.results
  | .load _ addr offset => v.hasMemory = true ∧ v.Leaves addr [.i32] ∧ offset < 2 ^ 32
  | .store type addr value offset =>
    v.hasMemory = true ∧ v.Leaves addr [.i32] ∧ v.Leaves value [type] ∧ offset < 2 ^ 32
  | .memorySize => v.hasMemory = true
  | .memoryGrow delta => v.hasMemory = true ∧ v.Leaves delta [.i32]

/-- An expression all of whose nodes are consistent. It is finite: no expression in it is its own
operand. -/
inductive WellTyped (v : Setting) : ExprId → Prop
  | mk {id : ExprId} {node : Node} {ts : List NumType} (here : v.arena.node id = .ok node)
      (leaves : v.Leaves id ts) (consistent : v.Consistent id node)
      (operands : ∀ child ∈ node.children, WellTyped v child) : WellTyped v id

theorem WellTyped.exists_slots {v : Setting} {id : ExprId} (typed : v.WellTyped id) :
    ∃ ts, v.arena.slots id = .ok ts := by
  cases typed with
  | mk here leaves => exact ⟨_, leaves⟩

/-- The slots of a block or of an arm are known before those of its items. -/
theorem EndsAs.last {v : Setting} {id : ExprId} {items rest : List ExprId} {last : ExprId} {ts : List NumType}
    (ends : v.EndsAs id items) (leaves : v.Leaves id ts) (some : ts ≠ [])
    (split : items = rest ++ [last]) : v.Leaves last ts := by
  obtain ⟨x, final, same⟩ := ends ts leaves some
  rw [split, List.getLast?_concat, Option.some.injEq] at final
  exact final ▸ same

/-- A function body whose statements are well typed, and that ends in a return of a value when the
function has results. -/
structure BodyTyped (v : Setting) (body : List ExprId) : Prop where
  statements : ∀ id ∈ body, v.WellTyped id
  returns : v.results ≠ [] →
    ∃ last value, body.getLast? = some last ∧ v.arena.node last = .ok (.ret (some value))

end Setting

end WasmBuilder

namespace WasmBuilder.Setting

open Lower (Layout Tables Lies bases indexBound)

/-- A layout places the variables of a setting in a row. Machine indices are words. -/
structure Laid (v : Setting) (l : Layout) : Prop where
  arena : l.arena = v.arena
  localBases : l.localBases = (bases v.locals).toArray
  globalBases : l.globalBases = (bases v.globals).toArray
  scratchBase : l.scratchBase = (v.locals.flatMap Shape.flatten).length
  localWords : (v.locals.flatMap Shape.flatten).length < indexBound
  globalWords : (v.globals.flatMap Shape.flatten).length < indexBound

namespace Laid

variable {v : Setting} {l : Layout} (laid : v.Laid l) {index base : Nat} {shape : Shape}

theorem lies_of_holds {shapes : List Shape} (found : (bases shapes)[index]? = some base)
    (holds : Holds shapes index shape) : Lies (shapes.flatMap Shape.flatten) base shape.flatten := by
  obtain ⟨s, here, same⟩ := holds
  exact same ▸ Lower.lies_of_bases found here

theorem exists_base {shapes : List Shape} (holds : Holds shapes index shape) :
    ∃ base, (bases shapes)[index]? = some base := by
  obtain ⟨s, here, _⟩ := holds
  have inside : index < (bases shapes).length := by
    rw [Lower.length_bases]
    exact (List.getElem?_eq_some_iff.1 here).1
  exact ⟨_, List.getElem?_eq_getElem inside⟩

include laid

theorem local_found (at_ : l.localBase index = .ok base) : (bases v.locals)[index]? = some base := by
  unfold Layout.localBase at at_
  rw [laid.localBases, List.getElem?_toArray] at at_
  split at at_
  next found => exact found.trans (congrArg some (Except.ok.inj at_))
  next => cases at_

theorem global_found (at_ : l.globalBase index = .ok base) :
    (bases v.globals)[index]? = some base := by
  unfold Layout.globalBase at at_
  rw [laid.globalBases, List.getElem?_toArray] at at_
  split at at_
  next found => exact found.trans (congrArg some (Except.ok.inj at_))
  next => cases at_

theorem local_lies (at_ : l.localBase index = .ok base) (holds : Holds v.locals index shape) :
    Lies (v.locals.flatMap Shape.flatten) base shape.flatten :=
  lies_of_holds (laid.local_found at_) holds

theorem global_lies (at_ : l.globalBase index = .ok base) (holds : Holds v.globals index shape) :
    Lies (v.globals.flatMap Shape.flatten) base shape.flatten :=
  lies_of_holds (laid.global_found at_) holds

theorem exists_localBase (holds : Holds v.locals index shape) :
    ∃ base, l.localBase index = .ok base := by
  obtain ⟨base, found⟩ := exists_base holds
  refine ⟨base, ?_⟩
  unfold Layout.localBase
  rw [laid.localBases, List.getElem?_toArray, found]

theorem exists_globalBase (holds : Holds v.globals index shape) :
    ∃ base, l.globalBase index = .ok base := by
  obtain ⟨base, found⟩ := exists_base holds
  refine ⟨base, ?_⟩
  unfold Layout.globalBase
  rw [laid.globalBases, List.getElem?_toArray, found]

end Laid

/-- A layout knows all functions of a setting, and a context offers everything that code laid out so
refers to. -/
structure Provided (v : Setting) (l : Layout) (K : Tables) (c : Wasm.Context) : Prop where
  locals : c.locals.toList = (v.locals.flatMap Shape.flatten ++ K.scratch).map .num
  globals : c.globals.toList = (v.globals.flatMap Shape.flatten).map fun t => ⟨.num t, true⟩
  types : ∀ (i : Nat) (s : Signature), K.types[i]? = some s → c.types[i]? = some s.funcType
  funcs : ∀ (k : Nat) (s : Signature), v.signatures[k]? = some s →
    ∃ i, l.funcIndices[k]? = some i ∧ c.funcs[i]? = some s.funcType
  memory : v.hasMemory = true → ∃ t, c.memories[0]? = some t ∧ t.address = .w32
  table : v.hasTable = true → ∃ t, c.tables[0]? = some t ∧ t.element = .func ∧ t.address = .w32
  results : c.results = v.results.map .num

namespace Provided

variable {v : Setting} {l : Layout} {K : Tables} {c : Wasm.Context} (provided : v.Provided l K c)

include provided

theorem withLabel (types : List Wasm.ValType) : v.Provided l K (c.withLabel types) :=
  { provided with }

variable {base : Nat} {ts : List NumType}

theorem locals_of_lies (lies : Lies (v.locals.flatMap Shape.flatten) base ts) :
    List.Forall₂ (fun i t => c.locals[i]? = some (.num t))
      ((List.range ts.length).map (base + ·)) ts := by
  refine lies.forall₂.imp fun i t here => ?_
  rw [← Array.getElem?_toList, provided.locals, List.getElem?_map,
    List.getElem?_append_left (List.getElem?_eq_some_iff.1 here).1, here, Option.map_some]

theorem globals_of_lies (lies : Lies (v.globals.flatMap Shape.flatten) base ts) :
    List.Forall₂ (fun i t => c.globals[i]? = some ⟨.num t, true⟩)
      ((List.range ts.length).map (base + ·)) ts := by
  refine lies.forall₂.imp fun i t here => ?_
  rw [← Array.getElem?_toList, provided.globals, List.getElem?_map, here, Option.map_some]

theorem locals_of_scratch (scratchBase : l.scratchBase = (v.locals.flatMap Shape.flatten).length)
    {spilled : List Nat} (each : List.Forall₂ (fun i t => K.scratch[i]? = some t) spilled ts) :
    List.Forall₂ (fun i t => c.locals[i]? = some (.num t))
      (spilled.map (l.scratchBase + ·)) ts := by
  refine List.forall₂_map_left_iff.2 (each.imp fun i t here => ?_)
  rw [← Array.getElem?_toList, provided.locals, List.getElem?_map, scratchBase,
    List.getElem?_append_right (Nat.le_add_right _ _), Nat.add_sub_cancel_left, here,
    Option.map_some]

theorem blockType {type : Wasm.BlockType} (leaves : Lower.BlockCode K ts type) :
    c.blockType? type = some ⟨[], ts.map .num⟩ := by
  cases leaves with
  | empty => rfl
  | value t => rfl
  | index _ listed => exact provided.types _ _ listed

end Provided

end WasmBuilder.Setting
