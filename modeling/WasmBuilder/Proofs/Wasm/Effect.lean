import Mathlib.Data.List.Forall2
import WasmBuilder.Proofs.Wasm.OpStack

/-!
The stack effects of single instructions, of runs of them, and of blocks.
-/

set_option autoImplicit false

namespace WasmBuilder.Wasm.Effect

variable {c : Context} {body other : List Instr} {results : List ValType} {i : Nat}

theorem const (v : Value) : Effect c [.const v] [] [.num v.type] :=
  of_type (i := .const v) (fun _ => rfl) rfl

theorem binary (op : BinOp) :
    Effect c [.binary op] [.num op.operandType, .num op.operandType] [.num op.resultType] :=
  of_type (i := .binary op) (fun _ => rfl) rfl

theorem unary (op : UnOp) : Effect c [.unary op] [.num op.operandType] [.num op.resultType] :=
  of_type (i := .unary op) (fun _ => rfl) rfl

theorem localGet {t : ValType} (here : c.locals[i]? = some t) : Effect c [.localGet i] [] [t] := by
  refine of_type (f := ⟨[], [t]⟩) (fun _ => rfl) ?_
  show (do return ⟨[], [← c.locals[i]?]⟩ : Option FuncType) = _
  rw [here]
  rfl

theorem localSet {t : ValType} (here : c.locals[i]? = some t) : Effect c [.localSet i] [t] [] := by
  refine of_type (f := ⟨[t], []⟩) (fun _ => rfl) ?_
  show (do return ⟨[← c.locals[i]?], []⟩ : Option FuncType) = _
  rw [here]
  rfl

theorem globalGet {g : GlobalType} (here : c.globals[i]? = some g) :
    Effect c [.globalGet i] [] [g.type] := by
  refine of_type (f := ⟨[], [g.type]⟩) (fun _ => rfl) ?_
  show (do return ⟨[], [(← c.globals[i]?).type]⟩ : Option FuncType) = _
  rw [here]
  rfl

theorem globalSet {g : GlobalType} (here : c.globals[i]? = some g) (changes : g.isMutable = true) :
    Effect c [.globalSet i] [g.type] [] := by
  refine of_type (f := ⟨[g.type], []⟩) (fun _ => rfl) ?_
  show (do
    let g ← c.globals[i]?
    require g.isMutable
    return ⟨[g.type], []⟩ : Option FuncType) = _
  simp only [here, bind, Option.bind, changes]
  rfl

theorem call {f : FuncType} (here : c.funcs[i]? = some f) : Effect c [.call i] f.params f.results :=
  of_type (i := .call i) (fun _ => rfl) here

/-- A call through a table of functions takes the slot from above the arguments. -/
theorem callIndirect {f : FuncType} {t : TableType} (typed : c.types[i]? = some f)
    (table : c.tables[0]? = some t) (element : t.element = .func) (address : t.address = .w32) :
    Effect c [.callIndirect i 0] (f.params ++ [ValType.i32]) f.results := by
  have known : c.indirectType? i 0 = some (f, .i32) := by
    simp only [Context.indirectType?, table, bind, Option.bind, element, address, typed]
    rfl
  refine of_type (f := ⟨f.params ++ [ValType.i32], f.results⟩) (fun _ => rfl) ?_
  show ((c.indirectType? i 0).bind fun p => some (FuncType.mk (p.1.params ++ [p.2]) p.1.results)) = _
  rw [known]
  rfl

section
variable {t : MemoryType} (here : c.memories[0]? = some t) (address : t.address = .w32)

include here address

theorem memoryAddress? : c.memoryAddress? 0 = some .w32 := by
  rw [Context.memoryAddress?, here, Option.map_some, address]

/-- An access that is aligned as its type is, within the addresses of the memory. -/
theorem access? {type : NumType} {offset : Nat} (small : offset < 2 ^ 32) (f : ValType → FuncType) :
    (do
      require (type.alignLog2 ≤ type.alignLog2)
      return f (← c.accessAddress? ⟨type.alignLog2, offset, 0⟩)) = some (f .i32) := by
  have inside : decide (offset < 2 ^ AddressType.bits .w32) = true := decide_eq_true small
  have fits : decide (type.alignLog2 ≤ type.alignLog2) = true := decide_eq_true (Nat.le_refl _)
  simp only [Context.accessAddress?, memoryAddress? here address, bind, Option.bind, inside, fits]
  rfl

theorem load {type : NumType} {offset : Nat} (small : offset < 2 ^ 32) :
    Effect c [.load type ⟨type.alignLog2, offset, 0⟩] [.i32] [.num type] :=
  of_type (f := ⟨[.i32], [.num type]⟩) (fun _ => rfl)
    (access? here address small fun address => ⟨[address], [.num type]⟩)

theorem store {type : NumType} {offset : Nat} (small : offset < 2 ^ 32) :
    Effect c [.store type ⟨type.alignLog2, offset, 0⟩] [.i32, .num type] [] :=
  of_type (f := ⟨[.i32, .num type], []⟩) (fun _ => rfl)
    (access? here address small fun address => ⟨[address, .num type], []⟩)

theorem memorySize : Effect c [.memorySize 0] [] [.i32] := by
  refine of_type (f := ⟨[], [.i32]⟩) (fun _ => rfl) ?_
  show (do return ⟨[], [(← c.memoryAddress? 0).valType]⟩ : Option FuncType) = _
  rw [memoryAddress? here address]
  rfl

theorem memoryGrow : Effect c [.memoryGrow 0] [.i32] [.i32] := by
  refine of_type (f := ⟨[.i32], [.i32]⟩) (fun _ => rfl) ?_
  show (do
    let t := (← c.memoryAddress? 0).valType
    return ⟨[t], [t]⟩ : Option FuncType) = _
  rw [memoryAddress? here address]
  rfl

end

/-- Instructions that push one value each push a run of them. -/
theorem gets {get : Nat → Instr} {is : List Nat} {ts : List ValType}
    (each : List.Forall₂ (fun i t => Effect c [get i] [] [t]) is ts) :
    Effect c (is.map get) [] ts := by
  induction each with
  | nil => exact .nil []
  | cons first _ ih => exact first.beside ih

/-- Instructions that take one value each take a run of them, the last value first. -/
theorem sets {set : Nat → Instr} {is : List Nat} {ts : List ValType}
    (each : List.Forall₂ (fun i t => Effect c [set i] [t] []) is ts) :
    Effect c (is.reverse.map set) ts [] := by
  induction each with
  | nil => exact .nil []
  | @cons i t is ts first _ ih =>
    rw [List.reverse_cons, List.map_append]
    have others := ih.above [t]
    rw [List.append_nil] at others
    exact others.append first

/-- A return takes the results of the function, whatever would come behind it. -/
theorem ret (behind : List ValType) : Effect c [.ret] c.results behind := by
  refine of_jump fun t ⟨s, le⟩ => ?_
  obtain ⟨u, popped, _⟩ := le.popAll (OpStack.popAll_pushAll s c.results)
  show (do
    let _ ← t.popAll c.results
    return OpStack.afterJump) = _
  rw [popped]
  rfl

theorem br {l : Nat} (label : c.labels[l]? = some []) : Effect c [.br l] [] [] := by
  refine of_jump fun t _ => ?_
  show (do
    let _ ← t.popAll (← c.labels[l]?)
    return OpStack.afterJump) = _
  rw [label]
  rfl

theorem brIf {l : Nat} (label : c.labels[l]? = some []) : Effect c [.brIf l] [.i32] [] := by
  refine of_check fun s t le => ?_
  obtain ⟨u, popped, le'⟩ := le.pop (OpStack.pop_push s .i32)
  refine ⟨u, ?_, le'⟩
  show (do
    let ts ← c.labels[l]?
    let s ← t.pop .i32
    let s ← s.popAll ts
    return s.pushAll ts) = _
  simp [label, popped, OpStack.popAll, OpStack.popReversed, OpStack.pushAll]

theorem block {type : BlockType} (typed : c.blockType? type = some ⟨[], results⟩)
    (effect : Effect (c.withLabel results) body [] results) :
    Effect c [.block type body] [] results := by
  refine of_check fun s t le => ⟨t.pushAll results, ?_, le.pushAll results⟩
  obtain ⟨u, checked, left⟩ := effect.exists_checked
  show (do
    let f ← c.blockType? type
    let s ← t.popAll f.params
    let inner ← Instr.checkSeq body (c.withLabel f.results) ⟨(f.params.map some).reverse, false⟩
    require (inner.leaves f.results)
    return s.pushAll f.results) = _
  simp [typed, OpStack.popAll, OpStack.popReversed, checked, left, require]

theorem loop {type : BlockType} (typed : c.blockType? type = some ⟨[], results⟩)
    (effect : Effect (c.withLabel []) body [] results) :
    Effect c [.loop type body] [] results := by
  refine of_check fun s t le => ⟨t.pushAll results, ?_, le.pushAll results⟩
  obtain ⟨u, checked, left⟩ := effect.exists_checked
  show (do
    let f ← c.blockType? type
    let s ← t.popAll f.params
    let inner ← Instr.checkSeq body (c.withLabel f.params) ⟨(f.params.map some).reverse, false⟩
    require (inner.leaves f.results)
    return s.pushAll f.results) = _
  simp [typed, OpStack.popAll, OpStack.popReversed, checked, left, require]

theorem ifThen {type : BlockType} (typed : c.blockType? type = some ⟨[], []⟩)
    (effect : Effect (c.withLabel []) body [] []) : Effect c [.ifThen type body] [.i32] [] := by
  refine of_check fun s t le => ?_
  obtain ⟨u, popped, le'⟩ := le.pop (OpStack.pop_push s .i32)
  refine ⟨u, ?_, le'⟩
  obtain ⟨v, checked, left⟩ := effect.exists_checked
  show (do
    let f ← c.blockType? type
    let s ← t.pop .i32
    let s ← s.popAll f.params
    let inner ← Instr.checkSeq body (c.withLabel f.results) ⟨(f.params.map some).reverse, false⟩
    require (inner.leaves f.results && f.params == f.results)
    return s.pushAll f.results) = _
  simp [typed, popped, OpStack.popAll, OpStack.popReversed, checked, left, require, OpStack.pushAll]

theorem ifElse {type : BlockType} (typed : c.blockType? type = some ⟨[], results⟩)
    (yes : Effect (c.withLabel results) body [] results)
    (no : Effect (c.withLabel results) other [] results) :
    Effect c [.ifElse type body other] [.i32] results := by
  refine of_check fun s t le => ?_
  obtain ⟨u, popped, le'⟩ := le.pop (OpStack.pop_push s .i32)
  refine ⟨u.pushAll results, ?_, le'.pushAll results⟩
  obtain ⟨v, checked, left⟩ := yes.exists_checked
  obtain ⟨w, checked', left'⟩ := no.exists_checked
  show (do
    let f ← c.blockType? type
    let s ← t.pop .i32
    let s ← s.popAll f.params
    let first ← Instr.checkSeq body (c.withLabel f.results) ⟨(f.params.map some).reverse, false⟩
    require (first.leaves f.results)
    let second ← Instr.checkSeq other (c.withLabel f.results) ⟨(f.params.map some).reverse, false⟩
    require (second.leaves f.results)
    return s.pushAll f.results) = _
  simp [typed, popped, OpStack.popAll, OpStack.popReversed, checked, left, checked', left', require]

end WasmBuilder.Wasm.Effect
