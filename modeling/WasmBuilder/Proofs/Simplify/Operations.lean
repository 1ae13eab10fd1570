import WasmBuilder.Proofs.Labels.Arena
import WasmBuilder.Proofs.Lowering.Fields

/-!
Operations on constants, carried out early or executed.

An operation that is carried out while a program is built would have come to the same when executed.
So what may trap is left for then: division and remainder of integers, and truncation of floats.
-/

set_option autoImplicit false

namespace WasmBuilder

open Wasm (Env Instr Machine Reader)

namespace BinOp

theorem operandTypes_of_constant? {op : BinOp} {a b v : Value}
    (carried : op.constant? a b = some v) : a.type = op.operandType ∧ b.type = op.operandType := by
  unfold constant? at carried
  split at carried <;> first | exact ⟨rfl, rfl⟩ | cases carried

/-- What is carried out early is what executing the operation comes to. -/
theorem eval_of_constant? {op : BinOp} {a b v : Value} (carried : op.constant? a b = some v) :
    op.eval a b = .ok v := by
  unfold constant? at carried
  split at carried
  -- what is carried out of arithmetic on words does not trap
  case h_1 op a b | h_3 op a b => cases op <;> cases carried <;> rfl
  case h_2 op a b | h_4 op a b =>
    cases op
    case ne =>
      cases carried
      simp [eval, IntRel.eval, bne]
      rfl
    all_goals cases carried <;> rfl
  case h_5 op a b | h_6 op a b => cases op <;> cases carried <;> rfl
  case h_7 => cases carried

/-- The operation traps on some operands of its type. -/
def CanTrap (op : BinOp) : Prop := ∃ a b cause,
  a.type = op.operandType ∧ b.type = op.operandType ∧ op.eval a b = .error cause

theorem canTrap_iff {op : BinOp} : op.CanTrap ↔
    ∃ (w : Width) (arith : IntArith), arith ∈ [.divS, .divU, .remS, .remU] ∧ op = .intArith w arith := by
  constructor
  · rintro ⟨a, b, cause, first, second, trap⟩
    cases op with
    | intArith w arith =>
      refine ⟨w, arith, ?_, rfl⟩
      cases w <;> cases a <;> cases first <;> cases b <;> cases second <;>
        cases arith <;> first | cases trap | decide
    | intRel w _ | floatArith w _ | floatRel w _ =>
      cases w <;> cases a <;> cases first <;> cases b <;> cases second <;> cases trap
  · rintro ⟨w, arith, divides, rfl⟩
    refine ⟨.zero w.int, .zero w.int, .divideByZero, Value.type_zero _, Value.type_zero _, ?_⟩
    simp only [List.mem_cons, List.not_mem_nil, or_false] at divides
    rcases divides with rfl | rfl | rfl | rfl <;> cases w <;> rfl

theorem constant?_of_canTrap {op : BinOp} (traps : op.CanTrap) (a b : Value) :
    op.constant? a b = none := by
  obtain ⟨w, arith, divides, rfl⟩ := canTrap_iff.1 traps
  simp only [List.mem_cons, List.not_mem_nil, or_false] at divides
  rcases divides with rfl | rfl | rfl | rfl <;> cases w <;> cases a <;> cases b <;> rfl

theorem plainInstr_code (op : BinOp) (announced : Bool) (rest : List UInt8) :
    Reader.plainInstr announced op.code rest = some (.binary op, rest) := by
  rcases op with ⟨w, op⟩ | ⟨w, op⟩ | ⟨w, op⟩ | ⟨w, op⟩ <;> cases w <;> cases op <;> rfl

end BinOp

namespace UnOp

theorem operandType_of_constant? {op : UnOp} {a v : Value} (carried : op.constant? a = some v) :
    a.type = op.operandType := by
  unfold constant? at carried
  split at carried <;> first | rfl | cases carried

/-- What is carried out early is what executing the operation comes to. -/
theorem eval_of_constant? {op : UnOp} {a v : Value} (carried : op.constant? a = some v) :
    op.eval a = .ok v := by
  unfold constant? at carried
  split at carried
  case h_7 a =>
    -- the low half of a word is the word as a signed number, cut to the width
    cases carried
    have narrow : BitVec.ofInt 32 a.toInt = a.setWidth 32 :=
      BitVec.signExtend_eq_setWidth_of_le a (by decide)
    rw [narrow, eval]
  case h_9 a =>
    cases carried
    rw [BitVec.ofNat_toNat, eval]
  all_goals cases carried
  all_goals rfl

def CanTrap (op : UnOp) : Prop := ∃ a cause, a.type = op.operandType ∧ op.eval a = .error cause

theorem canTrap_iff {op : UnOp} : op.CanTrap ↔ ∃ target source, op = .trunc target source := by
  constructor
  · rintro ⟨a, cause, operand, trap⟩
    cases op with
    | trunc target source => exact ⟨target, source, rfl⟩
    | eqz w | neg w | abs w | sqrt w => cases w <;> cases a <;> cases operand <;> cases trap
    | wrap | extendS | extendU | demote | promote =>
      -- one kind of operand fits
      cases a <;> cases operand
      cases trap
    | convert target source =>
      cases target <;> cases source <;> cases a <;> cases operand <;> cases trap
  · rintro ⟨target, source, rfl⟩
    cases source with
    | w32 =>
      refine ⟨.f32 0x7fc00000, .invalidConversion, rfl, ?_⟩
      cases target <;> decide +kernel
    | w64 =>
      refine ⟨.f64 0x7ff8000000000000, .invalidConversion, rfl, ?_⟩
      cases target <;> decide +kernel

theorem constant?_of_canTrap {op : UnOp} (traps : op.CanTrap) (a : Value) : op.constant? a = none := by
  obtain ⟨target, source, rfl⟩ := canTrap_iff.1 traps
  cases target <;> cases source <;> cases a <;> rfl

theorem plainInstr_code (op : UnOp) (announced : Bool) (rest : List UInt8) :
    Reader.plainInstr announced op.code rest = some (.unary op, rest) := by
  cases op with
  | eqz w | neg w | abs w | sqrt w => cases w <;> rfl
  | wrap | extendS | extendU | demote | promote => rfl
  | convert target source | trunc target source => cases target <;> cases source <;> rfl

end UnOp

/-- An instruction goes on with one number in the place of its operands, and the byte that it is
written as is read as this instruction. -/
structure Wasm.Instr.Computes (i : Instr) (operands : List Value) (v : Value) : Prop where
  runs : ∀ (e : Env) (m : Machine), i.exec e { m with
    stack := (operands.map .num).reverse ++ m.stack } = .next (m.push (.num v))
  read : ∀ (announced : Bool) (rest : List UInt8), ∃ code, i.encode = [code] ∧
    Reader.plainInstr announced code rest = some (i, rest)

theorem BinOp.computes {op : BinOp} {a b v : Value} (value : op.eval a b = .ok v) :
    (Instr.binary op).Computes [a, b] v where
  runs e m := by
    show Machine.pushResult m (op.eval a b) = _
    rw [value]
    rfl
  read announced rest := ⟨op.code, rfl, op.plainInstr_code announced rest⟩

theorem UnOp.computes {op : UnOp} {a v : Value} (value : op.eval a = .ok v) :
    (Instr.unary op).Computes [a] v where
  runs e m := by
    show Machine.pushResult m (op.eval a) = _
    rw [value]
    rfl
  read announced rest := ⟨op.code, rfl, op.plainInstr_code announced rest⟩

namespace Lower.Layout

variable {l : Layout} {id left right operand : ExprId} {a b : Value}

/-- The code of an expression, whatever was lowered before it. -/
def Gives (l : Layout) (id : ExprId) (code : List Instr) : Prop :=
  ∀ s : LowerState, l.expr id s = .ok (code, s)

theorem exprWithin_const (here : l.arena.node id = .ok (.const a)) (s : LowerState) :
    l.exprWithin l.arena.size id s = .ok ([.const a], s) := by
  obtain ⟨depth, size⟩ := Nat.exists_eq_add_of_lt (Arena.lt_size_of_node here)
  rw [size, exprWithin_succ here]
  rfl

theorem gives_binary {op : BinOp} (here : l.arena.node id = .ok (.binary op left right))
    (first : l.arena.node left = .ok (.const a)) (second : l.arena.node right = .ok (.const b)) :
    l.Gives id [.const a, .const b, .binary op] := by
  intro s
  have operands : l.node (l.exprWithin l.arena.size) id (.binary op left right) s = (do
      return (← l.exprWithin l.arena.size left) ++ (← l.exprWithin l.arena.size right) ++
        [Instr.binary op] : LowerM (List Instr)) s := rfl
  rw [expr, Arena.pathBound, exprWithin_succ here, operands]
  simp [bind, StateT.bind, Except.bind, exprWithin_const first, exprWithin_const second]
  rfl

theorem gives_unary {op : UnOp} (here : l.arena.node id = .ok (.unary op operand))
    (only : l.arena.node operand = .ok (.const a)) : l.Gives id [.const a, .unary op] := by
  intro s
  have operands : l.node (l.exprWithin l.arena.size) id (.unary op operand) s = (do
      return (← l.exprWithin l.arena.size operand) ++ [Instr.unary op] :
        LowerM (List Instr)) s := rfl
  rw [expr, Arena.pathBound, exprWithin_succ here, operands]
  simp [bind, StateT.bind, Except.bind, exprWithin_const only]
  rfl

end Lower.Layout

open Lower (Layout)

/-- What an operation on constants is carried out to is what its instruction leaves of these
operands, and operations that may trap are never carried out. -/
theorem constants_as_executed :
    (∀ (op : BinOp) (a b v : Value), op.constant? a b = some v →
      a.type = op.operandType ∧ b.type = op.operandType ∧ v.type = op.resultType ∧
      (Instr.binary op).Computes [a, b] v ∧
      ∀ (l : Layout) (id left right : ExprId), l.arena.node id = .ok (.binary op left right) →
        l.arena.node left = .ok (.const a) → l.arena.node right = .ok (.const b) →
        l.Gives id [.const a, .const b, .binary op]) ∧
    (∀ (op : UnOp) (a v : Value), op.constant? a = some v →
      a.type = op.operandType ∧ v.type = op.resultType ∧ (Instr.unary op).Computes [a] v ∧
      ∀ (l : Layout) (id operand : ExprId), l.arena.node id = .ok (.unary op operand) →
        l.arena.node operand = .ok (.const a) → l.Gives id [.const a, .unary op]) ∧
    (∀ op : BinOp, op.CanTrap → ∀ a b, op.constant? a b = none) ∧
    ∀ op : UnOp, op.CanTrap → ∀ a, op.constant? a = none := by
  refine ⟨fun op a b v carried => ?_, fun op a v carried => ?_, ?_, ?_⟩
  · obtain ⟨first, second⟩ := BinOp.operandTypes_of_constant? carried
    exact ⟨first, second, BinOp.type_of_constant? carried,
      BinOp.computes (BinOp.eval_of_constant? carried),
      fun l id left right here one other => Layout.gives_binary here one other⟩
  · exact ⟨UnOp.operandType_of_constant? carried, UnOp.type_of_constant? carried,
      UnOp.computes (UnOp.eval_of_constant? carried),
      fun l id operand here only => Layout.gives_unary here only⟩
  · exact fun op traps => BinOp.constant?_of_canTrap traps
  · exact fun op traps => UnOp.constant?_of_canTrap traps

def shiftLayout : Layout where
  arena := ⟨#[⟨.const (.i32 1), none⟩, ⟨.const (.i32 (-1)), none⟩,
    ⟨.binary (.intArith .w32 .shl) 0 1, none⟩, ⟨.const (.i32 0x80000000), none⟩,
    ⟨.unary .extendU 3, none⟩]⟩
  localBases := #[]
  globalBases := #[]
  funcIndices := #[]
  scratchBase := 0

theorem constants_as_executed_of_shift :
    (BinOp.intArith .w32 .shl).constant? (.i32 1) (.i32 (-1)) = some (.i32 0x80000000) ∧
    (Instr.binary (.intArith .w32 .shl)).Computes [.i32 1, .i32 (-1)] (.i32 0x80000000) ∧
    shiftLayout.Gives 2 [.const (.i32 1), .const (.i32 (-1)), .binary (.intArith .w32 .shl)] ∧
    UnOp.extendU.constant? (.i32 0x80000000) = some (.i64 0x80000000) ∧
    (Instr.unary .extendU).Computes [.i32 0x80000000] (.i64 0x80000000) ∧
    shiftLayout.Gives 4 [.const (.i32 0x80000000), .unary .extendU] ∧
    (BinOp.intArith .w64 .remS).CanTrap ∧
    (∀ a b, (BinOp.intArith .w64 .remS).constant? a b = none) ∧
    (UnOp.trunc .w32 .w64).CanTrap ∧ ∀ a, (UnOp.trunc .w32 .w64).constant? a = none := by
  obtain ⟨binary, unary, trapping, trapping'⟩ := constants_as_executed
  have shifted : (BinOp.intArith .w32 .shl).constant? (.i32 1) (.i32 (-1)) =
      some (.i32 0x80000000) := by decide
  have extended : UnOp.extendU.constant? (.i32 0x80000000) = some (.i64 0x80000000) := by decide
  have remainder : (BinOp.intArith .w64 .remS).CanTrap :=
    BinOp.canTrap_iff.2 ⟨.w64, .remS, by decide, rfl⟩
  have truncation : (UnOp.trunc .w32 .w64).CanTrap := UnOp.canTrap_iff.2 ⟨.w32, .w64, rfl⟩
  obtain ⟨_, _, _, computes, gives⟩ := binary _ _ _ _ shifted
  obtain ⟨_, _, computes', gives'⟩ := unary _ _ _ extended
  exact ⟨shifted, computes, gives shiftLayout 2 0 1 rfl rfl rfl, extended, computes',
    gives' shiftLayout 4 3 rfl rfl, remainder, trapping _ remainder, truncation,
    trapping' _ truncation⟩

end WasmBuilder
