import WasmBuilder.Wasm.MemoryAccess
import WasmBuilder.Wasm.TableAccess

/-!
Execution of instructions.

The meaning of an instruction is a function on machines, given by recursion on the instruction. What
calling a function does is part of the surroundings.
-/

set_option autoImplicit false

namespace WasmBuilder.Wasm

namespace Instr

mutual

def exec : Instr → Env → Machine → Outcome
  | .unreachable, _, m => m.trap .unreachable
  | .nop, _, m => .next m
  | .drop, _, m => m.drop
  | .select, _, m => m.select
  | .selectTyped _, _, m => m.select
  | .const v, _, m => .next (m.push (.num v))
  | .vecConst v, _, m => .next (m.push (.vec v))
  | .refNull t, _, m => .next (m.push (.null t))
  | .refIsNull, _, m => m.refIsNull
  | .refFunc f, _, m => .next (m.push (.func (some f)))
  | .binary op, _, m => m.binary op.eval
  | .unary op, _, m => m.unary op.eval
  | .machineBinary op, _, m => m.binary op.eval
  | .machineUnary op, _, m => m.unary op.eval
  | .localGet i, _, m => m.localGet i
  | .localSet i, _, m => m.localSet i
  | .localTee i, _, m => m.localTee i
  | .globalGet i, _, m => m.globalGet i
  | .globalSet i, _, m => m.globalSet i
  | .load t arg, e, m => m.load e t arg
  | .store t arg, e, m => m.storeNum e t arg
  | .loadPart w part isSigned arg, e, m => m.loadPart e w part isSigned arg
  | .storePart w part arg, e, m => m.storePart e w part arg
  | .memorySize memory, e, m => m.memorySize e memory
  | .memoryGrow memory, e, m => m.memoryGrow e memory
  | .memoryFill memory, e, m => m.memoryFill e memory
  | .memoryCopy target source, e, m => m.memoryCopy e target source
  | .memoryInit data memory, e, m => m.memoryInit e data memory
  | .dataDrop data, _, m => m.dataDrop data
  | .vector op, _, m => m.vector op
  | .vecAccess a arg, e, m => m.vecAccess e a arg
  | .atomic op arg, e, m => m.atomic e op arg
  | .atomicFence, _, m => .next m
  | .tableGet table, _, m => m.tableGet table
  | .tableSet table, _, m => m.tableSet table
  | .tableSize table, _, m => m.tableSize table
  | .tableGrow table, _, m => m.tableGrow table
  | .tableFill table, _, m => m.tableFill table
  | .tableCopy target source, _, m => m.tableCopy target source
  | .tableInit element table, _, m => m.tableInit element table
  | .elemDrop element, _, m => m.elemDrop element
  | .block t body, e, m =>
    match e.blockType? t with
    | some f => m.enter f.params.length f.results.length (execSeq body e)
    | none => m.stuck
  | .loop t body, e, m =>
    match e.blockType? t with
    | some f => m.enterLoop e.rounds f.params.length (execSeq body e)
    | none => m.stuck
  | .ifThen t body, e, m =>
    match e.blockType? t with
    | some f => m.popCondition fun c m =>
      if c then m.enter f.params.length f.results.length (execSeq body e) else .next m
    | none => m.stuck
  | .ifElse t thenBody elseBody, e, m =>
    match e.blockType? t with
    | some f => m.popCondition fun c m =>
      if c then m.enter f.params.length f.results.length (execSeq thenBody e)
      else m.enter f.params.length f.results.length (execSeq elseBody e)
    | none => m.stuck
  | .br l, _, m => .branch l m
  | .brIf l, _, m => m.popCondition fun c m => if c then .branch l m else .next m
  | .brTable ls l, _, m => m.branchTable ls l
  | .ret, _, m => .ret m
  | .call f, e, m => m.call e f
  | .callIndirect t table, e, m => m.withSlot e t table fun f m => m.call e f
  | .tailCall f, e, m => m.tailCall e f
  | .tailCallIndirect t table, e, m => m.withSlot e t table fun f m => m.tailCall e f

def execSeq : List Instr → Env → Machine → Outcome
  | [], _, m => .next m
  | i :: rest, e, m =>
    match exec i e m with
    | .next m => execSeq rest e m
    | o => o

end

end Instr

inductive BodyOutcome where
  | done (results : List Datum) (s : Store)
  | tail (func : Nat) (args : List Datum) (s : Store)
  | trap (cause : Trap) (s : Store)
  | exhausted

/-- The end of a body: its results are the top operands. Code that validation accepts never has too
few of them. -/
def Machine.finish (count : Nat) (m : Machine) : BodyOutcome :=
  if m.stack.length < count then .trap .illTyped m.store
  else .done (m.stack.take count).reverse m.store

/-- Runs a function body on arguments. Falling off the end, branching out of the body and returning
all leave results. -/
def runBody (e : Env) (type : FuncType) (locals : List ValType) (body : List Instr) (s : Store)
    (args : List Datum) : BodyOutcome :=
  let start : Machine := ⟨s, (args ++ locals.map Datum.zero).toArray, []⟩
  match Instr.execSeq body e start with
  | .next m | .branch _ m | .ret m => m.finish type.results.length
  | .tail f args s => .tail f args s
  | .trap cause s => .trap cause s
  | .exhausted => .exhausted

end WasmBuilder.Wasm
