import WasmBuilder.Proofs.Wasm.Control

/-!
Code that control does not leave.

Where a piece of code neither returns nor makes a tail call, control falls through it, or goes to a
label around it. Blocks and loops take their own labels away, so all that is asked of an instruction
is how many labels around it control may go to.
-/

set_option autoImplicit false

namespace WasmBuilder.Wasm

def Outcome.Below (labels : Nat) : Outcome → Prop
  | .next _ | .trap .. | .exhausted => True
  | .branch l _ => l < labels
  | .ret _ | .tail .. => False

theorem Outcome.Below.mono {n k : Nat} (le : n ≤ k) {o : Outcome} (below : o.Below n) :
    o.Below k := by
  cases o with
  | branch l m => exact Nat.lt_of_lt_of_le below le
  | next | trap | exhausted => trivial
  | ret | tail => cases below

def Confined (labels : Nat) (code : List Instr) : Prop :=
  ∀ (e : Env) (m : Machine), (Instr.execSeq code e m).Below labels

namespace Machine

variable {m : Machine} {n : Nat}

theorem below_pushResult (r : Except Trap Value) : (m.pushResult r).Below n := by
  cases r <;> trivial

theorem below_enter {body : Machine → Outcome} (inside : ∀ m, (body m).Below (n + 1))
    (params arity : Nat) : (m.enter params arity body).Below n := by
  have run := inside { m with stack := m.stack.take params }
  unfold enter
  cases ended : body { m with stack := m.stack.take params } with
  | next | trap | exhausted => trivial
  | branch l inner =>
    rw [ended] at run
    cases l with
    | zero => trivial
    | succ l => exact Nat.lt_of_succ_lt_succ run
  | ret | tail =>
    rw [ended] at run
    cases run

/-- However often a loop is repeated, control stays in it or leaves it as its body does. -/
theorem below_repeatLoop {body : Machine → Outcome} (inside : ∀ m, (body m).Below (n + 1))
    (params rounds : Nat) : (m.repeatLoop params body rounds).Below n := by
  induction rounds generalizing m with
  | zero => trivial
  | succ rounds ih =>
    have run := inside m
    unfold repeatLoop
    cases ended : body m with
    | next | trap | exhausted => trivial
    | branch l inner =>
      rw [ended] at run
      cases l with
      | zero => exact ih
      | succ l => exact Nat.lt_of_succ_lt_succ run
    | ret | tail =>
      rw [ended] at run
      cases run

theorem below_enterLoop {body : Machine → Outcome} (inside : ∀ m, (body m).Below (n + 1))
    (rounds params : Nat) : (m.enterLoop rounds params body).Below n := by
  have run : ({ m with stack := m.stack.take params }.repeatLoop params body rounds).Below n :=
    below_repeatLoop inside params rounds
  unfold enterLoop
  cases ended : { m with stack := m.stack.take params }.repeatLoop params body rounds with
  | next | trap | exhausted => trivial
  | branch l inner =>
    rw [ended] at run
    exact run
  | ret | tail =>
    rw [ended] at run
    cases run

theorem below_popCondition {f : Bool → Machine → Outcome} (each : ∀ c m, (f c m).Below n) :
    (m.popCondition f).Below n := by
  unfold popCondition
  split
  · exact each _ _
  · trivial

theorem below_call (e : Env) (f : Nat) : (m.call e f).Below n := by
  unfold call
  split
  · dsimp only
    split <;> trivial
  · trivial

theorem below_drop : m.drop.Below n := by
  unfold drop
  split <;> trivial

theorem below_binary (op : Value → Value → Except Trap Value) : (m.binary op).Below n := by
  unfold binary
  split
  · exact below_pushResult _
  · trivial

theorem below_unary (op : Value → Except Trap Value) : (m.unary op).Below n := by
  unfold unary
  split
  · exact below_pushResult _
  · trivial

theorem below_localGet (i : Nat) : (m.localGet i).Below n := by
  unfold localGet
  split <;> trivial

theorem below_localSet (i : Nat) : (m.localSet i).Below n := by
  unfold localSet
  split
  · split <;> trivial
  · trivial

theorem below_globalGet (i : Nat) : (m.globalGet i).Below n := by
  unfold globalGet
  split <;> trivial

theorem below_globalSet (i : Nat) : (m.globalSet i).Below n := by
  unfold globalSet
  split
  · split <;> trivial
  · trivial

theorem below_withSlot (e : Env) (t table : Nat) {f : Nat → Machine → Outcome}
    (each : ∀ i m, (f i m).Below n) : (m.withSlot e t table f).Below n := by
  unfold withSlot
  split
  · split
    · split
      · split
        · exact each _ _
        · trivial
      · trivial
    · trivial
  · trivial

theorem below_load (e : Env) (t : NumType) (arg : MemArg) : (m.load e t arg).Below n := by
  unfold load loadBytes
  split
  · split
    · split <;> trivial
    · trivial
  · trivial

theorem below_storeNum (e : Env) (t : NumType) (arg : MemArg) : (m.storeNum e t arg).Below n := by
  unfold storeNum storeBytes
  split
  · split
    · unfold put
      split <;> trivial
    · trivial
  · trivial

theorem below_memorySize (e : Env) (memory : Nat) : (m.memorySize e memory).Below n := by
  unfold memorySize
  split <;> trivial

theorem below_memoryGrow (e : Env) (memory : Nat) : (m.memoryGrow e memory).Below n := by
  unfold memoryGrow
  split
  · split
    · split <;> trivial
    · trivial
  · trivial

theorem below_blockType? (e : Env) (t : BlockType) {f : FuncType → Outcome}
    (each : ∀ type, (f type).Below n) :
    (match e.blockType? t with
      | some type => f type
      | none => m.stuck).Below n := by
  cases e.blockType? t with
  | some type => exact each type
  | none => trivial

end Machine

namespace Confined

open Machine

variable {n k : Nat} {code other : List Instr}

theorem mono (confined : Confined n code) (le : n ≤ k) : Confined k code :=
  fun e m => (confined e m).mono le

theorem nil : Confined n [] := fun _ _ => trivial

theorem append (first : Confined n code) (second : Confined n other) :
    Confined n (code ++ other) := by
  intro e m
  rw [Instr.execSeq_append]
  have run := first e m
  cases ended : Instr.execSeq code e m with
  | next m => exact second e m
  | branch | ret | tail | trap | exhausted =>
    rw [ended] at run
    exact run

theorem of_exec {i : Instr} (each : ∀ e m, (i.exec e m).Below n) : Confined n [i] := by
  intro e m
  rw [Instr.execSeq_singleton]
  exact each e m

theorem map {α : Type} {f : α → Instr} (each : ∀ x, Confined n [f x]) (xs : List α) :
    Confined n (xs.map f) := by
  induction xs with
  | nil => exact nil
  | cons x xs ih => exact (each x).append ih

theorem const (v : Value) : Confined n [.const v] := of_exec fun _ _ => trivial

theorem drop : Confined n [.drop] := of_exec fun _ _ => below_drop

theorem binary (op : BinOp) : Confined n [.binary op] := of_exec fun _ _ => below_binary op.eval

theorem unary (op : UnOp) : Confined n [.unary op] := of_exec fun _ _ => below_unary op.eval

theorem localGet (i : Nat) : Confined n [.localGet i] := of_exec fun _ _ => below_localGet i

theorem localSet (i : Nat) : Confined n [.localSet i] := of_exec fun _ _ => below_localSet i

theorem globalGet (i : Nat) : Confined n [.globalGet i] := of_exec fun _ _ => below_globalGet i

theorem globalSet (i : Nat) : Confined n [.globalSet i] := of_exec fun _ _ => below_globalSet i

theorem call (f : Nat) : Confined n [.call f] := of_exec fun e _ => below_call e f

theorem callIndirect (t table : Nat) : Confined n [.callIndirect t table] :=
  of_exec fun e _ => below_withSlot e t table fun f _ => below_call e f

theorem load (t : NumType) (arg : MemArg) : Confined n [.load t arg] :=
  of_exec fun e _ => below_load e t arg

theorem store (t : NumType) (arg : MemArg) : Confined n [.store t arg] :=
  of_exec fun e _ => below_storeNum e t arg

theorem memorySize (memory : Nat) : Confined n [.memorySize memory] :=
  of_exec fun e _ => below_memorySize e memory

theorem memoryGrow (memory : Nat) : Confined n [.memoryGrow memory] :=
  of_exec fun e _ => below_memoryGrow e memory

theorem br {l : Nat} (lt : l < n) : Confined n [.br l] := of_exec fun _ _ => lt

theorem brIf {l : Nat} (lt : l < n) : Confined n [.brIf l] := by
  apply of_exec
  intro e m
  show (m.popCondition fun c m => if c then .branch l m else .next m).Below n
  apply below_popCondition
  intro c m
  split
  · exact lt
  · trivial

theorem block (t : BlockType) (body : Confined (n + 1) code) : Confined n [.block t code] :=
  of_exec fun e _ => below_blockType? e t fun _ => below_enter (body e) _ _

theorem loop (t : BlockType) (body : Confined (n + 1) code) : Confined n [.loop t code] :=
  of_exec fun e _ => below_blockType? e t fun _ => below_enterLoop (body e) _ _

theorem ifThen (t : BlockType) (body : Confined (n + 1) code) : Confined n [.ifThen t code] := by
  refine of_exec fun e _ => below_blockType? e t fun type => below_popCondition fun c m => ?_
  split
  · exact below_enter (body e) _ _
  · trivial

theorem ifElse (t : BlockType) (first : Confined (n + 1) code) (second : Confined (n + 1) other) :
    Confined n [.ifElse t code other] := by
  refine of_exec fun e _ => below_blockType? e t fun type => below_popCondition fun c m => ?_
  split
  · exact below_enter (first e) _ _
  · exact below_enter (second e) _ _

end Confined

end WasmBuilder.Wasm
