import WasmBuilder.Proofs.Wasm.Numeric

/-!
Locals that code does not write.

A local that code never writes holds what it held at first, so reads of it might as well be constants.
-/

set_option autoImplicit false

namespace WasmBuilder.Wasm

namespace Instr

mutual

def targets : Instr → List Nat
  | .localSet i | .localTee i => [i]
  | .block _ body | .loop _ body | .ifThen _ body => targetsSeq body
  | .ifElse _ first second => targetsSeq first ++ targetsSeq second
  | _ => []

def targetsSeq : List Instr → List Nat
  | [] => []
  | i :: rest => targets i ++ targetsSeq rest

end

mutual

def fill (known : Nat → Option Value) : Instr → Instr
  | .localGet i =>
    match known i with
    | some v => .const v
    | none => .localGet i
  | .block t body => .block t (fillSeq known body)
  | .loop t body => .loop t (fillSeq known body)
  | .ifThen t body => .ifThen t (fillSeq known body)
  | .ifElse t first second => .ifElse t (fillSeq known first) (fillSeq known second)
  | i => i

def fillSeq (known : Nat → Option Value) : List Instr → List Instr
  | [] => []
  | i :: rest => fill known i :: fillSeq known rest

end

end Instr

/-- Locals hold the values that are known of them. -/
def Machine.Holds (known : Nat → Option Value) (m : Machine) : Prop :=
  ∀ (i : Nat) (v : Value), known i = some v → m.locals[i]? = some (.num v)

def Outcome.Holds (known : Nat → Option Value) : Outcome → Prop
  | .next m | .branch _ m => m.Holds known
  | .ret _ | .tail _ _ _ | .trap _ _ | .exhausted => True

section
variable {known : Nat → Option Value} {m : Machine} {e : Env} (holds : m.Holds known)

include holds

namespace Outcome.Holds

theorem pushResult (r : Except Trap Value) : (m.pushResult r).Holds known := by
  cases r with
  | ok v => exact holds
  | error cause => trivial

theorem drop : m.drop.Holds known := by
  unfold Machine.drop
  split
  · exact holds
  · trivial

theorem binary (op : Value → Value → Except Trap Value) : (m.binary op).Holds known := by
  unfold Machine.binary
  split
  next rest _ => exact pushResult (m := { m with stack := rest }) holds _
  next => trivial

theorem unary (op : Value → Except Trap Value) : (m.unary op).Holds known := by
  unfold Machine.unary
  split
  next rest _ => exact pushResult (m := { m with stack := rest }) holds _
  next => trivial

theorem localGet (i : Nat) : (m.localGet i).Holds known := by
  unfold Machine.localGet
  split
  · exact holds
  · trivial

theorem localSet {i : Nat} (other : known i = none) : (m.localSet i).Holds known := by
  unfold Machine.localSet
  split
  · split
    · intro j v here
      have apart : i ≠ j := by
        rintro rfl
        rw [other] at here
        cases here
      rw [Array.getElem?_setIfInBounds_ne apart]
      exact holds j v here
    · trivial
  · trivial

theorem globalGet (i : Nat) : (m.globalGet i).Holds known := by
  unfold Machine.globalGet
  split
  · exact holds
  · trivial

theorem globalSet (i : Nat) : (m.globalSet i).Holds known := by
  unfold Machine.globalSet
  split
  · split
    · exact holds
    · trivial
  · trivial

theorem call (f : Nat) : (m.call e f).Holds known := by
  unfold Machine.call
  split
  · dsimp only
    split
    · exact holds
    · trivial
    · trivial
  · trivial

theorem callIndirect (type table : Nat) :
    (m.withSlot e type table fun f m => m.call e f).Holds known := by
  unfold Machine.withSlot
  split
  next rest _ =>
    split
    · split
      · split
        · exact call (m := { m with stack := rest }) holds _
        · trivial
      · trivial
    · trivial
  next => trivial

theorem load (t : NumType) (arg : MemArg) : (m.load e t arg).Holds known := by
  unfold Machine.load Machine.loadBytes
  split
  · split
    · split
      · exact holds
      · trivial
    · trivial
  · trivial

theorem store (t : NumType) (arg : MemArg) : (m.storeNum e t arg).Holds known := by
  unfold Machine.storeNum Machine.storeBytes
  split
  · split
    · unfold Machine.put
      split
      · exact holds
      · trivial
    · trivial
  · trivial

theorem memorySize (index : Nat) : (m.memorySize e index).Holds known := by
  unfold Machine.memorySize
  split
  · exact holds
  · trivial

theorem memoryGrow (index : Nat) : (m.memoryGrow e index).Holds known := by
  unfold Machine.memoryGrow
  split
  · split
    · split
      · exact holds
      · exact holds
    · trivial
  · trivial

end Outcome.Holds

end

def Filled (known : Nat → Option Value) (f g : Machine → Outcome) : Prop :=
  ∀ m : Machine, m.Holds known → f m = g m ∧ (g m).Holds known

namespace Filled

variable {known : Nat → Option Value} {f g : Machine → Outcome}

theorem of_holds (each : ∀ m : Machine, m.Holds known → (g m).Holds known) : Filled known g g :=
  fun m holds => ⟨rfl, each m holds⟩

variable (filled : Filled known f g)

include filled

theorem enter (params arity : Nat) :
    Filled known (Machine.enter params arity f) (Machine.enter params arity g) := by
  intro m holds
  have ⟨same, after⟩ := filled { m with stack := m.stack.take params } holds
  unfold Machine.enter
  rw [same]
  refine ⟨rfl, ?_⟩
  dsimp only
  split
  next inner run =>
    rw [run] at after
    exact after
  next inner run =>
    rw [run] at after
    exact after
  next label inner run =>
    rw [run] at after
    exact after
  next => exact after

theorem repeatLoop (params rounds : Nat) :
    Filled known (Machine.repeatLoop params f rounds) (Machine.repeatLoop params g rounds) := by
  induction rounds with
  | zero => exact fun m _ => ⟨rfl, trivial⟩
  | succ rounds ih =>
    intro m holds
    have ⟨same, after⟩ := filled m holds
    unfold Machine.repeatLoop
    rw [same]
    split
    next inner run =>
      rw [run] at after
      exact ih { inner with stack := inner.stack.take params } after
    next label inner run =>
      rw [run] at after
      exact ⟨rfl, after⟩
    next => exact ⟨rfl, after⟩

theorem enterLoop (rounds params : Nat) :
    Filled known (Machine.enterLoop rounds params f) (Machine.enterLoop rounds params g) := by
  intro m holds
  have ⟨same, after⟩ := filled.repeatLoop params rounds { m with stack := m.stack.take params } holds
  unfold Machine.enterLoop
  rw [same]
  refine ⟨rfl, ?_⟩
  dsimp only
  split
  next inner run =>
    rw [run] at after
    exact after
  next => exact after

omit filled in
theorem popCondition {f g : Bool → Machine → Outcome} (each : ∀ b, Filled known (f b) (g b)) :
    Filled known (fun m => m.popCondition f) (fun m => m.popCondition g) := by
  intro m holds
  unfold Machine.popCondition
  dsimp only
  split
  next c rest _ => exact each _ { m with stack := rest } holds
  next => exact ⟨rfl, trivial⟩

end Filled

section
variable {known : Nat → Option Value} {e : Env}

mutual

theorem Instr.filled (i : Instr) (plain : i.isPlain = true)
    (others : ∀ k ∈ i.targets, known k = none) : Filled known ((i.fill known).exec e) (i.exec e) := by
  cases i with
  -- the one instruction that is replaced
  | localGet k =>
    unfold Instr.fill
    intro m holds
    cases here : known k with
    | none => exact ⟨rfl, .localGet holds k⟩
    | some v =>
      refine ⟨?_, .localGet holds k⟩
      show Outcome.next (m.push (.num v)) = m.localGet k
      rw [Machine.localGet, holds k v here]
  | localSet k =>
    exact .of_holds fun m holds => .localSet holds (others k (List.mem_singleton.2 rfl))
  | drop => exact .of_holds fun m holds => .drop holds
  | const v => exact .of_holds fun m holds => holds
  | binary op => exact .of_holds fun m holds => .binary holds op.eval
  | unary op => exact .of_holds fun m holds => .unary holds op.eval
  | globalGet k => exact .of_holds fun m holds => .globalGet holds k
  | globalSet k => exact .of_holds fun m holds => .globalSet holds k
  | load t arg => exact .of_holds fun m holds => .load holds t arg
  | store t arg => exact .of_holds fun m holds => .store holds t arg
  | memorySize memory => exact .of_holds fun m holds => .memorySize holds memory
  | memoryGrow memory => exact .of_holds fun m holds => .memoryGrow holds memory
  | call f => exact .of_holds fun m holds => .call holds f
  | callIndirect t table => exact .of_holds fun m holds => .callIndirect holds t table
  | br label => exact .of_holds fun m holds => holds
  | ret => exact .of_holds fun m holds => trivial
  | brIf label =>
    have jumps (b : Bool) : Filled known (fun m => if b then .branch label m else .next m)
        (fun m => if b then .branch label m else .next m) := by
      apply Filled.of_holds
      intro m holds
      cases b <;> exact holds
    intro m holds
    unfold Instr.fill Instr.exec
    exact Filled.popCondition jumps m holds
  | block t body =>
    intro m holds
    unfold Instr.fill Instr.exec
    split
    next f _ => exact (filledSeq body plain others).enter _ _ m holds
    next => exact ⟨rfl, trivial⟩
  | loop t body =>
    intro m holds
    unfold Instr.fill Instr.exec
    split
    next f _ => exact (filledSeq body plain others).enterLoop _ _ m holds
    next => exact ⟨rfl, trivial⟩
  | ifThen t body =>
    intro m holds
    unfold Instr.fill Instr.exec
    split
    next f _ =>
      refine Filled.popCondition (fun b => ?_) m holds
      cases b with
      | false => exact .of_holds fun m holds => holds
      | true => exact (filledSeq body plain others).enter _ _
    next => exact ⟨rfl, trivial⟩
  | ifElse t first second =>
    have ⟨one, two⟩ := Bool.and_eq_true_iff.1 plain
    have inFirst := filledSeq first one fun k mem => others k (List.mem_append_left _ mem)
    have inSecond := filledSeq second two fun k mem => others k (List.mem_append_right _ mem)
    intro m holds
    unfold Instr.fill Instr.exec
    split
    next f _ =>
      refine Filled.popCondition (fun b => ?_) m holds
      cases b with
      | false => exact inSecond.enter _ _
      | true => exact inFirst.enter _ _
    next => exact ⟨rfl, trivial⟩
  | _ => cases plain

theorem Instr.filledSeq (is : List Instr) (plain : isPlainSeq is = true)
    (others : ∀ k ∈ targetsSeq is, known k = none) :
    Filled known (execSeq (fillSeq known is) e) (execSeq is e) := by
  cases is with
  | nil => exact .of_holds fun m holds => holds
  | cons i rest =>
    have ⟨one, more⟩ := Bool.and_eq_true_iff.1 plain
    have first := filled i one fun k mem => others k (List.mem_append_left _ mem)
    have behind := filledSeq rest more fun k mem => others k (List.mem_append_right _ mem)
    intro m holds
    have ⟨same, after⟩ := first m holds
    unfold fillSeq execSeq
    rw [same]
    split
    next m' run =>
      rw [run] at after
      exact behind m' after
    next => exact ⟨rfl, after⟩

end

/-- A call of code that does not write some of its parameters goes as if the arguments stood in the
code. -/
theorem runBody_fillSeq {body : List Instr} (plain : Instr.isPlainSeq body = true)
    (others : ∀ k ∈ Instr.targetsSeq body, known k = none) (type : FuncType)
    (locals : List ValType) (s : Store) {args : List Datum}
    (given : ∀ i v, known i = some v → args[i]? = some (.num v)) :
    runBody e type locals (Instr.fillSeq known body) s args = runBody e type locals body s args := by
  have holds : Machine.Holds known ⟨s, (args ++ locals.map Datum.zero).toArray, []⟩ := by
    intro i v here
    have there := given i v here
    rw [List.getElem?_toArray,
      List.getElem?_append_left (List.getElem?_eq_some_iff.1 there).1, there]
  have ⟨same, _⟩ := Instr.filledSeq (e := e) body plain others _ holds
  simp only [runBody, same]

end

end WasmBuilder.Wasm
