import WasmBuilder.Proofs.Meaning.Runs

/-!
What single instructions are meant to do, and conditions and loops.

A block has a stack of its own. A loop stands in a block of its own: its code leaves both by a branch
when the test fails, and goes back to the test by another one.
-/

set_option autoImplicit false

namespace WasmBuilder.Meaning

open Lower (Layout Tables)
open Wasm (BlockType Datum Env Instr Machine Outcome)

variable {v : Setting} {l : Layout} {K : Tables} {Γ : Surroundings} {e : Env}

theorem execSeq_drops (e : Env) {types : List NumType} {top : List Datum}
    (length : top.length = types.length) (m : Machine) (below : List Datum) :
    Instr.execSeq (types.map fun _ => .drop) e { m with stack := top ++ below } =
      .next { m with stack := below } := by
  induction types generalizing top with
  | nil =>
    cases List.length_eq_zero_iff.1 length
    rfl
  | cons t types ih =>
    cases top with
    | nil => simp at length
    | cons d top => exact ih (Nat.succ.inj length)

namespace Runs

variable {code first second : List Instr} {meant other : EvalM (List Value)} {count : Nat}
  {value : List Value}

theorem const (x : Value) : Runs v l K Γ e [] [.const x] (pure [x]) 1 := by
  refine of_step fun s m below related stack => ?_
  exact ⟨rfl, { related with }, by simp [Machine.push, stack]⟩

theorem drops {types : List NumType} (length : value.length = types.length)
    (rest : Runs v l K Γ e [] code meant count) :
    Runs v l K Γ e value ((types.map fun _ => .drop) ++ code) meant count := by
  intro s m below related stack
  have top : (value.map Datum.num).reverse.length = types.length := by simp [length]
  have dropped := execSeq_drops e top m below
  rw [← stack] at dropped
  rw [Instr.execSeq_append, dropped]
  exact rest s _ below { related with } rfl

theorem binary (op : BinOp) (a b : Value) :
    Runs v l K Γ e [a, b] [.binary op] (do return [← ofExcept (op.eval a b)]) 1 := by
  refine of_step fun s m below related stack => ?_
  simp only [Instr.exec, Machine.binary, stack, List.map_cons, List.map_nil, List.reverse_cons,
    List.reverse_nil, List.nil_append, List.cons_append, Machine.pushResult]
  cases op.eval a b with
  | ok x => exact ⟨rfl, { related with }, rfl⟩
  | error cause => exact ⟨rfl, related.store⟩

theorem unary (op : UnOp) (a : Value) :
    Runs v l K Γ e [a] [.unary op] (do return [← ofExcept (op.eval a)]) 1 := by
  refine of_step fun s m below related stack => ?_
  simp only [Instr.exec, Machine.unary, stack, List.map_cons, List.map_nil, List.reverse_cons,
    List.reverse_nil, List.nil_append, List.cons_append, Machine.pushResult]
  cases op.eval a with
  | ok x => exact ⟨rfl, { related with }, rfl⟩
  | error cause => exact ⟨rfl, related.store⟩

theorem ret (length : value.length = v.results.length) :
    Runs v l K Γ e value [.ret] (leave value) 0 :=
  of_step fun _ _ below related stack => ⟨length, related.store, related.fits, below, stack⟩

section
variable (runnable : Runnable v l K Γ e)

include runnable

theorem memory?_eq {s : State} {m : Machine} (related : Related v l K Γ s m) :
    m.store.memory? e 0 = Γ.memory? s.world := by
  simp only [Wasm.Store.memory?, Surroundings.memory?, runnable.memory, related.store]
  rfl

theorem load (type : NumType) (offset : Nat) (addr : Value) :
    Runs v l K Γ e [addr] [.load type ⟨type.alignLog2, offset, 0⟩] (Γ.load type offset addr) 1 := by
  refine of_step fun s m below related stack => ?_
  simp only [Instr.exec, Machine.load, Machine.loadBytes, stack, List.map_cons, List.map_nil,
    List.reverse_cons, List.reverse_nil, List.nil_append, List.cons_append,
    memory?_eq runnable related, Surroundings.load, Datum.unsigned?]
  cases addr.unsigned? with
  | none => exact ⟨rfl, related.store⟩
  | some base =>
    cases Γ.memory? s.world with
    | none => exact ⟨rfl, related.store⟩
    | some pair =>
      obtain ⟨n, memory⟩ := pair
      dsimp only
      cases memory.read (base + offset) type.byteWidth with
      | none => exact ⟨rfl, related.store⟩
      | some bytes => exact ⟨rfl, { related with }, rfl⟩

theorem store (type : NumType) (offset : Nat) (addr x : Value) :
    Runs v l K Γ e [addr, x] [.store type ⟨type.alignLog2, offset, 0⟩]
      (Γ.store type offset addr x) 0 := by
  refine of_step fun s m below related stack => ?_
  simp only [Instr.exec, Machine.storeNum, Machine.storeBytes, stack, List.map_cons, List.map_nil,
    List.reverse_cons, List.reverse_nil, List.nil_append, List.cons_append, Wasm.Machine.bytesOf?,
    Surroundings.store, Datum.unsigned?, runnable.memory]
  split
  next typed =>
    cases addr.unsigned? with
    | none => exact ⟨rfl, related.store⟩
    | some base =>
      cases Γ.memory with
      | none => exact ⟨rfl, related.store⟩
      | some n =>
        simp only [Machine.put, related.store]
        have same : s.world.store.holds n (base + offset) x.bytes.length =
            s.world.rest.holds n (base + offset) x.bytes.length := rfl
        rw [same]
        split
        · exact ⟨rfl, ⟨rfl, ⟨related.fits.globals, related.fits.table⟩, related.slots,
            related.locals⟩, rfl⟩
        · exact ⟨rfl, related.store⟩
  next => exact ⟨rfl, related.store⟩

theorem memorySize : Runs v l K Γ e [] [.memorySize 0] Γ.memorySize 1 := by
  refine of_step fun s m below related stack => ?_
  simp only [Instr.exec, Machine.memorySize, memory?_eq runnable related, Surroundings.memorySize]
  cases Γ.memory? s.world with
  | none => exact ⟨rfl, related.store⟩
  | some pair =>
    obtain ⟨n, memory⟩ := pair
    refine ⟨rfl, { related with }, ?_⟩
    rw [Machine.push, stack]
    rfl

theorem memoryGrow (delta : Value) :
    Runs v l K Γ e [delta] [.memoryGrow 0] (Γ.memoryGrow delta) 1 := by
  refine of_step fun s m below related stack => ?_
  simp only [Instr.exec, Machine.memoryGrow, stack, List.map_cons, List.map_nil, List.reverse_cons,
    List.reverse_nil, List.nil_append, List.cons_append, memory?_eq runnable related,
    Surroundings.memoryGrow, Datum.unsigned?]
  cases delta.unsigned? with
  | none => exact ⟨rfl, related.store⟩
  | some pages =>
    cases Γ.memory? s.world with
    | none => exact ⟨rfl, related.store⟩
    | some pair =>
      obtain ⟨n, memory⟩ := pair
      dsimp only
      cases grown : memory.grow pages with
      | none => exact ⟨rfl, { related with }, rfl⟩
      | some larger =>
        refine ⟨rfl, ⟨?_, ⟨related.fits.globals, related.fits.table⟩, related.slots,
          related.locals⟩, rfl⟩
        rw [related.store]
        rfl

theorem ends_call {func index : Nat} {signature : Signature} {args : List Value}
    (declared : v.signatures[func]? = some signature) (at_ : l.funcIndices[func]? = some index)
    (length : args.length = signature.params.length) {s : State} {m : Machine} {below : List Datum}
    (related : Related v l K Γ s m) (stack : m.stack = (args.map .num).reverse ++ below) :
    Ends v l Γ (Pushed v l K Γ signature.results.length below) (Γ.callFunction func args s)
      (m.call e index) := by
  obtain ⟨i, there, typed, agrees⟩ := runnable.funcs func signature declared
  cases at_.symm.trans there
  obtain ⟨fits, called⟩ := agrees s.world args related.fits length
  have count : signature.funcType.params.length = ((args.map Datum.num).reverse).length := by
    simp [Signature.funcType, length]
  simp only [Machine.call, typed, count, stack, List.take_left, List.drop_left, List.reverse_reverse,
    related.store, called, Surroundings.callFunction]
  cases meant : Γ.call func s.world args with
  | done results w =>
    rw [meant] at fits
    exact ⟨fits.1, ⟨rfl, fits.2, related.slots, related.locals⟩, rfl⟩
  | trap cause w => exact ⟨rfl, rfl⟩
  | exhausted => trivial

theorem call {func index : Nat} {signature : Signature} {args : List Value}
    (declared : v.signatures[func]? = some signature) (at_ : l.funcIndices[func]? = some index)
    (length : args.length = signature.params.length) :
    Runs v l K Γ e args [.call index] (Γ.callFunction func args) signature.results.length :=
  of_step fun _ _ _ related stack => ends_call runnable declared at_ length related stack

/-- A call through the table reaches the function that is meant, if there is one of the signature. -/
theorem callIndirect {type : Nat} {signature : Signature} {args : List Value} {slot : Value}
    (hasTable : v.hasTable = true) (listed : K.types[type]? = some signature)
    (length : args.length = signature.params.length) :
    Runs v l K Γ e (args ++ [slot]) [.callIndirect type 0] (Γ.callSlot signature slot args)
      signature.results.length := by
  refine of_step fun s m below related stack => ?_
  obtain ⟨t, there, held⟩ := related.fits.table hasTable
  have table : m.store.tables[0]? = some t := by rw [related.store]; exact there
  rw [List.map_append, List.reverse_append] at stack
  simp only [List.map_cons, List.map_nil, List.reverse_cons, List.reverse_nil, List.nil_append,
    List.cons_append] at stack
  simp only [Instr.exec, Machine.withSlot, stack, Datum.unsigned?, runnable.types _ _ listed, table,
    Surroundings.callSlot]
  -- both look the slot up, find the function in it, and then compare its signature
  cases slot.unsigned? with
  | none => exact ⟨rfl, related.store⟩
  | some n =>
    have at_ := held n
    cases chosen : Γ.table[n]? with
    | none =>
      rw [chosen] at at_
      simp only [chosen, at_, Option.bind_none]
      exact ⟨rfl, related.store⟩
    | some func =>
      obtain ⟨own, declared⟩ := runnable.table func (List.mem_of_getElem? chosen)
      obtain ⟨index, found, typed, _⟩ := runnable.funcs func own declared
      rw [chosen] at at_
      simp only [Option.bind_some, found, Option.map_some] at at_
      simp only [chosen, at_, runnable.signatures, declared, typed, Option.some.injEq]
      by_cases same : own = signature
      · subst same
        simp only [if_true]
        exact ends_call runnable declared found length (m := { m with stack := _ })
          { related with } rfl
      · have other : own.funcType ≠ signature.funcType :=
          fun h => same (Signature.funcType_injective h)
        simp only [same, other, if_false]
        exact ⟨rfl, related.store⟩

end

theorem ends_enter (runs : Runs v l K Γ e [] code meant count) (arity : Nat) {s : State} {m : Machine}
    (related : Related v l K Γ s m) :
    Ends v l Γ (Pushed v l K Γ count m.stack) (meant s) (m.enter 0 arity (Instr.execSeq code e)) := by
  have start : Related v l K Γ s { m with stack := m.stack.take 0 } := { related with }
  rcases (runs s _ [] start rfl).cases with ⟨value, s', meaning, pushed⟩ | ⟨stopped, same⟩
  · obtain ⟨m', run, length, related', stack⟩ := pushed.exists_next
    simp only [meaning, Machine.enter, run, List.drop_zero]
    refine ⟨length, { related' with }, ?_⟩
    rw [stack, List.append_nil]
  · have ends := same _ Ending.value (Pushed v l K Γ count m.stack)
    rwa [Ending.andThen_value, ← stopped.enter] at ends

section
variable (runnable : Runnable v l K Γ e)

include runnable

theorem exists_blockType {ts : List NumType} {type : BlockType} (leaves : Lower.BlockCode K ts type) :
    ∃ results, e.blockType? type = some ⟨[], results⟩ := by
  cases leaves with
  | empty => exact ⟨_, rfl⟩
  | value t => exact ⟨_, rfl⟩
  | index _ listed => exact ⟨_, runnable.types _ _ listed⟩

theorem ifElse {ts : List NumType} {type : BlockType} (leaves : Lower.BlockCode K ts type)
    (yes : Runs v l K Γ e [] first meant count) (no : Runs v l K Γ e [] second other count) (c : Value) :
    Runs v l K Γ e [c] [.ifElse type first second]
      (condition [c] >>= fun b => if b then meant else other) count := by
  refine of_step fun s m below related stack => ?_
  obtain ⟨results, typed⟩ := exists_blockType runnable leaves
  simp only [Instr.exec, typed, Machine.popCondition, stack, List.map_cons, List.map_nil,
    List.reverse_cons, List.reverse_nil, List.nil_append, List.cons_append, List.length_nil]
  cases c with
  | i32 c =>
    by_cases zero : c = 0
    · subst zero
      exact no.ends_enter results.length (m := { m with stack := below }) { related with }
    · have chosen : decide (c ≠ 0) = true := decide_eq_true zero
      simp only [chosen, condition, bind_apply, if_true]
      exact yes.ends_enter results.length (m := { m with stack := below }) { related with }
  | i64 | f32 | f64 => exact ⟨rfl, related.store⟩

omit runnable in
theorem ifThen (yes : Runs v l K Γ e [] first meant 0) (c : Value) :
    Runs v l K Γ e [c] [.ifThen .empty first]
      (condition [c] >>= fun b => if b then meant else pure []) 0 := by
  refine of_step fun s m below related stack => ?_
  simp only [Instr.exec, Env.blockType?, Machine.popCondition, stack, List.map_cons, List.map_nil,
    List.reverse_cons, List.reverse_nil, List.nil_append, List.cons_append, List.length_nil]
  cases c with
  | i32 c =>
    by_cases zero : c = 0
    · subst zero
      exact ⟨rfl, { related with }, rfl⟩
    · have chosen : decide (c ≠ 0) = true := decide_eq_true zero
      simp only [chosen, condition, bind_apply, if_true]
      exact yes.ends_enter 0 (m := { m with stack := below }) { related with }
  | i64 | f32 | f64 => exact ⟨rfl, related.store⟩

end

def Tested (v : Setting) (l : Layout) (K : Tables) (Γ : Surroundings) :
    Bool → State → Outcome → Prop
  | true, s, .next m => Related v l K Γ s m ∧ m.stack = []
  | false, s, .branch 1 m => Related v l K Γ s m
  | _, _, _ => False

theorem Tested.of_branch {go : Bool} {s : State} {label : Nat} {m : Machine}
    (tested : Tested v l K Γ go s (.branch label m)) :
    go = false ∧ label = 1 ∧ Related v l K Γ s m := by
  cases go with
  | true => exact tested.elim
  | false =>
    rcases label with _ | _ | label
    · exact tested.elim
    · exact ⟨rfl, rfl, tested⟩
    · exact tested.elim

/-- The code of a loop has left the loop, for the label of the block around it. -/
def Repeated (v : Setting) (l : Layout) (K : Tables) (Γ : Surroundings) (value : List Value)
    (s : State) : Outcome → Prop
  | .branch 0 m => value = [] ∧ Related v l K Γ s m
  | _ => False

theorem ends_test (test : Runs v l K Γ e [] code meant 1) {s : State} {m : Machine}
    (related : Related v l K Γ s m) (empty : m.stack = []) :
    Ends v l Γ (Tested v l K Γ) ((meant >>= condition) s)
      (Instr.execSeq (code ++ [Instr.unary (.eqz .w32), .brIf 1]) e m) := by
  rw [bind_apply]
  rcases (test s m [] related empty).cases with ⟨value, s', meaning, pushed⟩ | ⟨stopped, same⟩
  · obtain ⟨m', run, length, related', stack⟩ := pushed.exists_next
    obtain ⟨c, rfl⟩ := List.length_eq_one_iff.1 length
    rw [meaning, Instr.execSeq_append_next run]
    simp only [Instr.execSeq, Instr.exec, Machine.unary, stack, List.map_cons, List.map_nil,
      List.reverse_cons, List.reverse_nil, List.nil_append, List.cons_append, Machine.pushResult]
    cases c with
    | i32 c =>
      by_cases zero : c = 0
      · subst zero
        exact { related' with }
      · have unequal : (c == 0) = false := beq_eq_false_iff_ne.2 zero
        have going : decide (c ≠ 0) = true := decide_eq_true zero
        simp only [UnOp.eval, unequal, Value.ofBool, Machine.popCondition, Ending.andThen, condition,
          going]
        exact ⟨{ related' with }, rfl⟩
    | i64 | f32 | f64 => exact ⟨rfl, related'.store⟩
  · rw [stopped.append]
    exact same _ _ _

/-- Going through a loop's code again and again is what repeating is meant to be. -/
theorem ends_repeatLoop (test : Runs v l K Γ e [] first meant 1) (body : Runs v l K Γ e [] second other 0)
    (rounds : Nat) {s : State} {m : Machine} (related : Related v l K Γ s m) (empty : m.stack = []) :
    Ends v l Γ (Repeated v l K Γ) (Surroundings.repeatWhile (meant >>= condition) other rounds s)
      (m.repeatLoop 0
        (Instr.execSeq (first ++ [Instr.unary (.eqz .w32), .brIf 1] ++ (second ++ [Instr.br 0])) e)
        rounds) := by
  induction rounds generalizing s m with
  | zero => trivial
  | succ rounds ih =>
    rw [Surroundings.repeatWhile, bind_apply]
    rcases (ends_test test related empty).cases with ⟨go, s', meaning, tested⟩ | ⟨stopped, same⟩
    · rw [meaning]
      cases run : Instr.execSeq (first ++ [Instr.unary (.eqz .w32), .brIf 1]) e m with
      | next m' =>
        rw [run] at tested
        cases go with
        | false => exact tested.elim
        | true =>
          obtain ⟨related', empty'⟩ := tested
          have whole := Instr.execSeq_append_next run (second ++ [Instr.br 0])
          simp only [Ending.andThen, if_true, bind_apply]
          -- the body comes next, and then the next round
          rcases (body s' m' [] related' empty').cases with
            ⟨value, s'', meaning', pushed⟩ | ⟨stopped, same⟩
          · obtain ⟨m'', run', _, related'', _⟩ := pushed.exists_next
            simp only [Machine.repeatLoop, whole, meaning', Instr.execSeq_append_next run',
              Instr.execSeq_singleton, Instr.exec]
            exact ih { related'' with } rfl
          · have around := whole.trans (stopped.append [.br 0])
            have stopped' := around.symm ▸ stopped
            rw [stopped'.repeatLoop, around]
            exact same _ _ _
      | branch label m' =>
        rw [run] at tested
        obtain ⟨rfl, rfl, related'⟩ := tested.of_branch
        simp only [Machine.repeatLoop, Instr.execSeq_append, run]
        exact ⟨rfl, related'⟩
      | ret | tail | trap | exhausted =>
        rw [run] at tested
        cases go <;> exact tested.elim
    · have around := stopped.append (second ++ [Instr.br 0])
      have stopped' := around.symm ▸ stopped
      rw [stopped'.repeatLoop, around]
      exact same _ _ _

/-- A loop within a block of its own. -/
theorem loop (test : Runs v l K Γ e [] first meant 1) (body : Runs v l K Γ e [] second other 0) :
    Runs v l K Γ e []
      [.block .empty [.loop .empty
        (first ++ [Instr.unary (.eqz .w32), .brIf 1] ++ (second ++ [Instr.br 0]))]]
      (Surroundings.repeatWhile (meant >>= condition) other e.rounds) 0 := by
  refine of_step fun s m below related stack => ?_
  have start : Related v l K Γ s { m with stack := [] } := { related with }
  have ends := ends_repeatLoop test body e.rounds start rfl
  simp only [Instr.exec, Env.blockType?, Instr.execSeq, List.length_nil, Machine.enter,
    Machine.enterLoop, List.take_zero, List.drop_zero]
  rcases ends.cases with ⟨value, s', meaning, repeated⟩ | ⟨stopped, same⟩
  · rw [meaning]
    generalize Machine.repeatLoop _ _ _ _ = o at repeated ⊢
    cases o with
    | branch label m' =>
      cases label with
      | zero =>
        obtain ⟨rfl, related'⟩ := repeated
        exact ⟨rfl, { related' with }, stack⟩
      | succ => exact repeated.elim
    | next | ret | tail | trap | exhausted => exact repeated.elim
  · have ends := same _ Ending.value (Pushed v l K Γ 0 below)
    rw [Ending.andThen_value] at ends
    generalize Machine.repeatLoop _ _ _ _ = o at stopped ends ⊢
    cases o with
    | ret | trap | exhausted => exact ends
    | next | branch | tail => exact stopped.elim

end Runs

end WasmBuilder.Meaning
