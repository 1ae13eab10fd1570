import WasmBuilder.Wasm.Program

/-!
Where control goes in a sequence, in a block, in a loop and behind a body.
-/

set_option autoImplicit false

namespace WasmBuilder.Wasm

namespace Outcome

def Stopped : Outcome → Prop
  | .ret _ | .trap _ _ | .exhausted => True
  | _ => False

end Outcome

variable {e : Env} {m : Machine}

theorem Instr.execSeq_append (e : Env) (first second : List Instr) (m : Machine) :
    Instr.execSeq (first ++ second) e m =
      match Instr.execSeq first e m with
      | .next m => Instr.execSeq second e m
      | o => o := by
  induction first generalizing m with
  | nil => rfl
  | cons i rest ih =>
    simp only [List.cons_append, Instr.execSeq]
    cases i.exec e m with
    | next m => exact ih m
    | branch | ret | tail | trap | exhausted => rfl

theorem Instr.execSeq_singleton (e : Env) (i : Instr) (m : Machine) :
    Instr.execSeq [i] e m = i.exec e m := by
  simp only [Instr.execSeq]
  cases i.exec e m <;> rfl

theorem Instr.execSeq_append_next {first : List Instr} {m' : Machine}
    (run : Instr.execSeq first e m = .next m') (second : List Instr) :
    Instr.execSeq (first ++ second) e m = Instr.execSeq second e m' := by
  rw [execSeq_append, run]

namespace Outcome.Stopped

theorem append {first : List Instr} (stopped : (Instr.execSeq first e m).Stopped)
    (second : List Instr) : Instr.execSeq (first ++ second) e m = Instr.execSeq first e m := by
  rw [Instr.execSeq_append]
  cases run : Instr.execSeq first e m with
  | next | branch | tail => simp [run, Stopped] at stopped
  | ret | trap | exhausted => rfl

variable {body : Machine → Outcome}

theorem enter {params : Nat} (stopped : (body { m with stack := m.stack.take params }).Stopped)
    (arity : Nat) : m.enter params arity body = body { m with stack := m.stack.take params } := by
  unfold Machine.enter
  cases run : body { m with stack := m.stack.take params } with
  | next | branch | tail => simp [run, Stopped] at stopped
  | ret | trap | exhausted => rfl

theorem repeatLoop {params : Nat} (stopped : (body m).Stopped) (rounds : Nat) :
    m.repeatLoop params body (rounds + 1) = body m := by
  unfold Machine.repeatLoop
  cases run : body m with
  | next | branch | tail => simp [run, Stopped] at stopped
  | ret | trap | exhausted => rfl

end Outcome.Stopped

/-- A body that ends a call by itself, and names no function to go on with. -/
def CallOutcome.body : CallOutcome → BodyOutcome
  | .done results s => .done results s
  | .trap cause s => .trap cause s
  | .exhausted => .exhausted

theorem Program.runChain_of_body {run : Nat → Store → List Datum → BodyOutcome} {f : Nat} {s : Store}
    {args : List Datum} {o : CallOutcome} (ends : run f s args = o.body) (rounds : Nat) :
    Program.runChain run (rounds + 1) f s args = o := by
  rw [Program.runChain, ends]
  cases o <;> rfl

end WasmBuilder.Wasm
