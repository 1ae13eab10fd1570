import Mathlib
import WasmBuilder.Proofs.Course.Build
import WasmBuilder.Wasm.Instance

/-!
What can be told of an instance from outside.
-/

set_option autoImplicit false

namespace WasmBuilder

namespace Wasm.Instance

/-- What calls of exports answer, one after the other, and the instance behind the last of them. -/
def answers (bounds : Bounds) :
    List (String × List Value) → Instance → List (Except RunError (List Value)) × Instance
  | [], i => ([], i)
  | (name, args) :: rest, i =>
    match Instance.call bounds name args i with
    | .ok values i =>
      let (others, last) := answers bounds rest i
      (.ok values :: others, last)
    | .error e i =>
      let (others, last) := answers bounds rest i
      (.error e :: others, last)

end Wasm.Instance

namespace Session

theorem reached_raw {build : Build} {opening : Opening} {body : Body} {handed : List Operand}
    (reached : Reached (fun _ _ => True) ⟨build, some (opening, body), handed⟩)
    (entries : List (Node × Shape)) :
    ∃ handed, Reached (fun _ _ => True) ⟨build, some (opening, { body with
      arena := ⟨body.arena.entries ++ (entries.map fun e => ⟨e.1, some e.2⟩).toArray⟩ }), handed⟩ := by
  induction entries generalizing body handed with
  | nil => exact ⟨handed, by simpa using reached⟩
  | cons e rest ih =>
    have added : (Body.Step.raw e.1 e.2).run body =
        .ok (some (.ofShape body.arena.size e.2))
          { body with arena := body.arena.push e.1 (some e.2) } := rfl
    obtain ⟨handed, more⟩ := ih (reached.take rfl (.raw e.1 e.2) trivial added)
    exact ⟨handed, by simpa [Arena.push] using more⟩

/-- Two numbers are spilled behind a return, and three elsewhere. A field is read that the variable
of one number does not have. -/
def pastVariable : Build where
  arena := ⟨#[
    ⟨.localGet 0 (.num .i32), some (.num .i32)⟩,
    ⟨.const (.i32 10), some (.num .i32)⟩,
    ⟨.const (.i32 20), some (.num .i32)⟩,
    ⟨.const (.i32 30), some (.num .i32)⟩,
    ⟨.const (.f32 0), some (.num .f32)⟩,
    ⟨.group [1, 4], some (.tuple [.num .i32, .num .f32])⟩,
    ⟨.extract 5 0 0 1, some (.num .i32)⟩,
    ⟨.group [1, 2, 3], some (.tuple [.num .i32, .num .i32, .num .i32])⟩,
    ⟨.extract 7 0 0 1, some (.num .i32)⟩,
    ⟨.ret (some 1), some .none⟩,
    ⟨.choose 0 [9, 6] [] .none, some .none⟩,
    ⟨.extract 0 0 3 1, some (.num .i32)⟩,
    ⟨.ret (some 11), some .none⟩]⟩
  functions := #[⟨"f", [], .num .i32,
    .defined ⟨#[⟨"x", .num .i32, .local⟩]⟩ [10, 8, 12]⟩]
  callables := #[⟨"f", 0, .direct, [], .num .i32⟩]
  exports := [("f", 0)]

def readingPast : Build.Draft where
  isIndirect := false
  id := "f"
  decl := { id := some "f", locals := [("x", .num .i32)], result := .num .i32 }

def readPast : Body :=
  { Build.newBody {} readingPast.scope .local (.num .i32) with
    arena := pastVariable.arena
    statements := [10, 8, 12] }

theorem reached_pastVariable :
    ∃ handed, Reached (fun _ _ => True) ⟨pastVariable, none, handed⟩ := by
  have opened : Reached (fun _ _ => True)
      ⟨{}, some (.function readingPast, Build.newBody {} readingPast.scope .local (.num .i32)), []⟩ :=
    Reached.start.next
      (.openFunction rfl (Build.openFunction_of_free rfl (by simp [Build.isTaken, fresh])))
  obtain ⟨handed, made⟩ := reached_raw opened [
    (.localGet 0 (.num .i32), .num .i32),
    (.const (.i32 10), .num .i32),
    (.const (.i32 20), .num .i32),
    (.const (.i32 30), .num .i32),
    (.const (.f32 0), .num .f32),
    (.group [1, 4], .tuple [.num .i32, .num .f32]),
    (.extract 5 0 0 1, .num .i32),
    (.group [1, 2, 3], .tuple [.num .i32, .num .i32, .num .i32]),
    (.extract 7 0 0 1, .num .i32),
    (.ret (some 1), .none),
    (.choose 0 [9, 6] [] .none, .none),
    (.extract 0 0 3 1, .num .i32)]
  have run := made.take rfl (.exec [10, 8]) trivial rfl
  have read : Reached (fun _ _ => True) ⟨{}, some (.function readingPast, readPast), handed⟩ :=
    run.take rfl (.giveResult [11]) trivial rfl
  have left : Build.left (Opening.close (.function readingPast) readPast) {} =
      { pastVariable with exports := [], pending := [0] } := by
    rw [Build.left, Opening.close]
    simp only [bind, EStateM.bind, Build.closeFunction_run]
    rfl
  exact ⟨_, (read.close rfl left).chore rfl (.exportAs "f" 0) rfl⟩

def spillingModule (scratch : List NumType) (code : List Wasm.Instr) : Wasm.Module where
  types := [⟨[], [.num .i32]⟩]
  funcs := [⟨0, (.i32 :: scratch).map .num, code⟩]
  exports := [⟨"f", .func, 0⟩]

def answersMade (calls : List (String × List Value)) :
    EStateM.Result Wasm.Halt (List HostCall) Wasm.Instance →
      Option (List (Except Wasm.RunError (List Value)))
  | .ok i _ => some (i.answers {} calls).1
  | .error .. => none

theorem exists_of_answersMade {run : EStateM.Result Wasm.Halt (List HostCall) Wasm.Instance}
    {calls : List (String × List Value)} {answers : List (Except Wasm.RunError (List Value))}
    (made : answersMade calls run = some answers) :
    ∃ i journal, run = .ok i journal ∧ (i.answers {} calls).1 = answers := by
  cases run with
  | ok i journal => exact ⟨i, journal, rfl, Option.some.inj made⟩
  | error => cases made

/-- A field past its variable is a scratch local, and simplification moves these. -/
theorem field_past_variable_differs : ∃ (s : Session) (m n : Wasm.Module) (c d : Build),
    Reached (fun _ _ => True) s ∧ s.body = none ∧
    Build.assemble ⟨false, true, none, none⟩ s.build = .ok m c ∧
    Build.assemble ⟨true, true, none, none⟩ s.build = .ok n d ∧
    ∃ (i j : Wasm.Instance) (journal journal' : List HostCall),
      Wasm.instantiate m {} {} [] = .ok i journal ∧ Wasm.instantiate n {} {} [] = .ok j journal' ∧
      (i.answers {} [("f", [])]).1 = [.ok [.i32 20]] ∧
      (j.answers {} [("f", [])]).1 = [.ok [.i32 30]] := by
  obtain ⟨handed, reached⟩ := reached_pastVariable
  let m := spillingModule [.i32, .f32, .i32, .i32]
    [.localGet 0, .ifThen .empty [.const (.i32 10), .ret, .const (.i32 10), .const (.f32 0),
      .localSet 2, .localSet 1, .localGet 1, .drop], .const (.i32 10), .const (.i32 20),
      .const (.i32 30), .localSet 4, .localSet 3, .localSet 1, .localGet 1, .drop, .localGet 3, .ret]
  let n := spillingModule [.i32, .i32, .i32]
    [.localGet 0, .ifThen .empty [.const (.i32 10), .ret], .const (.i32 10), .const (.i32 20),
      .const (.i32 30), .localSet 3, .localSet 2, .localSet 1, .localGet 1, .drop, .localGet 3, .ret]
  have plain : Build.assemble ⟨false, true, none, none⟩ pastVariable = .ok m pastVariable :=
    Build.assemble_of_lower rfl rfl (by cbv) fun _ => by decide +kernel
  have simplified : Build.assemble ⟨true, true, none, none⟩ pastVariable = .ok n
      { pastVariable with arena := ⟨pastVariable.arena.entries.set! 10
        ⟨.choose 0 [9] [] .none, some .none⟩⟩ } :=
    Build.assemble_of_lower rfl (by cbv) (by cbv) fun _ => by decide +kernel
  obtain ⟨i, journal, made, answers⟩ := exists_of_answersMade
    (show answersMade [("f", [])] (Wasm.instantiate m {} {} []) = some [.ok [.i32 20]] by
      decide +kernel)
  obtain ⟨j, journal', made', answers'⟩ := exists_of_answersMade
    (show answersMade [("f", [])] (Wasm.instantiate n {} {} []) = some [.ok [.i32 30]] by
      decide +kernel)
  exact ⟨_, m, n, _, _, reached, rfl, plain, simplified, i, j, journal, journal', made, made',
    answers, answers'⟩

end Session

end WasmBuilder
