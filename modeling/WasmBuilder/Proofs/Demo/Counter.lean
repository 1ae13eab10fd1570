import WasmBuilder.Proofs.Demo.Compiled
import WasmBuilder.Proofs.Simplify.Agreement

/-!
What the counter answers, call after call.

The start function has set the count and the stride when calls begin. A call takes a store where the
count is some number and the stride is one to another such store, so that this holds along any calls.
-/

set_option autoImplicit false

namespace WasmBuilder.Demo

open Wasm (Bounds Datum FuncInstance Instance Instr Machine)

def nextCode : List Instr :=
  [.globalGet 0, .globalGet 1, .binary (.intArith .w32 .add), .globalSet 0, .globalGet 0, .ret]

def resetCode : List Instr := [.localGet 0, .globalSet 0]

def setupCode (start : BitVec 32) : List Instr :=
  [.const (.i32 start), .globalSet 0, .const (.i32 1), .globalSet 1]

def counterModule (start : BitVec 32) : Wasm.Module where
  types := [⟨[], [.num .i32]⟩, ⟨[.num .i32], []⟩, ⟨[], []⟩]
  funcs := [⟨0, [], nextCode⟩, ⟨1, [], resetCode⟩, ⟨2, [], setupCode start⟩]
  globals := [⟨⟨.num .i32, true⟩, [.const (.i32 0)]⟩, ⟨⟨.num .i32, true⟩, [.const (.i32 0)]⟩]
  exports := [⟨"next", .func, 0⟩, ⟨"reset", .func, 1⟩]
  start := some 2

def Arguments.start (args : Arguments) : BitVec 64 := args.integer "start" 0

def counterBuild (args : Arguments) : Build := Build.left (mount .counter args) {}

def counterStore (count stride : BitVec 32) (journal : List HostCall) : Wasm.Store :=
  { globals := #[.i32 count, .i32 stride], memories := #[], journal }

def counterInstance (start : BitVec 32) (store : Wasm.Store) : Instance where
  exports := (counterModule start).exports
  program :=
    { types := (counterModule start).types.toArray
      funcs := #[.code ⟨[], [.num .i32]⟩ [] nextCode, .code ⟨[.num .i32], []⟩ [] resetCode,
        .code ⟨[], []⟩ [] (setupCode start)]
      frames := #[1, 1, 1]
      memories := #[] }
  store
  memories := []

section
variable (args : Arguments)

set_option maxRecDepth 10000 in
theorem mount_counter :
    mount .counter args {} = .ok ⟨[("next", 0), ("reset", 1)]⟩ (counterBuild args) := by
  cbv

set_option maxRecDepth 10000 in
theorem lowersTo_counterModule :
    (counterBuild args).LowersTo (counterModule (args.start.setWidth 32)) where
  usable := by cbv
  settled := by cbv
  lowered := by cbv

set_option maxRecDepth 10000 in
theorem created_counterBuild :
    Wasm.createMemories (Wasm.offeredMemories (counterBuild args).imports) = .ok [] := by
  cbv

set_option maxRecDepth 10000 in
theorem link_counterModule (start : BitVec 32) (journal : List HostCall) :
    Wasm.link (counterModule start) (counterBuild args).imports
      (Wasm.offeredNumbers (counterBuild args).imports) [] journal =
      some (counterInstance start (counterStore 0 0 journal)) := by
  cbv

end

section
variable (start : BitVec 32)

set_option maxRecDepth 10000 in
theorem isValid_counterModule : (counterModule start).isValid = true := by cbv

set_option maxRecDepth 10000 in
theorem length_encode_setup :
    (Wasm.Func.encode ⟨2, [], setupCode start⟩).length ≤ 2 * (10 + (6 + 20)) + 1 := by
  have literal : (Wasm.Leb128.signed start.toInt).length ≤ 5 := by
    have least := start.le_toInt
    have bound := start.toInt_lt
    exact Wasm.length_signed_le 4 (by omega)
  have runs : (Wasm.encodeVec (fun r => Wasm.Leb128.unsigned r.1 ++ [Wasm.ValType.code r.2])
      (Wasm.groupRuns [])).length ≤ 10 := by cbv
  have rest : (Wasm.encodeExpr [.globalSet 0, .const (.i32 1), .globalSet 1]).length ≤ 20 := by cbv
  have body : Wasm.encodeExpr (setupCode start) = 0x41 :: Wasm.Leb128.signed start.toInt ++
      Wasm.encodeExpr [.globalSet 0, .const (.i32 1), .globalSet 1] := by
    simp [setupCode, Wasm.encodeExpr, Instr.encodeSeq, Instr.encode, Instr.encodeConst]
  rw [Wasm.Reads.encode_func]
  refine Nat.le_trans (Wasm.length_encodeBytes_le _) ?_
  rw [List.length_append, body, List.length_append, List.length_cons]
  dsimp only
  omega

set_option maxRecDepth 10000 in
theorem length_encode_counterModule : (counterModule start).encode.length < 2 ^ 32 := by
  -- only the start function depends on the start
  have others : ([Wasm.itemSection 1 Wasm.FuncType.encode (counterModule 0).types,
      Wasm.itemSection 3 (fun f => Wasm.Leb128.unsigned f.typeIndex) (counterModule 0).funcs,
      Wasm.itemSection 6 Wasm.Global.encode (counterModule 0).globals,
      Wasm.itemSection 7 Wasm.Export.encode (counterModule 0).exports,
      (8, Wasm.Leb128.unsigned 2)].flatMap fun s => Wasm.frame s.1 s.2).length ≤ 200 := by cbv
  have next : (Wasm.Func.encode ⟨0, [], nextCode⟩).length ≤ 20 := by cbv
  have reset : (Wasm.Func.encode ⟨1, [], resetCode⟩).length ≤ 20 := by cbv
  have setup := length_encode_setup start
  have number := Wasm.length_unsigned_le (0 + 1 + 1 + 1)
  have code : (Wasm.itemSection 10 Wasm.Func.encode (counterModule start).funcs).2.length ≤ 200 := by
    simp only [Wasm.itemSection, counterModule, Wasm.encodeVec, List.length_append, List.flatMap_cons,
      List.flatMap_nil, List.length_cons, List.length_nil]
    omega
  have all := Wasm.length_encode_le (m := counterModule start) [_, _, _, _, _] [] rfl others code
  omega

end

section
variable {bounds : Bounds} (room : 0 < bounds.room) (rounds : 0 < bounds.rounds)

include room rounds

theorem started_counterInstance (start : BitVec 32) (journal : List HostCall) :
    (counterInstance start (counterStore 0 0 journal)).started bounds (some 2) journal =
      .ok (counterInstance start (counterStore start 1 journal)) journal := by
  have body : Wasm.runBody ((counterInstance start (counterStore 0 0 journal)).bodyEnv bounds 2)
      ⟨[], []⟩ [] (setupCode start) (counterStore 0 0 journal) [] =
      (Wasm.CallOutcome.done [] (counterStore start 1 journal)).body := rfl
  have run : (counterInstance start (counterStore 0 0 journal)).invoke bounds 2 [] =
      .done [] (counterStore start 1 journal) :=
    Instance.invoke_of_body (i := counterInstance start (counterStore 0 0 journal)) (f := 2) rfl room
      room rounds body
  rw [Instance.started, run]
  rfl

theorem start_counterBuild (args : Arguments) (optimize validate : Bool) (journal : List HostCall) :
    Build.start { optimize, validate } bounds (counterBuild args, journal) =
      .ok (counterInstance (args.start.setWidth 32) (counterStore (args.start.setWidth 32) 1 journal))
        (counterBuild args, journal) :=
  (lowersTo_counterModule args).starts optimize validate (isValid_counterModule _)
    (length_encode_counterModule _) (created_counterBuild args)
    (link_counterModule args _ journal) (started_counterInstance room rounds _ journal)

end

inductive CounterCall where
  | next
  | reset (v : BitVec 32)
  deriving DecidableEq

namespace CounterCall

def request : CounterCall → String × List Value
  | next => ("next", [])
  | reset v => ("reset", [.i32 v])

def sets (latest : Int) : CounterCall → Int
  | next => latest + 1
  | reset v => v.toInt

def answer (latest : Int) : CounterCall → List Value
  | next => [.i32 (BitVec.ofInt 32 (latest + 1))]
  | reset _ => []

/-- What calls answer, one after the other, where each goes on from what was set last. -/
def answers (latest : Int) : List CounterCall → List (Except Wasm.RunError (List Value))
  | [] => []
  | c :: rest => .ok (c.answer latest) :: answers (c.sets latest) rest

end CounterCall

section
variable {bounds : Bounds} (room : 0 < bounds.room) (rounds : 0 < bounds.rounds) {start : BitVec 32}
  (latest : Int) (journal : List HostCall)

include room rounds

/-- A call answers by what was set last, and sets the count for the next one. -/
theorem call_counterInstance (c : CounterCall) :
    Instance.call bounds c.request.1 c.request.2
        (counterInstance start (counterStore (BitVec.ofInt 32 latest) 1 journal)) =
      .ok (c.answer latest)
        (counterInstance start (counterStore (BitVec.ofInt 32 (c.sets latest)) 1 journal)) := by
  cases c with
  | next =>
    have offers : (counterInstance start (counterStore (BitVec.ofInt 32 latest) 1 journal)).Offers
        "next" 0 ⟨[], [.num .i32]⟩ [] nextCode :=
      ⟨rfl, rfl, by simp [Instance.funcType?, counterInstance, FuncInstance.type]⟩
    -- the stride is one, since the start function has set it
    have sum : BitVec.ofInt 32 (latest + 1) = BitVec.ofInt 32 latest + 1 := BitVec.ofInt_add latest 1
    have fits : [] = ([] : List Value).map fun v => Wasm.ValType.num v.type := rfl
    rw [CounterCall.answer, CounterCall.sets, sum]
    exact offers.returns fits room room rounds (.inl rfl) (Nat.le_refl 1)
  | reset v =>
    have offers : (counterInstance start (counterStore (BitVec.ofInt 32 latest) 1 journal)).Offers
        "reset" 1 ⟨[.num .i32], []⟩ [] resetCode :=
      ⟨rfl, rfl, by simp [Instance.funcType?, counterInstance, FuncInstance.type]⟩
    have fits : [.num .i32] = [Value.i32 v].map fun v => Wasm.ValType.num v.type := rfl
    rw [CounterCall.sets, BitVec.ofInt_toInt]
    exact offers.returns fits room room rounds (.inr rfl) (Nat.le_refl 0)

theorem answers_counterInstance (calls : List CounterCall) :
    (Instance.answers bounds (calls.map (·.request))
        (counterInstance start (counterStore (BitVec.ofInt 32 latest) 1 journal))).1 =
      CounterCall.answers latest calls := by
  -- only the count changes from call to call, and it is what was set last
  induction calls generalizing latest with
  | nil => rfl
  | cons c rest ih =>
    rw [List.map_cons, Instance.answers, call_counterInstance room rounds latest journal c]
    dsimp only
    rw [ih (c.sets latest), CounterCall.answers]

end

/-- The counter is loaded with its start, and every call of `next` answers one more than what was set
last, by loading, by resetting or by the call of `next` before it. -/
theorem counter_keeps_count (args : Arguments) (optimize validate : Bool) (bounds : Bounds)
    (room : 0 < bounds.room) (rounds : 0 < bounds.rounds) (journal : List HostCall) :
    ∃ library b i, mount .counter args {} = .ok library b ∧
      Build.start { optimize, validate } bounds (b, journal) = .ok i (b, journal) ∧
      ∀ calls : List CounterCall, (i.answers bounds (calls.map (·.request))).1 =
        CounterCall.answers (args.integer "start" 0).toInt calls := by
  refine ⟨_, counterBuild args, _, mount_counter args,
    start_counterBuild room rounds args optimize validate journal, fun calls => ?_⟩
  -- the literal of the start function keeps the lower half
  have wraps : BitVec.ofInt 32 args.start.toInt = args.start.setWidth 32 :=
    BitVec.signExtend_eq_setWidth_of_le _ (by decide)
  rw [← wraps]
  exact answers_counterInstance room rounds args.start.toInt journal calls

/-- A start that is truncated and wraps, a count that goes beyond the highest number, and resets. -/
theorem counter_keeps_count_of_wrapping : ∃ library b i,
    mount .counter [("start", .int 0x17ffffffe)] {} = .ok library b ∧
    Build.start { optimize := false } {} (b, []) = .ok i (b, []) ∧
    (i.answers {} ([.next, .next, .reset 0xffffffff, .next, .next, .reset 7, .reset 40, .next].map
        CounterCall.request)).1 =
      [.ok [.i32 0x7fffffff], .ok [.i32 0x80000000], .ok [], .ok [.i32 0], .ok [.i32 1], .ok [],
        .ok [], .ok [.i32 41]] := by
  obtain ⟨library, b, i, mounted, started, all⟩ := counter_keeps_count
    [("start", .int 0x17ffffffe)] false true {} (by decide) (by decide) []
  exact ⟨library, b, i, mounted, started, all _⟩

end WasmBuilder.Demo
