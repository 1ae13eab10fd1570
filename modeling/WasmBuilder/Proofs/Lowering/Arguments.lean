import WasmBuilder.Proofs.Course.Session
import WasmBuilder.Proofs.Lowering.Dispatch
import WasmBuilder.Proofs.Simplify.Agreement
import WasmBuilder.Proofs.Variables.Delivered

/-!
Arguments of calls, and the parameters that they land in.

The code of a call is the code of its arguments, one behind the other, and whatever they leave is what
the callable gets. It takes these numbers apart by the shapes of its parameters alone. So arguments
land in their parameters where each leaves as many numbers as its parameter takes, and only there.
-/

set_option autoImplicit false

namespace WasmBuilder

open Lower (CallsPlaced CodeWithin Codes IndexSpaces Lies bases moduleLayout)
open Wasm (Datum Env Instr Machine Outcome)

namespace Wasm

variable {e : Env} {codes : List (List Instr)} {values : List (List Value)} {m m' : Machine}

/-- Pieces of code in a row, each of which leaves some numbers above what it finds. -/
inductive Leaves (e : Env) : List (List Instr) → List (List Value) → Machine → Machine → Prop
  | nil {m : Machine} : Leaves e [] [] m m
  | cons {code : List Instr} {codes : List (List Instr)} {own : List Value}
      {values : List (List Value)} {m m' m'' : Machine} (first : Instr.execSeq code e m = .next m')
      (stack : m'.stack = (own.map Datum.num).reverse ++ m.stack)
      (rest : Leaves e codes values m' m'') : Leaves e (code :: codes) (own :: values) m m''

/-- All of it leaves all of the numbers. -/
theorem Leaves.execSeq (leaves : Leaves e codes values m m') :
    Instr.execSeq codes.flatten e m = .next m' ∧
      m'.stack = (values.flatten.map Datum.num).reverse ++ m.stack := by
  induction leaves with
  | nil => simp [Instr.execSeq]
  | cons first stack rest ih =>
    obtain ⟨others, all⟩ := ih
    constructor
    · rw [List.flatten_cons, Instr.execSeq_append_next first, others]
    · simp [all, stack]

def Machine.resume (m : Machine) (below : List Datum) : CallOutcome → Outcome
  | .done results store => .next ⟨store, m.locals, results.reverse ++ below⟩
  | .trap cause store => .trap cause store
  | .exhausted => .exhausted

theorem Machine.call_eq_resume {n : Nat} {type : FuncType} (typed : e.signatures[n]? = some type)
    {args below : List Datum} (stack : m.stack = args.reverse ++ below)
    (count : args.length = type.params.length) :
    m.call e n = m.resume below (e.call n m.store args) := by
  have taken : (m.stack.take type.params.length).reverse = args := by
    rw [stack, ← count, ← List.length_reverse, List.take_left, List.reverse_reverse]
  have left : m.stack.drop type.params.length = below := by
    rw [stack, ← count, ← List.length_reverse, List.drop_left]
  simp only [Machine.call, typed, taken, left]
  cases e.call n m.store args <;> rfl

end Wasm

theorem Lower.Codes.exists_row {sub : ExprId → List Instr → Prop} {ids : List ExprId}
    {code : List Instr} (codes : Codes sub ids code) :
    ∃ row : List (List Instr), code = row.flatten ∧ List.Forall₂ sub ids row := by
  induction codes with
  | nil => exact ⟨[], rfl, .nil⟩
  | cons first _ ih =>
    obtain ⟨row, rfl, each⟩ := ih
    exact ⟨_ :: row, rfl, .cons first each⟩

namespace Bindings

variable {params : Bindings} {i : Nat} {name : String} {shape : Shape}

def place (params : Bindings) (i : Nat) : Nat := (Bindings.flatten (params.take i)).length

def part (params : Bindings) (i : Nat) (shape : Shape) (numbers : List Value) : List Value :=
  (numbers.drop (params.place i)).take shape.width

theorem length_part (here : params[i]? = some (name, shape)) {numbers : List Value}
    (total : numbers.length = params.flatten.length) :
    (params.part i shape numbers).length = shape.width := by
  have inside := Bindings.length_take_le here
  simp only [part, place, List.length_take, List.length_drop]
  omega

/-- Where each value has the numbers of its parameter, those before a value are those before its
parameter. -/
theorem place_eq {values : List (List Value)}
    (each : List.Forall₂ (fun p own => own.length = Shape.width p.2) params values) (i : Nat) :
    params.place i = ((values.take i).flatten).length := by
  have first := List.forall₂_take i each
  unfold place Bindings.flatten
  generalize params.take i = params at first ⊢
  generalize values.take i = values at first ⊢
  induction first with
  | nil => rfl
  | cons same _ ih => simp [ih, same, Shape.width_eq]

/-- Parameters get exactly the values that stand for them when the lengths agree one by one. -/
theorem parts_iff {values : List (List Value)} (count : values.length = params.length)
    (total : values.flatten.length = params.flatten.length) :
    (∀ (i : Nat) (name : String) (shape : Shape) (own : List Value), params[i]? = some (name, shape) →
      values[i]? = some own → params.part i shape values.flatten = own) ↔
    List.Forall₂ (fun p own => own.length = Shape.width p.2) params values := by
  constructor
  · intro parts
    refine List.forall₂_iff_get.2 ⟨count.symm, fun i here there => ?_⟩
    have param : params[i]? = some (params[i].1, params[i].2) := List.getElem?_eq_getElem here
    have same := parts i _ _ _ param (List.getElem?_eq_getElem there)
    exact (congrArg List.length same).symm.trans (length_part param total)
  · intro each i name shape own here there
    obtain ⟨own', there', length⟩ := exists_getElem?_of_forall₂ each here
    cases there.symm.trans there'
    have split : values = values.take i ++ own :: values.drop (i + 1) := by
      obtain ⟨inside, value⟩ := List.getElem?_eq_some_iff.1 there
      rw [← value, ← List.drop_eq_getElem_cons inside, List.take_append_drop]
    rw [part, place_eq each, ← length]
    conv_lhs => rw [split, List.flatten_append, List.flatten_cons]
    have before : (values.take i ++ own :: values.drop (i + 1)).take i = values.take i := by
      rw [← split]
    rw [before, List.drop_left, List.take_left]

end Bindings

namespace Build

def Heads (b : Build) : Prop :=
  ∀ (k : Nat) (d : Callable) (f : Function) (scope : Scope) (body : List ExprId),
    b.callables[k]? = some d → b.functions[k]? = some f → f.kind = .defined scope body →
    scope.BeginsWith d.params

variable {b c : Build}

namespace Heads

variable (heads : b.Heads)

include heads

theorem tidies (tidies : Tidies b c) : c.Heads := by
  intro k d g scope body known there kind
  obtain ⟨f, here, becomes⟩ := tidies.function_before there
  rw [tidies.same.callables] at known
  cases becomes with
  | same => exact heads k d g scope body known here kind
  | trimmed kind' =>
    cases kind
    exact heads k d f scope _ known here kind'

theorem added (size : b.callables.size = b.functions.size) {f : Function} {kind : CallKind}
    {params : Bindings} {table : IndirectTable} {imports : Imports} {isExported : Bool}
    (begins : ∀ scope body, f.kind = .defined scope body → scope.BeginsWith params) :
    (b.added f kind params table imports isExported).Heads := by
  intro k d g scope body known there kind'
  rw [Build.added, Array.getElem?_push] at known there
  rw [size] at known
  split at known
  next last =>
    rw [if_pos last] at there
    cases known
    cases there
    exact begins scope body kind'
  next before =>
    rw [if_neg before] at there
    exact heads k d g scope body known there kind'

end Heads

end Build

namespace Session

variable {permits : Session → Body.Step → Prop} {s : Session} {options : CompileOptions}
  {c : Build} {types : List Signature} {m : Wasm.Module}

theorem heads_of_reached (reached : Reached permits s) : s.current.Heads := by
  induction reached with
  | start => simp [Build.Heads, current, fresh]
  | @next s t reached step heads =>
    have size := (matched_of_reached reached).size
    cases reached.deed step with
    | body busy still same =>
      rw [current_of_busy still, same]
      rw [current_of_busy busy] at heads
      exact heads
    | globals idle opened =>
      rw [opened]
      rwa [current_of_idle idle] at heads
    | tidy tidies => exact heads.tidies tidies
    | @function draft body _ _ _ busy idle closed =>
      rw [current_of_idle idle, closed]
      refine heads.added size fun scope statements kind => ?_
      cases kind
      exact draft.begins.grows (grows_of_reached reached busy)
    | external idle idle' declared =>
      rw [current_of_idle idle', declared]
      rw [current_of_idle idle] at heads size
      refine heads.added size fun scope statements kind => ?_
      cases kind

theorem code_of_direct {shapes : List Shape} {scratch : List NumType} {depth : Nat} {id : ExprId}
    {code : List Instr} {d : Callable} {args : List ExprId}
    (coded : CodeWithin ((moduleLayout c).withVariables shapes) ⟨types, scratch⟩ (depth + 1) id code)
    (calls : c.arena.Calls d args id) (direct : ∀ slot, d.kind ≠ .indirect slot) :
    ∃ before n, code = before ++ [Instr.call n] ∧
      Codes (CodeWithin ((moduleLayout c).withVariables shapes) ⟨types, scratch⟩ depth) args before ∧
      c.indexOf? d.func = some n := by
  obtain ⟨node, here, coded⟩ := coded
  cases calls with
  | indirect kind => exact absurd kind (direct _)
  | direct _ there =>
    cases Except.ok.inj (here.symm.trans there)
    cases coded with
    | call operands at_ => exact ⟨_, _, rfl, operands, Lower.funcIndex_eq_ok_iff.1 at_⟩

theorem code_of_localGet {l : Lower.Layout} {K : Lower.Tables} {depth id slot base : Nat}
    {shape : Shape} {code : List Instr} (coded : CodeWithin l K (depth + 1) id code)
    (here : l.arena.node id = .ok (.localGet slot shape)) (at_ : l.localBase slot = .ok base) :
    code = (List.range shape.width).map fun i => .localGet (base + i) := by
  obtain ⟨node, there, coded⟩ := coded
  cases here.symm.trans there
  cases coded with
  | localGet at' =>
    cases at_.symm.trans at'
    rfl

/-- What comes behind the arguments of a call: the index of the function, or the slot and the type of
the callable. -/
inductive CallEnd (m : Wasm.Module) (d : Callable) (n : Nat) : List Instr → Prop
  | direct (kind : ∀ slot, d.kind ≠ .indirect slot) : CallEnd m d n [.call n]
  | indirect {slot t : Nat} (kind : d.kind = .indirect slot)
      (typed : m.types[t]? = some d.signature.funcType) :
      CallEnd m d n [.const (.i32 (BitVec.ofNat 32 slot)), .callIndirect t 0]

/-- What a call of a session hands to its callable, wherever the module runs. -/
structure PassesArguments (permits : Session → Body.Step → Prop) (s : Session)
    (options : CompileOptions) (c : Build) (types : List Signature) (m : Wasm.Module) : Prop where
  spaces : IndexSpaces c options.tableExport types m
  /-- The code that `calls` is about is found in the functions of the module. -/
  placed : CallsPlaced c types m
  /-- Behind its arguments, a call is one of the function of its callable, on all numbers that they
  left. -/
  calls : ∀ (r : Session) (opening : Opening) (body next : Body) (callable : Nat)
    (args : List ExprId) (o : Operand) (handed : List Operand), Reached permits r →
    r.body = some (opening, body) → Body.call callable args body = .ok o next →
    Leads permits ⟨r.build, some (opening, next), handed⟩ s →
    ∃ d n, s.build.callables[callable]? = some d ∧ args.length = d.params.length ∧
      c.arena.Calls d args o.id ∧ c.indexOf? callable = some n ∧
      ∀ (shapes : List Shape) (scratch : List NumType) (depth : Nat) (code : List Instr),
        CodeWithin ((moduleLayout c).withVariables shapes) ⟨types, scratch⟩ (depth + 1) o.id code →
        ∃ codes last, code = codes.flatten ++ last ∧ CallEnd m d n last ∧
          List.Forall₂ (CodeWithin ((moduleLayout c).withVariables shapes) ⟨types, scratch⟩ depth)
            args codes ∧
          ∀ (host : Imports) (offered : List (ImportKey × Nat)) (made : List Wasm.Memory)
            (journal : List HostCall) (i : Wasm.Instance),
            Wasm.link m host offered made journal = some i →
            ∀ (rounds : Nat) (call : Nat → Wasm.Store → List Datum → Wasm.CallOutcome)
              (machine behind : Machine) (values : List (List Value)),
              Wasm.CallsKept i.program.signatures call → Wasm.MachineKept i.store machine →
              Wasm.Leaves (i.program.env rounds call) codes values machine behind →
              values.flatten.length = d.params.flatten.length →
              Instr.execSeq code (i.program.env rounds call) machine =
                behind.resume machine.stack (call n behind.store (values.flatten.map .num))
  /-- Of these numbers, parameters get what stands for them exactly if each argument left as many as
  its parameter takes. -/
  parts : ∀ (callable : Nat) (d : Callable) (values : List (List Value)),
    s.build.callables[callable]? = some d → values.length = d.params.length →
    values.flatten.length = d.params.flatten.length →
    ((∀ (i : Nat) (name : String) (shape : Shape) (own : List Value),
        d.params[i]? = some (name, shape) → values[i]? = some own →
        d.params.part i shape values.flatten = own) ↔
      List.Forall₂ (fun p own => own.length = Shape.width p.2) d.params values)
  /-- A function of the host gets the numbers as they are. One with a body finds the part of each
  parameter in the machine locals of the variable that stands for it. -/
  lands : ∀ (host : Imports) (offered : List (ImportKey × Nat)) (made : List Wasm.Memory)
    (journal : List HostCall) (i : Wasm.Instance),
    Wasm.link m host offered made journal = some i →
    ∀ (callable n : Nat) (d : Callable) (f : Function), s.build.callables[callable]? = some d →
      c.functions[callable]? = some f → c.indexOf? callable = some n →
      (∀ key, f.kind = .imported key → ∃ function, i.program.funcs[n]? = some (.host key function) ∧
        function.signature.funcType = d.signature.funcType) ∧
      ∀ scope body, f.kind = .defined scope body → scope.Takes d.params →
        ∃ locals code, i.program.funcs[n]? = some (.code d.signature.funcType locals code) ∧
          ∀ (k : Nat) (name : String) (shape : Shape) (base : Nat) (numbers : List Value),
            d.params[k]? = some (name, shape) → (bases scope.shapes)[k]? = some base →
            numbers.length = d.params.flatten.length →
            ((numbers.map Datum.num ++ locals.map Datum.zero).drop base).take shape.width =
              (d.params.part k shape numbers).map .num

theorem locals_of_param {params : Bindings} {scope : Scope} (begins : scope.BeginsWith params)
    (takes : scope.Takes params) {k base : Nat} {name : String} {shape : Shape}
    (here : params[k]? = some (name, shape)) (found : (bases scope.shapes)[k]? = some base)
    {numbers : List Value} (total : numbers.length = params.flatten.length) (others : List Datum) :
    ((numbers.map Datum.num ++ others).drop base).take shape.width =
      (params.part k shape numbers).map .num := by
  have inside : k < params.length := (List.getElem?_eq_some_iff.1 here).1
  have place : base = params.place k := by
    rw [Lower.length_of_bases found, begins.take_eq takes (Nat.le_of_lt inside), Bindings.place]
  have room := Bindings.length_take_le here
  rw [← Bindings.place, ← place] at room
  rw [List.drop_append_of_le_length (by rw [List.length_map]; omega),
    List.take_append_of_le_length (by simp only [List.length_drop, List.length_map]; omega),
    Bindings.part, ← place, List.map_take, List.map_drop]

/-- Whatever the callable, code of a call is that of the arguments and an end that calls the function
of the callable. -/
theorem exists_callEnd {tableExport : Option String} (lowered : c.lower tableExport = .ok m)
    (spaces : IndexSpaces c tableExport types m) (matched : c.Matched) {k n : Nat} {d : Callable}
    {f : Function} (known : c.callables[k]? = some d) (declared : c.functions[k]? = some f)
    (index : c.indexOf? k = some n) {args : List ExprId} {id : ExprId} (calls : c.arena.Calls d args id)
    {shapes : List Shape} {scratch : List NumType} {depth : Nat} {code : List Instr}
    (coded : CodeWithin ((moduleLayout c).withVariables shapes) ⟨types, scratch⟩ (depth + 1) id code) :
    ∃ before last, code = before ++ last ∧ CallEnd m d n last ∧
      Codes (CodeWithin ((moduleLayout c).withVariables shapes) ⟨types, scratch⟩ depth) args before ∧
      ∀ host offered made journal (i : Wasm.Instance),
        Wasm.link m host offered made journal = some i → ∀ rounds call machine,
        Wasm.CallsKept i.program.signatures call → Wasm.MachineKept i.store machine →
        Instr.execSeq code (i.program.env rounds call) machine =
          Instr.execSeq (before ++ [Instr.call n]) (i.program.env rounds call) machine := by
  obtain ⟨f', there, tells⟩ := matched.tells k d known
  cases declared.symm.trans there
  by_cases isIndirect : ∃ slot, d.kind = .indirect slot
  · obtain ⟨slot, kind⟩ := isIndirect
    obtain ⟨before, t, rfl, operands, typed⟩ := code_of_indirect coded calls kind
    have type : m.types[t]? = some d.signature.funcType := by
      rw [spaces.types_eq, List.getElem?_map, typed, Option.map_some]
    refine ⟨before, _, rfl, .indirect kind type, operands, ?_⟩
    intro host offered made journal i linked rounds call machine kept machineKept
    rw [tells.signature_eq] at type
    have listed := (matched.slot_iff known).1 kind
    have target := (Lower.target_of_link lowered linked listed declared index type).2
    have plain := Lower.plain_codes (fun _ _ => Lower.plain_codeWithin _ _ _) operands
    exact execSeq_of_target target plain kept machineKept
  · have direct : ∀ slot, d.kind ≠ .indirect slot := fun slot kind => isIndirect ⟨slot, kind⟩
    obtain ⟨before, n', rfl, operands, index'⟩ := code_of_direct coded calls direct
    rw [tells.func] at index'
    cases index.symm.trans index'
    exact ⟨before, _, rfl, .direct direct, operands, fun _ _ _ _ _ _ _ _ _ _ _ => rfl⟩

/-- Arguments land in their parameters: a call hands over all that its arguments leave, in order, and
each parameter gets what its argument left, provided that every argument leaves as many numbers as its
parameter takes. -/
theorem arguments_passed (reached : Reached permits s) (idle : s.body = none)
    (done : Build.assemble options s.build = .ok m c) :
    ∃ types, PassesArguments permits s options c types m := by
  have ⟨_, _, lowered, _⟩ := Build.assemble_eq_ok done
  have ⟨tidies, _⟩ := (Build.tidies_assemble options).of_ok done
  have ⟨types, spaces⟩ := Lower.indexSpaces lowered
  have later := tidies.course.later
  have matched : c.Matched := by
    have before := matched_of_reached reached
    rw [current_of_idle idle] at before
    exact before.course tidies.course
  have heads : s.build.Heads := by
    rw [← current_of_idle idle]
    exact heads_of_reached reached
  -- a callable has a function in the end, and wherever the module runs this is found at its index
  have known (k : Nat) (d : Callable) (here : s.build.callables[k]? = some d) :
      ∃ f, c.functions[k]? = some f ∧ d.Tells k f := matched.tells k d (later.callables k d here)
  refine ⟨types, spaces, spaces.callsPlaced, ?_,
    fun _ _ _ _ count total => Bindings.parts_iff count total, ?_⟩
  · intro r opening body next callable args o handed reached' busy called leads
    obtain ⟨d, known', counted, calls⟩ := Body.call_eq_ok called
    have later' := leads.later
    rw [current_of_idle idle] at later'
    rw [(orderly_of_reached reached').callables opening body busy] at known'
    have here : s.build.callables[callable]? = some d := later'.callables _ d known'
    obtain ⟨f, declared, tells⟩ := known callable d here
    obtain ⟨n, index, _⟩ := spaces.stands callable f declared
    have calls := calls.lasts (later'.lasts.trans later.lasts)
    refine ⟨d, n, here, counted, calls, index, ?_⟩
    intro shapes scratch depth code coded
    obtain ⟨before, last, rfl, ends, operands, runs⟩ := exists_callEnd lowered spaces matched
      (later.callables _ d here) declared index calls coded
    obtain ⟨codes, rfl, each⟩ := operands.exists_row
    refine ⟨codes, last, rfl, ends, each, ?_⟩
    intro host offered made journal i linked rounds call machine behind values kept machineKept
      leaves total
    obtain ⟨all, stack⟩ := leaves.execSeq
    have signature : (i.program.env rounds call).signatures[n]? = some d.signature.funcType := by
      obtain ⟨types, _, linked⟩ := Lower.linked_of_link lowered linked
      rw [tells.signature_eq]
      exact linked.signature_eq declared index
    rw [runs host offered made journal i linked rounds call machine kept machineKept,
      Instr.execSeq_append_next all, Instr.execSeq_singleton]
    apply Machine.call_eq_resume signature stack
    rw [List.length_map, total, Signature.funcType, List.length_map]
    rfl
  · intro host offered made journal i linked callable n d f here there index
    obtain ⟨f', there', tells⟩ := known callable d here
    cases there.symm.trans there'
    obtain ⟨types, _, linked⟩ := Lower.linked_of_link lowered linked
    obtain ⟨n', function, index', found, is⟩ := linked.funcs callable f there
    cases index.symm.trans index'
    constructor
    · intro key kind
      cases is with
      | @host key' function kind' typed =>
        cases kind.symm.trans kind'
        exact ⟨function, found, by rw [typed, tells.signature_eq]⟩
      | code kind' => cases kind.symm.trans kind'
    · intro scope body kind takes
      cases is with
      | host kind' => cases kind.symm.trans kind'
      | @code scope' body' g kind' code =>
        cases kind.symm.trans kind'
        have begins := heads.tidies tidies callable d f scope body (later.callables _ d here) there kind
        rw [← tells.signature_eq] at found
        exact ⟨g.locals, g.body, found, fun k name shape base numbers param at_ total =>
          locals_of_param begins takes param at_ total _⟩

/-- A function of a pair and two numbers, which returns the first of these, and one that calls it with
three of the expressions that it has: two numbers and a pair. The first is called by its index or
through the table. -/
def handing (isIndirect : Bool) (x y z : ExprId) : Build where
  arena := ⟨#[
    ⟨.localGet 1 (.num .i32), some (.num .i32)⟩,
    ⟨.ret (some 0), some .none⟩,
    ⟨.localGet 0 (.num .i32), some (.num .i32)⟩,
    ⟨.localGet 1 (.num .i32), some (.num .i32)⟩,
    ⟨.localGet 2 (.tuple [.num .i32, .num .i32]), some (.tuple [.num .i32, .num .i32])⟩] ++
    if isIndirect then #[
      ⟨.const (.i32 0), some (.num .i32)⟩,
      ⟨.callIndirect 5 [x, y, z] ⟨[.i32, .i32, .i32, .i32], [.i32]⟩, some (.num .i32)⟩,
      ⟨.ret (some 6), some .none⟩]
    else #[
      ⟨.call 0 [x, y, z] ⟨[.i32, .i32, .i32, .i32], [.i32]⟩, some (.num .i32)⟩,
      ⟨.ret (some 5), some .none⟩]⟩
  functions := #[
    ⟨"first", [.tuple [.num .i32, .num .i32], .num .i32, .num .i32], .num .i32, .defined
      ⟨#[⟨"p", .tuple [.num .i32, .num .i32], .param⟩, ⟨"x", .num .i32, .param⟩,
        ⟨"y", .num .i32, .param⟩]⟩ [1]⟩,
    ⟨"hand", [.num .i32, .num .i32, .tuple [.num .i32, .num .i32]], .num .i32, .defined
      ⟨#[⟨"a", .num .i32, .param⟩, ⟨"b", .num .i32, .param⟩,
        ⟨"q", .tuple [.num .i32, .num .i32], .param⟩]⟩ [if isIndirect then 7 else 6]⟩]
  callables := #[
    ⟨"first", 0, if isIndirect then .indirect 0 else .direct,
      [("p", .tuple [.num .i32, .num .i32]), ("x", .num .i32), ("y", .num .i32)], .num .i32⟩,
    ⟨"hand", 1, .direct, [("a", .num .i32), ("b", .num .i32), ("q", .tuple [.num .i32, .num .i32])],
      .num .i32⟩]
  table := ⟨if isIndirect then #[(0, ⟨0, "first",
    [("p", .tuple [.num .i32, .num .i32]), ("x", .num .i32), ("y", .num .i32)], .num .i32⟩)] else #[]⟩
  exports := [("hand", 1)]
  pending := [0]

def firstDraft (isIndirect : Bool) : Build.Draft where
  isIndirect := isIndirect
  id := "first"
  decl := { id := some "first", result := .num .i32, params :=
    [("p", .tuple [.num .i32, .num .i32]), ("x", .num .i32), ("y", .num .i32)] }

def handDraft : Build.Draft where
  isIndirect := false
  id := "hand"
  decl := { id := some "hand", result := .num .i32, params :=
    [("a", .num .i32), ("b", .num .i32), ("q", .tuple [.num .i32, .num .i32])] }

def firstBuild (isIndirect : Bool) : Build where
  arena := ⟨(handing isIndirect 0 0 0).arena.entries.take 2⟩
  functions := (handing isIndirect 0 0 0).functions.take 1
  callables := (handing isIndirect 0 0 0).callables.take 1
  table := (handing isIndirect 0 0 0).table
  pending := [0]

theorem reached_firstBuild (isIndirect : Bool) :
    ∃ handed, Reached (fun _ _ => True) ⟨firstBuild isIndirect, none, handed⟩ := by
  have opened : Reached (fun _ _ => True) ⟨{}, some (.function (firstDraft isIndirect),
      Build.newBody {} (firstDraft isIndirect).scope .local (.num .i32)), []⟩ :=
    Reached.start.next
      (.openFunction rfl (Build.openFunction_of_free rfl (by simp [Build.isTaken, fresh])))
  have read := opened.take rfl (.read "x") trivial rfl
  have given := read.take rfl (.giveResult [0]) trivial rfl
  refine ⟨_, given.close rfl ?_⟩
  cases isIndirect <;> cbv

/-- The second function calls the first one, and the session goes on to the end. -/
theorem handing_called (isIndirect : Bool) (x y z : ExprId) :
    ∃ (r : Session) (body next : Body) (handed : List Operand), Reached (fun _ _ => True) r ∧
    r.body = some (.function handDraft, body) ∧
    Body.call 0 [x, y, z] body = .ok (.plain (if isIndirect then 6 else 5)) next ∧
    Leads (fun _ _ => True) ⟨r.build, some (.function handDraft, next),
        .plain (if isIndirect then 6 else 5) :: r.handed⟩
      ⟨handing isIndirect x y z, none, handed⟩ ∧
    Reached (fun _ _ => True) ⟨handing isIndirect x y z, none, handed⟩ := by
  let body : Body :=
    { (firstBuild isIndirect).newBody handDraft.scope .local (.num .i32) with
      arena := ⟨(handing isIndirect 0 0 0).arena.entries.take 5⟩ }
  let called : Body :=
    { body with arena := ⟨(handing isIndirect x y z).arena.entries.take (if isIndirect then 7 else 6)⟩ }
  let given : Body :=
    { body with
      arena := (handing isIndirect x y z).arena, statements := [if isIndirect then 7 else 6] }
  let closed : Build := { handing isIndirect x y z with exports := [], pending := [1, 0] }
  have run : Build.openFunction false handDraft.decl (firstBuild isIndirect) =
      .ok (handDraft, (firstBuild isIndirect).newBody handDraft.scope .local (.num .i32))
        (firstBuild isIndirect) :=
    Build.openFunction_of_free rfl (by simp [Build.isTaken, firstBuild, handing])
  have read : ∃ handed, Reached (fun _ _ => True)
      ⟨firstBuild isIndirect, some (.function handDraft, body), handed⟩ := by
    obtain ⟨handed, reached⟩ := reached_firstBuild isIndirect
    have a := (reached.next (.openFunction rfl run)).take rfl (.read "a") trivial rfl
    have b := a.take rfl (.read "b") trivial rfl
    cases isIndirect <;> exact ⟨_, b.take rfl (.read "q") trivial rfl⟩
  obtain ⟨handed, read⟩ := read
  have call : Body.call 0 [x, y, z] body = .ok (.plain (if isIndirect then 6 else 5)) called := by
    cases isIndirect <;> rfl
  have result : Next (fun _ _ => True)
      ⟨firstBuild isIndirect, some (.function handDraft, called),
        .plain (if isIndirect then 6 else 5) :: handed⟩
      ⟨firstBuild isIndirect, some (.function handDraft, given),
        .plain (if isIndirect then 6 else 5) :: handed⟩ :=
    .take rfl trivial
      (show Body.Step.run (.giveResult [if isIndirect then 6 else 5]) called = .ok none given by
        cases isIndirect <;> rfl)
  have left : Build.left (Opening.close (.function handDraft) given) (firstBuild isIndirect) =
      closed := by
    cases isIndirect <;> cbv
  have ends : Next (fun _ _ => True)
      ⟨firstBuild isIndirect, some (.function handDraft, given),
        .plain (if isIndirect then 6 else 5) :: handed⟩
      ⟨closed, none, .plain (if isIndirect then 6 else 5) :: handed⟩ := left ▸ .close rfl
  have exported : Next (fun _ _ => True)
      ⟨closed, none, .plain (if isIndirect then 6 else 5) :: handed⟩
      ⟨handing isIndirect x y z, none, .plain (if isIndirect then 6 else 5) :: handed⟩ :=
    .chore rfl (.exportAs "hand" 1)
  have run : Body.Step.run (.call 0 [x, y, z]) body =
      .ok (some (.plain (if isIndirect then 6 else 5))) called := by
    show (some <$> Body.call 0 [x, y, z] : BodyM _) body = _
    simp [call, Functor.map, EStateM.map]
  have leads := Relation.ReflTransGen.head result (.head ends (.single exported))
  exact ⟨_, body, called, _, read, rfl, call, leads,
    (read.take rfl (.call 0 [x, y, z]) trivial run).leads leads⟩

def handCode : List Instr :=
  [.localGet 2, .localGet 3, .localGet 0, .localGet 1, .const (.i32 0), .callIndirect 0 0]

def throughTable : Wasm.Module where
  types := [⟨[.num .i32, .num .i32, .num .i32, .num .i32], [.num .i32]⟩]
  funcs := [⟨0, [], [.localGet 2, .ret]⟩, ⟨0, [], handCode ++ [Instr.ret]⟩]
  tables := [Lower.tableType 1]
  exports := [⟨"hand", .func, 1⟩]
  elements := [⟨.active 0 [.const (.i32 0)], .func, [.func 0]⟩]

theorem lower_throughTable : (handing true 4 2 3).lower none = .ok throughTable := by cbv

def handLayout : Lower.Layout :=
  (moduleLayout (handing true 4 2 3)).withVariables
    [.num .i32, .num .i32, .tuple [.num .i32, .num .i32]]

theorem codes_of_hand {codes : List (List Instr)}
    (each : List.Forall₂ (CodeWithin handLayout ⟨types, []⟩ 1) [4, 2, 3] codes) :
    codes = [[.localGet 2, .localGet 3], [.localGet 0], [.localGet 1]] := by
  cases each with
  | cons pair rest => cases rest with
    | cons x rest => cases rest with
      | cons y rest =>
        cases rest
        rw [code_of_localGet pair rfl rfl, code_of_localGet x rfl rfl, code_of_localGet y rfl rfl]
        rfl

theorem codeWithin_hand (same : throughTable.types = types.map Signature.funcType) :
    CodeWithin handLayout ⟨types, []⟩ 2 6 handCode := by
  obtain rfl : [⟨[.i32, .i32, .i32, .i32], [.i32]⟩] = types :=
    List.map_injective_iff.2 (fun _ _ => Signature.funcType_injective) same
  let K : Lower.Tables := ⟨[⟨[.i32, .i32, .i32, .i32], [.i32]⟩], []⟩
  have pair : CodeWithin handLayout K 1 4 [.localGet 2, .localGet 3] := ⟨_, rfl, .localGet rfl⟩
  have x : CodeWithin handLayout K 1 2 [.localGet 0] := ⟨_, rfl, .localGet rfl⟩
  have y : CodeWithin handLayout K 1 3 [.localGet 1] := ⟨_, rfl, .localGet rfl⟩
  have chosen : CodeWithin handLayout K 1 5 [.const (.i32 0)] := ⟨_, rfl, .const _⟩
  exact ⟨_, rfl, .callIndirect (.cons pair (.cons x (.cons y .nil))) chosen rfl⟩

theorem arguments_passed_of_handing : ∃ (r s : Session) (opening : Opening) (body next : Body)
    (o : Operand) (m : Wasm.Module) (d : Callable) (i : Wasm.Instance),
    Reached (fun _ _ => True) r ∧ r.body = some (opening, body) ∧
    Body.call 0 [4, 2, 3] body = .ok o next ∧
    Leads (fun _ _ => True) ⟨r.build, some (opening, next), o :: r.handed⟩ s ∧
    Reached (fun _ _ => True) s ∧ s.body = none ∧ Build.assemble {} s.build = .ok m s.build ∧
    s.build.callables[0]? = some d ∧ d.kind = .indirect 0 ∧
    (m.funcs[1]?.map (·.body)) = some (handCode ++ [Instr.ret]) ∧
    Wasm.link m s.build.imports [] [] [] = some i ∧
    (∀ (rounds : Nat) (call : Nat → Wasm.Store → List Datum → Wasm.CallOutcome) (machine : Machine),
      Wasm.CallsKept i.program.signatures call → Wasm.MachineKept i.store machine →
      machine.locals = #[.num (.i32 1), .num (.i32 2), .num (.i32 3), .num (.i32 4)] →
      Instr.execSeq handCode (i.program.env rounds call) machine = machine.resume machine.stack
        (call 0 machine.store [.num (.i32 3), .num (.i32 4), .num (.i32 1), .num (.i32 2)])) ∧
    (∀ (k : Nat) (name : String) (shape : Shape) (own : List Value), d.params[k]? = some (name, shape) →
      ([[.i32 3, .i32 4], [.i32 1], [.i32 2]] : List (List Value))[k]? = some own →
      d.params.part k shape [.i32 3, .i32 4, .i32 1, .i32 2] = own) ∧
    ∃ types, PassesArguments (fun _ _ => True) s {} s.build types m := by
  obtain ⟨r, body, next, handed, reached, busy, called, leads, reached'⟩ := handing_called true 4 2 3
  have done : Build.assemble {} (handing true 4 2 3) = .ok throughTable (handing true 4 2 3) :=
    Build.assemble_of_lower rfl (by cbv) lower_throughTable fun _ => by decide +kernel
  obtain ⟨i, linked⟩ := Option.isSome_iff_exists.1
    (show (Wasm.link throughTable (handing true 4 2 3).imports [] [] []).isSome = true by
      decide +kernel)
  obtain ⟨types, passes⟩ := arguments_passed reached' rfl done
  obtain ⟨d, n, here, _, _, index, code⟩ := passes.calls _ _ _ _ 0 _ _ _ reached busy called leads
  cases here
  cases (show (handing true 4 2 3).indexOf? 0 = some 0 from rfl).symm.trans index
  obtain ⟨codes, last, split, _, each, runs⟩ :=
    code [.num .i32, .num .i32, .tuple [.num .i32, .num .i32]] [] 1 _
      (codeWithin_hand passes.spaces.types_eq)
  cases codes_of_hand each
  refine ⟨r, _, _, body, next, _, _, _, i, reached, busy, called, leads, reached', rfl, done, rfl, rfl,
    rfl, linked, ?_, ?_, types, passes⟩
  · rintro rounds call ⟨store, _, below⟩ kept machineKept rfl
    have leaves : Wasm.Leaves (i.program.env rounds call)
        [[.localGet 2, .localGet 3], [.localGet 0], [.localGet 1]] [[.i32 3, .i32 4], [.i32 1], [.i32 2]]
        ⟨store, #[.num (.i32 1), .num (.i32 2), .num (.i32 3), .num (.i32 4)], below⟩
        ⟨store, #[.num (.i32 1), .num (.i32 2), .num (.i32 3), .num (.i32 4)],
          [Datum.num (.i32 2), .num (.i32 1), .num (.i32 4), .num (.i32 3)] ++ below⟩ :=
      .cons rfl rfl (.cons rfl rfl (.cons rfl rfl .nil))
    exact runs _ _ _ _ i linked rounds call _ _ _ kept machineKept leaves rfl
  · refine (passes.parts 0 _ [[.i32 3, .i32 4], [.i32 1], [.i32 2]] rfl rfl rfl).2 ?_
    exact .cons rfl (.cons rfl (.cons rfl .nil))

/-- Two numbers and a pair, handed to a pair and two numbers. The call is accepted and the module
passes, but the parameter behind the pair gets the first number of the pair that was meant for the
last one, and not the number that stands for it. -/
theorem argument_beside_parameter : ∃ (r s : Session) (opening : Opening) (body next : Body)
    (o : Operand) (m : Wasm.Module) (d : Callable), Reached (fun _ _ => True) r ∧
    r.body = some (opening, body) ∧ Body.call 0 [2, 3, 4] body = .ok o next ∧
    Leads (fun _ _ => True) ⟨r.build, some (opening, next), o :: r.handed⟩ s ∧ s.body = none ∧
    Build.assemble {} s.build = .ok m s.build ∧ s.build.callables[0]? = some d ∧
    d.params[1]? = some ("x", .num .i32) ∧
    s.build.arena.node 3 = .ok (.localGet 1 (.num .i32)) ∧
    d.params.part 1 (.num .i32) [[Value.i32 1], [.i32 2], [.i32 3, .i32 4]].flatten = [.i32 3] ∧
    ∃ (i : Wasm.Instance) (journal : List HostCall), Wasm.instantiate m {} {} [] = .ok i journal ∧
      (i.answers {} [("hand", [.i32 1, .i32 2, .i32 3, .i32 4])]).1 = [.ok [.i32 3]] := by
  obtain ⟨r, body, next, handed, reached, busy, called, leads, _⟩ := handing_called false 2 3 4
  let m : Wasm.Module := {
    types := [⟨[.num .i32, .num .i32, .num .i32, .num .i32], [.num .i32]⟩]
    funcs := [⟨0, [], [.localGet 2, .ret]⟩, ⟨0, [], [.localGet 0, .localGet 1, .localGet 2,
      .localGet 3, .call 0, .ret]⟩]
    exports := [⟨"hand", .func, 1⟩] }
  have done : Build.assemble {} (handing false 2 3 4) = .ok m (handing false 2 3 4) :=
    Build.assemble_of_lower rfl (by cbv) (by cbv) fun _ => by decide +kernel
  obtain ⟨i, journal, made, answers⟩ := exists_of_answersMade
    (show answersMade [("hand", [.i32 1, .i32 2, .i32 3, .i32 4])] (Wasm.instantiate m {} {} []) =
      some [.ok [.i32 3]] by decide +kernel)
  exact ⟨r, _, _, body, next, _, m, _, reached, busy, called, leads, rfl, done, rfl, rfl, rfl,
    rfl, i, journal, made, answers⟩

end Session

end WasmBuilder
