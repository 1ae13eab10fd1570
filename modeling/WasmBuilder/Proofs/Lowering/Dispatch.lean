import Mathlib
import WasmBuilder.Proofs.Lowering.Callables
import WasmBuilder.Proofs.Lowering.Linked
import WasmBuilder.Proofs.Wasm.Dispatch

/-!
Calls of callables that are reached through the table.

Slots are given out when functions are declared, types and indices when the module is made, and the
table is looked up when the code runs. All of them agree, so a call through the table does what a call
of the function itself would do.
-/

set_option autoImplicit false

namespace WasmBuilder

open Lower (CallsPlaced CodeWithin CodeTyped IndexSpaces Linked NodeCode Tables moduleLayout tableType)
open Wasm (Datum Instr)

namespace Callable

def isIndirect (c : Callable) : Bool :=
  match c.kind with
  | .indirect _ => true
  | .direct | .external => false

theorem isIndirect_iff {c : Callable} : c.isIndirect = true ↔ ∃ slot, c.kind = .indirect slot := by
  unfold isIndirect
  cases c.kind <;> simp

end Callable

namespace Build

def indirectCount (b : Build) : Nat := b.callables.toList.countP Callable.isIndirect

variable {b : Build}

def indirectNumbers (b : Build) : List Nat :=
  (b.callables.toList.zipIdx.filter (·.1.isIndirect)).map (·.2)

theorem mem_indirectNumbers {k : Nat} : k ∈ b.indirectNumbers ↔
    ∃ c, b.callables[k]? = some c ∧ c.isIndirect = true := by
  unfold indirectNumbers
  constructor
  · intro mem
    obtain ⟨⟨c, j⟩, listed, rfl⟩ := List.mem_map.1 mem
    obtain ⟨inside, isIndirect⟩ := List.mem_filter.1 listed
    exact ⟨c, by rw [← Array.getElem?_toList]; exact List.mem_zipIdx_iff_getElem?.1 inside, isIndirect⟩
  · rintro ⟨c, here, isIndirect⟩
    rw [← Array.getElem?_toList] at here
    have listed : (c, k) ∈ b.callables.toList.zipIdx := List.mem_zipIdx_iff_getElem?.2 here
    exact List.mem_map.2 ⟨(c, k), List.mem_filter.2 ⟨listed, isIndirect⟩, rfl⟩

theorem nodup_indirectNumbers (b : Build) : b.indirectNumbers.Nodup := by
  have all : (b.callables.toList.zipIdx.map (·.2)).Nodup := by
    rw [List.zipIdx_map_snd]
    exact List.nodup_range'
  exact all.sublist (List.filter_sublist.map _)

theorem length_indirectNumbers (b : Build) : b.indirectNumbers.length = b.indirectCount := by
  have split := congrArg (List.countP Callable.isIndirect) (List.zipIdx_map_fst 0 b.callables.toList)
  rw [List.countP_map] at split
  rw [indirectNumbers, List.length_map, ← List.countP_eq_length_filter]
  exact split

/-- The table has a slot for each callable that is reached through it, and no other. -/
theorem Matched.length_functions (matched : b.Matched) :
    b.table.functions.length = b.indirectCount := by
  have listed (k : Nat) : k ∈ b.table.functions ↔ k ∈ b.indirectNumbers := by
    rw [mem_indirectNumbers, List.mem_iff_getElem?]
    constructor
    · rintro ⟨slot, here⟩
      rw [IndirectTable.functions_getElem?] at here
      obtain ⟨⟨func, info⟩, there, rfl⟩ := Option.map_eq_some_iff.1 here
      obtain ⟨c, declared, kind⟩ := matched.occupied slot func info there
      exact ⟨c, declared, Callable.isIndirect_iff.2 ⟨slot, kind⟩⟩
    · rintro ⟨c, here, isIndirect⟩
      obtain ⟨slot, kind⟩ := Callable.isIndirect_iff.1 isIndirect
      exact ⟨slot, (matched.slot_iff here).1 kind⟩
  have distinct : b.table.functions.Nodup := by
    -- a callable is told one slot, so it cannot stand in two
    rw [List.nodup_iff_injective_getElem]
    intro i j same
    have first := List.getElem?_eq_getElem i.isLt
    have second := List.getElem?_eq_getElem j.isLt
    obtain ⟨c, here, _⟩ := mem_indirectNumbers.1 ((listed _).1 (List.getElem_mem i.isLt))
    have one := (matched.slot_iff here).2 first
    have two := (matched.slot_iff here).2 (second.trans (congrArg some same.symm))
    exact Fin.ext (CallKind.indirect.inj (one.symm.trans two))
  have perm := (List.perm_ext_iff_of_nodup distinct (nodup_indirectNumbers b)).2 listed
  rw [perm.length_eq, length_indirectNumbers]

end Build

namespace Wasm

theorem creatable_of_link {m : Module} {host : Imports} {offered : List (ImportKey × Nat)}
    {made : List Memory} {journal : List HostCall} {i : Instance}
    (linked : link m host offered made journal = some i) :
    ∀ t ∈ m.tables, t.isCreatable = true := by
  unfold link at linked
  obtain ⟨c, context, linked⟩ := Option.bind_eq_some_iff.1 linked
  obtain ⟨⟨hostFuncs, hostMemories⟩, resolved, linked⟩ := Option.bind_eq_some_iff.1 linked
  dsimp only at linked
  split at linked
  next => cases linked
  next all =>
    simp only [Bool.not_eq_true', Bool.not_eq_false, Bool.and_eq_true, List.all_eq_true] at all
    exact all.2

end Wasm

namespace Lower

variable {b : Build} {tableExport : Option String} {types : List Signature} {m : Wasm.Module}

theorem tables_of_lower (done : b.lower tableExport = .ok m) :
    m.tables = if b.table.functions.length = 0 ∧ tableExport = none then []
      else [tableType b.table.functions.length] := by
  obtain ⟨types, lowered, start, memory, table, exports, parts, imported, slots, exported, rfl⟩ :=
    lower_eq_ok done
  have size := (mapM_eq_ok_iff.1 slots).length_eq
  rw [size]
  cases table <;> cases tableExport <;> rfl

/-- A slot of the table that belongs to a callable holds the function of the callable, and the type
that calls of it name is the type of this function. -/
theorem target_of_link (done : b.lower tableExport = .ok m) {host : Imports}
    {offered : List (ImportKey × Nat)} {made : List Wasm.Memory} {journal : List HostCall}
    {i : Wasm.Instance} (linked : Wasm.link m host offered made journal = some i)
    {slot k n t : Nat} (listed : b.table.functions[slot]? = some k) {f : Function}
    (declared : b.functions[k]? = some f) (index : b.indexOf? k = some n)
    (typed : m.types[t]? = some f.signature.funcType) :
    i.program.signatures[n]? = some f.signature.funcType ∧
      i.program.target? i.store (BitVec.ofNat 32 slot).toNat t = some n := by
  obtain ⟨types, same, known⟩ := linked_of_link done linked
  have inside := (List.getElem?_eq_some_iff.1 listed).1
  have small : slot < 2 ^ 32 := by
    have creatable := Wasm.creatable_of_link linked (tableType b.table.functions.length)
    rw [tables_of_lower done, if_neg (fun no => absurd no.1 (Nat.ne_of_gt (Nat.zero_lt_of_lt inside)))]
      at creatable
    have size := creatable (List.mem_singleton_self _)
    exact Nat.lt_trans inside (of_decide_eq_true size)
  have index : (moduleLayout b).funcIndices[k]? = some n := index
  have signature := known.signature_eq declared index
  obtain ⟨slots, table, held⟩ := known.table (by
    rw [Bool.or_eq_true, Bool.not_eq_true', List.isEmpty_eq_false_iff]
    exact .inl (List.ne_nil_of_length_pos (Nat.zero_lt_of_lt inside)))
  refine ⟨signature, Wasm.Program.target?_eq_some.2 ⟨_, slots, ?_, table, ?_, signature⟩⟩
  · rw [known.listed, ← same, List.getElem?_toArray, typed]
  · rw [BitVec.toNat_ofNat, Nat.mod_eq_of_lt small, held, listed, Option.bind_some, index,
      Option.map_some]

end Lower

namespace Session

variable {permits : Session → Body.Step → Prop} {s : Session} {options : CompileOptions}
  {c : Build} {types : List Signature} {m : Wasm.Module}

/-- The table of the module of a session, and the calls through it. -/
structure Dispatches (permits : Session → Body.Step → Prop) (s : Session)
    (options : CompileOptions) (c : Build) (types : List Signature) (m : Wasm.Module) : Prop where
  spaces : IndexSpaces c options.tableExport types m
  /-- The code that `calls` is about is found in the functions of the module. -/
  placed : CallsPlaced c types m
  tables : m.tables =
    if s.build.indirectCount = 0 ∧ options.tableExport = none then []
    else [tableType s.build.indirectCount]
  /-- The slot of a callable lies in the table, and the function of the callable is put there. -/
  entries : ∀ (k slot : Nat) (d : Callable), s.build.callables[k]? = some d →
    d.kind = .indirect slot → slot < s.build.indirectCount ∧
      ∃ (n : Nat) (filled : List Nat) (fts : List Wasm.FuncType), c.indexOf? k = some n ∧
        m.elements = [⟨.active 0 [.const (.i32 0)], .func, filled.map .func⟩] ∧
        filled.length = s.build.indirectCount ∧ filled[slot]? = some n ∧
        m.funcTypes? = some fts ∧ fts[n]? = some d.signature.funcType
  /-- A call that a body made of such a callable names its slot and its type. Wherever the module
  runs, it leads to the function of the callable, and what it does is what a call of this function
  behind the same arguments would do. -/
  calls : ∀ (r : Session) (opening : Opening) (body next : Body) (callable slot : Nat)
    (d : Callable) (args : List ExprId) (o : Operand) (handed : List Operand), Reached permits r →
    r.body = some (opening, body) → Body.call callable args body = .ok o next →
    Leads permits ⟨r.build, some (opening, next), handed⟩ s →
    s.build.callables[callable]? = some d → d.kind = .indirect slot →
    args.length = d.params.length ∧ c.arena.Calls d args o.id ∧
      ∃ n, c.indexOf? callable = some n ∧
      ∀ (shapes : List Shape) (scratch : List NumType) (depth : Nat) (code : List Instr),
        CodeWithin ((moduleLayout c).withVariables shapes) ⟨types, scratch⟩ (depth + 1) o.id code →
        ∃ before t,
          code = before ++ [Instr.const (.i32 (BitVec.ofNat 32 slot)), .callIndirect t 0] ∧
          Lower.Codes (CodeWithin ((moduleLayout c).withVariables shapes) ⟨types, scratch⟩ depth)
            args before ∧
          m.types[t]? = some d.signature.funcType ∧
          ∀ (host : Imports) (offered : List (ImportKey × Nat)) (made : List Wasm.Memory)
            (journal : List HostCall) (i : Wasm.Instance),
            Wasm.link m host offered made journal = some i →
            i.program.signatures[n]? = some d.signature.funcType ∧
            i.program.target? i.store (BitVec.ofNat 32 slot).toNat t = some n ∧
            ∀ (rounds : Nat) (call : Nat → Wasm.Store → List Datum → Wasm.CallOutcome)
              (machine : Wasm.Machine), Wasm.CallsKept i.program.signatures call →
              Wasm.MachineKept i.store machine →
              Instr.execSeq code (i.program.env rounds call) machine =
                Instr.execSeq (before ++ [Instr.call n]) (i.program.env rounds call) machine
  /-- So all calls through constant slots of the table can be made directly. -/
  runs : ∀ (host : Imports) (offered : List (ImportKey × Nat)) (made : List Wasm.Memory)
    (journal : List HostCall) (i : Wasm.Instance),
    Wasm.link m host offered made journal = some i → ∀ rounds depth room : Nat,
      Wasm.CallsKept i.program.signatures (i.program.invoke rounds depth room) ∧
      Wasm.SameCalls i.store ((i.program.direct i.store).invoke rounds depth room)
        (i.program.invoke rounds depth room)

/-- A call through the table is lowered to its arguments, its slot and a call at its type. -/
theorem code_of_indirect {shapes : List Shape} {scratch : List NumType} {depth : Nat} {id : ExprId}
    {code : List Instr} {d : Callable} {slot : Nat} {args : List ExprId}
    (coded : CodeWithin ((moduleLayout c).withVariables shapes) ⟨types, scratch⟩ (depth + 1) id code)
    (calls : c.arena.Calls d args id) (kind : d.kind = .indirect slot) :
    ∃ before t, code = before ++ [Instr.const (.i32 (BitVec.ofNat 32 slot)), .callIndirect t 0] ∧
      Lower.Codes (CodeWithin ((moduleLayout c).withVariables shapes) ⟨types, scratch⟩ depth)
        args before ∧ types[t]? = some d.signature := by
  obtain ⟨node, here, coded⟩ := coded
  cases calls with
  | direct notIndirect => exact absurd kind (notIndirect slot)
  | indirect kind' constant there =>
    cases kind.symm.trans kind'
    cases Except.ok.inj (here.symm.trans there)
    cases coded with
    | @callIndirect _ _ _ t before _ operands chosen listed =>
      cases depth with
      | zero => cases chosen
      | succ depth =>
        obtain ⟨node, here, chosen⟩ := chosen
        cases Except.ok.inj (here.symm.trans constant)
        cases chosen with
        | const => exact ⟨before, t, List.append_assoc .., operands, listed⟩

/-- Behind its arguments, a call through a slot whose function is known is a call of this function. -/
theorem execSeq_of_target {i : Wasm.Instance} {before : List Instr} {slot : BitVec 32} {t n : Nat}
    (target : i.program.target? i.store slot.toNat t = some n)
    (plain : Instr.isPlainSeq before = true) {rounds : Nat}
    {call : Nat → Wasm.Store → List Datum → Wasm.CallOutcome} {machine : Wasm.Machine}
    (calls : Wasm.CallsKept i.program.signatures call) (kept : Wasm.MachineKept i.store machine) :
    Instr.execSeq (before ++ [Instr.const (.i32 slot), .callIndirect t 0])
        (i.program.env rounds call) machine =
      Instr.execSeq (before ++ [Instr.call n]) (i.program.env rounds call) machine := by
  have ends := Instr.exec_kept_seq (e := i.program.env rounds call) calls before plain kept
  rw [Instr.execSeq_append, Instr.execSeq_append]
  split
  next m run =>
    rw [run] at ends
    have tables : m.store.tables = i.store.tables := Wasm.StoreKept.tables (Wasm.MachineKept.store ends)
    rw [Wasm.exec_callIndirect target tables, Instr.execSeq_singleton]
  next => rfl

/-- Calling through the table is calling the function: the table has a slot for each callable that is
reached through it, a call names the slot and the type of its callable, and so it does what a call of
the function would do. -/
theorem table_calls_are_direct (reached : Reached permits s) (idle : s.body = none)
    (done : Build.assemble options s.build = .ok m c) :
    ∃ types, Dispatches permits s options c types m := by
  have ⟨_, _, lowered, _⟩ := Build.assemble_eq_ok done
  have ⟨tidies, _⟩ := (Build.tidies_assemble options).of_ok done
  have ⟨types, spaces⟩ := Lower.indexSpaces lowered
  have later := tidies.course.later
  have matched : s.build.Matched := by
    rw [← current_of_idle idle]
    exact matched_of_reached reached
  have matched' : c.Matched := matched.course tidies.course
  have count : c.table.functions.length = s.build.indirectCount := by
    rw [matched'.length_functions, Build.indirectCount, tidies.same.callables, Build.indirectCount]
  -- what a callable is told stays, and so does what the table has for it
  have known (k slot : Nat) (d : Callable) (here : s.build.callables[k]? = some d)
      (kind : d.kind = .indirect slot) : c.table.functions[slot]? = some k ∧
        ∃ f, c.functions[k]? = some f ∧ d.Tells k f := by
    have there := later.callables k d here
    exact ⟨(matched'.slot_iff there).1 kind, matched'.tells k d there⟩
  refine ⟨types, spaces, spaces.callsPlaced, ?_, ?_, ?_, ?_⟩
  · rw [Lower.tables_of_lower lowered, count]
  · intro k slot d here kind
    obtain ⟨listed, f, declared, tells⟩ := known k slot d here kind
    have inside := (List.getElem?_eq_some_iff.1 listed).1
    obtain ⟨filled, each, elements⟩ := spaces.elements
    obtain ⟨n, put, index⟩ := exists_getElem?_of_forall₂ each listed
    obtain ⟨fts, all, typed⟩ := spaces.typed
    obtain ⟨n', index', type⟩ := typed k f declared
    cases index.symm.trans index'
    rw [if_neg (List.ne_nil_of_length_pos (Nat.zero_lt_of_lt inside))] at elements
    refine ⟨count ▸ inside, n, filled, fts, index, elements, ?_, put, all, ?_⟩
    · rw [← each.length_eq, count]
    · rw [tells.signature_eq]
      exact type
  · intro r opening body next callable slot d args o handed reached busy called leads here kind
    obtain ⟨d', known', counted, calls⟩ := Body.call_eq_ok called
    have later' : _ := leads.later
    rw [current_of_idle idle] at later'
    rw [(orderly_of_reached reached).callables opening body busy] at known'
    cases here.symm.trans (later'.callables _ d' known')
    obtain ⟨listed, f, declared, tells⟩ := known callable slot d here kind
    obtain ⟨n, index, _⟩ := spaces.stands callable f declared
    have calls := calls.lasts (later'.lasts.trans later.lasts)
    refine ⟨counted, calls, n, index, ?_⟩
    intro shapes scratch depth code coded
    obtain ⟨before, t, rfl, operands, typed⟩ := code_of_indirect coded calls kind
    have type : m.types[t]? = some d.signature.funcType := by
      rw [spaces.types_eq, List.getElem?_map, typed, Option.map_some]
    refine ⟨before, t, rfl, operands, type, ?_⟩
    intro host offered made journal i linked
    rw [tells.signature_eq] at type ⊢
    obtain ⟨signature, target⟩ := Lower.target_of_link lowered linked listed declared index type
    refine ⟨signature, target, fun rounds call machine kept machineKept => ?_⟩
    have plain := Lower.plain_codes (fun _ _ => Lower.plain_codeWithin _ _ _) operands
    exact execSeq_of_target target plain kept machineKept
  · intro host offered made journal i linked rounds depth room
    obtain ⟨types, _, known⟩ := Lower.linked_of_link lowered linked
    exact ⟨i.program.invoke_kept known.signatures known.plain rounds depth room,
      i.program.invoke_direct known.signatures known.plain i.store rounds depth room⟩

/-- A function that calls another one through the table, which is in turn the last of several kinds of
functions. -/
def dispatchBuild : Build :=
  { mixedBuild with
    arena := ⟨#[⟨.call 0 [] ⟨[], []⟩, some .none⟩, ⟨.const (.i32 0), some (.num .i32)⟩,
      ⟨.callIndirect 1 [] ⟨[], []⟩, some .none⟩]⟩
    functions := mixedBuild.functions.push ⟨"again", [], .none, .defined {} [2]⟩
    callables := mixedBuild.callables.push ⟨"again", 3, .direct, [], .none⟩
    pending := [3, 2] }

def dispatchModule : Wasm.Module where
  types := [⟨[], []⟩]
  imports := [⟨⟨"env", "tick"⟩, .func 0⟩]
  funcs := [⟨0, [], []⟩, ⟨0, [], [.call 1]⟩, ⟨0, [], [.const (.i32 0), .callIndirect 0 0]⟩]
  tables := [tableType 1]
  exports := [⟨"rest", .func, 1⟩]
  elements := [⟨.active 0 [.const (.i32 0)], .func, [.func 2]⟩]

theorem lower_dispatchBuild : dispatchBuild.lower none = .ok dispatchModule := by cbv

theorem codeWithin_dispatchBuild (same : dispatchModule.types = types.map Signature.funcType) :
    CodeWithin ((moduleLayout dispatchBuild).withVariables []) ⟨types, []⟩ 2 2
      [.const (.i32 0), .callIndirect 0 0] := by
  obtain rfl : [⟨[], []⟩] = types :=
    List.map_injective_iff.2 (fun _ _ => Signature.funcType_injective) same
  have chosen : CodeWithin ((moduleLayout dispatchBuild).withVariables []) ⟨[⟨[], []⟩], []⟩ 1 1
      [.const (.i32 0)] := ⟨_, rfl, .const _⟩
  exact ⟨_, rfl, .callIndirect .nil chosen rfl⟩

theorem table_calls_are_direct_of_again :
    ∃ (r s : Session) (opening : Opening) (body next : Body) (o : Operand) (c : Build)
      (m : Wasm.Module) (i : Wasm.Instance), Reached (fun _ _ => True) r ∧
    r.body = some (opening, body) ∧ Body.call 2 [] body = .ok o next ∧
    Leads (fun _ _ => True) ⟨r.build, some (opening, next), o :: r.handed⟩ s ∧
    (s.build.callables[2]?.map (·.kind)) = some (.indirect 0) ∧
    Reached (fun _ _ => True) s ∧ s.body = none ∧
    Build.assemble ⟨false, true, none, none⟩ s.build = .ok m c ∧
    Wasm.link m s.build.imports [] [] [] = some i ∧
    (m.funcs[2]?.map (·.body)) = some [.const (.i32 0), .callIndirect 0 0] ∧
    c.indexOf? 2 = some 2 ∧ i.program.target? i.store 0 0 = some 2 ∧
    (∀ (rounds : Nat) (call : Nat → Wasm.Store → List Datum → Wasm.CallOutcome)
      (machine : Wasm.Machine), Wasm.CallsKept i.program.signatures call →
      Wasm.MachineKept i.store machine →
      Instr.execSeq [.const (.i32 0), .callIndirect 0 0] (i.program.env rounds call) machine =
        Instr.execSeq [.call 2] (i.program.env rounds call) machine) ∧
    ∃ types, Dispatches (fun _ _ => True) s ⟨false, true, none, none⟩ c types m := by
  let again : Build.Draft := ⟨false, "again", { id := some "again", result := .none }⟩
  let body : Body := mixedBuild.newBody {} .local .none
  let called : Body := { body with arena := dispatchBuild.arena }
  let filled : Body := { called with statements := [2] }
  have opened : Reached (fun _ _ => True) ⟨mixedBuild, some (.function again, body), [.plain 0]⟩ :=
    reached_mixedBuild.next
      (.openFunction rfl (Build.openFunction_of_free rfl
        (by simp [mixedBuild, Build.isTaken])))
  have call : Body.call 2 [] body = .ok (.plain 2) called := rfl
  have taken : Reached (fun _ _ => True)
      ⟨mixedBuild, some (.function again, called), [.plain 2, .plain 0]⟩ :=
    opened.take rfl (.call 2 []) trivial rfl
  have left : Build.left (Opening.close (.function again) filled) mixedBuild = dispatchBuild := by
    cbv
  have run : Leads (fun _ _ => True) ⟨mixedBuild, some (.function again, called), [.plain 2, .plain 0]⟩
      ⟨dispatchBuild, none, [.plain 2, .plain 0]⟩ := by
    have executed : Next (fun _ _ => True)
        ⟨mixedBuild, some (.function again, called), [.plain 2, .plain 0]⟩
        ⟨mixedBuild, some (.function again, filled), [.plain 2, .plain 0]⟩ :=
      .take rfl trivial (show Body.Step.run (.exec [2]) called = .ok none filled from rfl)
    have closed : Next (fun _ _ => True)
        ⟨mixedBuild, some (.function again, filled), [.plain 2, .plain 0]⟩
        ⟨Build.left (Opening.close (.function again) filled) mixedBuild, none,
          [.plain 2, .plain 0]⟩ := .close rfl
    rw [left] at closed
    exact (Relation.ReflTransGen.single executed).tail closed
  have done : Build.assemble ⟨false, true, none, none⟩ dispatchBuild =
      .ok dispatchModule dispatchBuild :=
    Build.assemble_of_lower rfl rfl lower_dispatchBuild fun _ => by decide +kernel
  obtain ⟨i, linked⟩ := Option.isSome_iff_exists.1
    (show (Wasm.link dispatchModule dispatchBuild.imports [] [] []).isSome = true by decide +kernel)
  have reached := taken.leads run
  obtain ⟨types, dispatches⟩ := table_calls_are_direct reached rfl done
  obtain ⟨_, _, n, index, code⟩ := dispatches.calls _ _ _ _ 2 0 _ [] _ _ opened rfl call run rfl rfl
  cases (show dispatchBuild.indexOf? 2 = some 2 from rfl).symm.trans index
  obtain ⟨before, t, same, _, _, runs⟩ :=
    code [] [] 1 _ (codeWithin_dispatchBuild dispatches.spaces.types_eq)
  obtain ⟨rfl, last⟩ := List.append_inj' (show [] ++ [_, _] = before ++ [_, _] from same) rfl
  cases last
  obtain ⟨_, target, alike⟩ := runs _ _ _ _ i linked
  exact ⟨_, _, _, _, _, _, _, _, i, opened, rfl, call, run, rfl, reached, rfl, done, linked, rfl,
    rfl, target, alike, types, dispatches⟩

end Session

end WasmBuilder
