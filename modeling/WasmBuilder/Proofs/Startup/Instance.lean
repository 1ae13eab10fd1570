import Mathlib
import WasmBuilder.Proofs.Lowering.IndexSpaces
import WasmBuilder.Proofs.Lowering.Linked
import WasmBuilder.Proofs.Startup.Code
import WasmBuilder.Proofs.Startup.Session
import WasmBuilder.Proofs.Wasm.Loading

/-!
Instances begin with what their globals were given.

The start statements of a build become the start function of its module, and no instance is there
before this function has come to its end. So whatever is due of the declarations of globals has been
carried out before anything else runs.
-/

set_option autoImplicit false

namespace WasmBuilder

open Wasm (Datum FuncInstance Instr Machine)

namespace Wasm

def Instance.bodyEnv (i : Instance) (bounds : Bounds) (f : Nat) : Env :=
  i.program.env bounds.rounds
    (i.program.invoke bounds.rounds (bounds.room - 1) (bounds.room - i.program.frame f))

def Instance.startMachine (i : Instance) (locals : List ValType) : Machine :=
  ⟨i.store, (locals.map Datum.zero).toArray, []⟩

theorem Machine.finish_zero (m : Machine) : m.finish 0 = .done [] m.store :=
  if_neg (Nat.not_lt_zero m.stack.length)

/-- A body that settles leaves the store of a machine with which it ends, unless it traps or has no
end. -/
theorem runBody_cases {e : Env} {locals : List ValType} {body : List Instr} {s : Store}
    {P : Machine → Prop}
    (settles : (Instr.execSeq body e ⟨s, (locals.map Datum.zero).toArray, []⟩).Settles P) :
    (∃ n, P n ∧ runBody e ⟨[], []⟩ locals body s [] = .done [] n.store) ∨
      (∃ cause t, runBody e ⟨[], []⟩ locals body s [] = .trap cause t) ∨
      runBody e ⟨[], []⟩ locals body s [] = .exhausted := by
  unfold runBody
  dsimp only [List.nil_append, List.length_nil]
  cases ended : Instr.execSeq body e ⟨s, (locals.map Datum.zero).toArray, []⟩ with
  | next n | ret n =>
    rw [ended] at settles
    exact .inl ⟨n, settles, n.finish_zero⟩
  | trap cause t => exact .inr (.inl ⟨cause, t, rfl⟩)
  | exhausted => exact .inr (.inr rfl)
  | branch | tail =>
    rw [ended] at settles
    cases settles

/-- A function whose body settles leaves the store of a machine with which its body ends. -/
theorem Instance.store_of_invoke {i : Instance} {bounds : Bounds} {f : Nat} {locals : List ValType}
    {body : List Instr} (here : i.program.funcs[f]? = some (.code ⟨[], []⟩ locals body))
    {P : Machine → Prop}
    (settles : (Instr.execSeq body (i.bodyEnv bounds f) (i.startMachine locals)).Settles P)
    {results : List Datum} {store : Store} (done : i.invoke bounds f [] = .done results store) :
    ∃ n, P n ∧ n.store = store := by
  obtain ⟨rounds, room⟩ := bounds
  cases room with
  | zero => cases done
  | succ depth =>
    cases rounds with
    | zero => cases done
    | succ rounds =>
      have run := runBody_cases settles
      have surroundings : i.bodyEnv ⟨rounds + 1, depth + 1⟩ f = i.program.env (rounds + 1)
          (i.program.invoke (rounds + 1) depth (depth + 1 - i.program.frame f)) := rfl
      rw [surroundings] at run
      simp only [Instance.invoke, Program.invoke, Program.runChain, Program.runOne, here,
        List.map_nil] at done
      by_cases full : depth + 1 < i.program.frame f
      · rw [if_pos full] at done
        cases done
      · rw [if_neg full] at done
        rcases run with ⟨n, holds, run⟩ | ⟨cause, t, run⟩ | run
        · rw [run] at done
          cases done
          exact ⟨n, holds, rfl⟩
        · rw [run] at done
          cases done
        · rw [run] at done
          cases done

/-- Where an instance comes of linking, its start function has come to its end. -/
theorem instantiate_eq_ok {m : Module} {host : Imports} {bounds : Bounds}
    {journal journal' : List HostCall} {i : Instance}
    (ran : instantiate m host bounds journal = .ok i journal') :
    ∃ made linked, createMemories (offeredMemories host) = .ok made ∧
      link m host (offeredNumbers host) made journal = some linked ∧
      (m.start = none ∧ i = linked ∨ ∃ f results store, m.start = some f ∧
        linked.invoke bounds f [] = .done results store ∧ i = { linked with store }) := by
  cases created : createMemories (offeredMemories host) with
  | error e =>
    simp only [instantiate, created] at ran
    cases ran
  | ok made =>
    rw [instantiate_of_created created] at ran
    split at ran
    next => cases ran
    next linked found =>
      refine ⟨made, linked, rfl, found, ?_⟩
      cases start : m.start with
      | none =>
        rw [start] at ran
        cases ran
        exact .inl ⟨rfl, rfl⟩
      | some f =>
        rw [start] at ran
        cases ended : linked.invoke bounds f [] with
        | done results store =>
          simp only [Instance.started, ended] at ran
          cases ran
          exact .inr ⟨f, results, store, rfl, ended, rfl⟩
        | trap | exhausted =>
          simp only [Instance.started, ended] at ran
          cases ran

end Wasm

namespace Lower

/-- The start function comes behind all declared functions, and has the code of the start
statements. -/
theorem start_of_link {b : Build} {tableExport : Option String} {m : Wasm.Module}
    (done : b.lower tableExport = .ok m) {host : Imports} {offered : List (ImportKey × Nat)}
    {made : List Wasm.Memory} {journal : List HostCall} {i : Wasm.Instance}
    (linked : Wasm.link m host offered made journal = some i) :
    (b.startBody = [] ∧ m.start = none) ∨ ∃ types g, m.start = some b.functions.size ∧
      FunctionCode (moduleLayout b) types ⟨[], []⟩ [] b.startBody g ∧
      i.program.funcs[b.functions.size]? = some (.code ⟨[], []⟩ g.locals g.body) := by
  obtain ⟨types, lowered, start, memory, table, exports, parts, imported, _, _, rfl⟩ :=
    lower_eq_ok done
  obtain ⟨hostFuncs, _, codeFuncs, _, _, _, found, coded, _, _, _, funcs, _⟩ :=
    Wasm.link_eq_some linked rfl
  have functions : ∀ i ∈ lowered.filterMap Lowered.import?, ∃ t, i.type = .func t := by
    intro i mem
    obtain ⟨t, _, type, _⟩ := import_typed parts.declarations mem
    exact ⟨t, type⟩
  obtain ⟨fs, none, rfl, resolved, rest⟩ := Wasm.resolveImports_append functions found
  cases resolve_memoryImport imported rest
  rw [List.append_nil] at funcs
  have code := parts.start
  cases start with
  | none => exact .inl ⟨code.eq_nil, rfl⟩
  | some g =>
    obtain ⟨_, code⟩ := code.of_some
    refine .inr ⟨types, g, rfl, code, ?_⟩
    let own := lowered.filterMap Lowered.func?
    have last : (own ++ [g])[own.length]? = some g := List.getElem?_concat_length
    obtain ⟨function, there, coded⟩ := exists_getElem?_of_forall₂ coded last
    have place : b.functions.size = fs.length + own.length := by
      rw [← length_declared parts, resolved.length_eq]
    -- behind the functions of the host and all that are declared
    rw [funcs, List.getElem?_toArray, place, List.getElem?_append_right (Nat.le_add_right _ _),
      Nat.add_sub_cancel_left, there]
    cases coded with
    | mk typed =>
      cases code with
      | mk listed =>
        rw [assembled, List.getElem?_map, listed, Option.map_some] at typed
        cases typed
        rfl

/-- The start function leaves the code and the tables of an instance as they are. -/
theorem exists_kept {b : Build} {tableExport : Option String} {m : Wasm.Module}
    (done : b.lower tableExport = .ok m) {host : Imports} {bounds : Wasm.Bounds}
    {journal journal' : List HostCall} {i : Wasm.Instance}
    (ran : Wasm.instantiate m host bounds journal = .ok i journal') :
    ∃ made linked store, Wasm.link m host (Wasm.offeredNumbers host) made journal = some linked ∧
      Wasm.StoreKept linked.store store ∧ i = { linked with store } := by
  obtain ⟨made, linked, -, link, ended⟩ := Wasm.instantiate_eq_ok ran
  obtain ⟨types, -, known⟩ := linked_of_link done link
  rcases ended with ⟨-, rfl⟩ | ⟨f, results, store, -, run, rfl⟩
  · exact ⟨made, i, i.store, link, known.storeKept, rfl⟩
  · have ends := linked.program.invoke_kept known.signatures known.plain bounds.rounds bounds.room
      bounds.room f linked.store linked.store [] known.storeKept nofun
    refine ⟨made, linked, store, link, ?_, rfl⟩
    have run : linked.program.invoke bounds.rounds bounds.room bounds.room f linked.store [] =
      .done results store := run
    rw [run] at ends
    exact ends.2.1

end Lower

namespace Session

open Contribution (due ResultsLast)
open Lower (DueCode Executed ExprCode FunctionCode)

def startLayout (c : Build) : Lower.Layout := (Lower.moduleLayout c).withVariables []

/-- An instance of a module that was made of a session, and what was done before it was there. -/
structure Initialized (s : Session) (declared : List (List Contribution)) (c : Build)
    (m : Wasm.Module) (host : Imports) (bounds : Wasm.Bounds) (journal : List HostCall)
    (i : Wasm.Instance) : Prop where
  /-- Expressions are those that were handed over, but for operations that were carried out. -/
  kept : ∀ r : Session, Reached Lawful r → Leads Lawful r s → r.arena.Folds c.arena
  /-- From the globals' first values on, what is due was executed, and nothing else. -/
  executed : ∃ made linked types scratch n,
    Wasm.createMemories (Wasm.offeredMemories host) = .ok made ∧
    Wasm.link m host (Wasm.offeredNumbers host) made journal = some linked ∧
    Executed (startLayout c) (ExprCode (startLayout c) ⟨types, scratch⟩)
      (linked.bodyEnv bounds c.functions.size) (due declared.flatten)
      (linked.startMachine (scratch.map .num)) n ∧ i = { linked with store := n.store }
  /-- All that each declaration handed over as far as its own first result is due, unless something
  was handed over behind a declaration that gives a result. -/
  composes : due declared.flatten = declared.flatMap due ↔ ResultsLast declared

variable {s : Session} {declared : List (List Contribution)} {own : List Contribution}
  {options : CompileOptions} {c : Build} {m : Wasm.Module}

/-- What is due of the declarations of globals was executed when an instance is there. -/
theorem initializers_run (contributed : Contributed s declared own) (idle : s.body = none)
    (done : Build.assemble options s.build = .ok m c) {host : Imports} {bounds : Wasm.Bounds}
    {journal journal' : List HostCall} {i : Wasm.Instance}
    (ran : Wasm.instantiate m host bounds journal = .ok i journal') :
    Initialized s declared c m host bounds journal i := by
  have awaits := awaits_of_contributed contributed
  have sound := sound_of_reached contributed.reached
  have here := arena_of_idle idle
  obtain ⟨after, folds, stands⟩ := ((Build.retains_assemble options).of_ok done).1
    ⟨here ▸ sound.labelled, here ▸ awaits.calm⟩
  -- what was due when it was declared still stands in the start statements
  have stands := stands _ (here ▸ awaits.startBody)
  have ⟨_, _, lowered, _⟩ := Build.assemble_eq_ok done
  have coded (K : Lower.Tables) {code : List Instr}
      (codes : Lower.Codes (Lower.StatementCode (startLayout c) (ExprCode (startLayout c) K))
        c.startBody code) :
      DueCode (startLayout c) (ExprCode (startLayout c) K) declared.flatten code :=
    Lower.dueCode_of_stands after.labelled.ordered after.calm stands codes
  refine ⟨fun r reached leads => ?_, ?_, Contribution.due_flatten_eq_iff⟩
  · exact (here ▸ leads.folds reached).trans folds
  · obtain ⟨made, linked, created, link, ended⟩ := Wasm.instantiate_eq_ok ran
    rcases Lower.start_of_link lowered link with ⟨nothing, absent⟩ | ⟨types, g, present, code, at_⟩
    · rcases ended with ⟨_, rfl⟩ | ⟨f, results, store, is, _⟩
      · -- without start statements, what is due has no code
        have silent := coded ⟨[], []⟩ (nothing ▸ Lower.Codes.nil)
        have settles := silent.settles (i.bodyEnv bounds c.functions.size) (i.startMachine [])
        exact ⟨made, i, [], [], _, created, link, settles, rfl⟩
      · cases absent.symm.trans is
    · rcases ended with ⟨absent, _⟩ | ⟨f, results, store, is, ran, rfl⟩
      · cases absent.symm.trans present
      · cases present.symm.trans is
        cases code with
        | @mk typeIndex scratch code typed statements =>
          have settles := (coded ⟨types, scratch⟩ statements).settles
            (linked.bodyEnv bounds c.functions.size) (linked.startMachine (scratch.map .num))
          obtain ⟨n, executed, rfl⟩ := Wasm.Instance.store_of_invoke at_ settles ran
          exact ⟨made, linked, types, scratch, n, created, link, executed, rfl⟩

theorem Contributed.goOn {opening : Opening} {body next : Body} {handed : Option Operand}
    (before : Contributed s declared own) (busy : s.body = some (opening, body)) (step : Body.Step)
    (may : s.Lawful step) (done : step.run body = .ok handed next) :
    Contributed { s with body := some (opening, next), handed := handed.toList ++ s.handed }
      declared (own ++ step.contributions) :=
  before.take busy may done

def oneGlobal : Scope := ⟨#[⟨"a", .num .i32, .global⟩]⟩

def twoGlobals : Scope := ⟨#[⟨"a", .num .i32, .global⟩, ⟨"b", .num .i32, .global⟩]⟩

def firstSet : Array Entry :=
  #[⟨.const (.i32 1), some (.num .i32)⟩, ⟨.globalSet 0 (.num .i32) 0, some .none⟩]

def settingFirst : Body where
  arena := ⟨firstSet⟩
  globals := oneGlobal
  callables := #[]
  locals := {}
  fresh := .global
  result := .none

theorem contributed_settingFirst : Contributed
    ⟨{ globals := oneGlobal }, some (.globals, settingFirst), [.plain 1, .plain 0]⟩ [] [] := by
  have opened := Contributed.start.between rfl
    (.openGlobals rfl (show Build.openGlobals [("a", .num .i32)] {} = .ok _ _ from rfl))
  have made := opened.goOn rfl (.literal (.int 1) .i32) (lawful_of_nil rfl rfl) rfl
  exact made.goOn rfl (.write "a" 0) (lawful_of_head rfl rfl rfl) rfl

def resultBehind : Build where
  arena := ⟨firstSet ++ #[⟨.const (.i32 7), some (.num .i32)⟩,
    ⟨.globalSet 1 (.num .i32) 2, some .none⟩, ⟨.ret (some 3), some .none⟩]⟩
  globals := twoGlobals
  startBody := [1, 4]

theorem contributed_resultBehind :
    ∃ handed, Contributed ⟨resultBehind, none, handed⟩ [[.statement 1], [.result 3]] [] := by
  have given := contributed_settingFirst.goOn rfl (.exec [1]) (lawful_of_head rfl rfl rfl) rfl
  let build : Build := { arena := ⟨firstSet⟩, globals := oneGlobal, startBody := [1] }
  have first : Contributed ⟨build, none, [.plain 1, .plain 0]⟩ [[.statement 1]] [] :=
    given.closeGlobals rfl
  have opened := first.between rfl
    (.openGlobals rfl (show Build.openGlobals [("b", .num .i32)] build = .ok _ _ from rfl))
  have made := opened.goOn rfl (.literal (.int 7) .i32) (lawful_of_nil rfl rfl) rfl
  have set := made.goOn rfl (.write "b" 2) (lawful_of_head rfl rfl rfl) rfl
  have given := set.goOn rfl (.giveResult [3]) (lawful_of_head rfl rfl rfl) rfl
  exact ⟨_, given.closeGlobals rfl⟩

def resultInFront : Build where
  arena := ⟨firstSet ++ #[⟨.ret (some 1), some .none⟩, ⟨.const (.i32 7), some (.num .i32)⟩,
    ⟨.globalSet 1 (.num .i32) 3, some .none⟩]⟩
  globals := twoGlobals
  startBody := [2, 4]

theorem contributed_resultInFront :
    ∃ handed, Contributed ⟨resultInFront, none, handed⟩ [[.result 1], [.statement 4]] [] := by
  have given := contributed_settingFirst.goOn rfl (.giveResult [1]) (lawful_of_head rfl rfl rfl) rfl
  let build : Build :=
    { arena := ⟨firstSet.push ⟨.ret (some 1), some .none⟩⟩, globals := oneGlobal, startBody := [2] }
  have first : Contributed ⟨build, none, [.plain 1, .plain 0]⟩ [[.result 1]] [] :=
    given.closeGlobals rfl
  have opened := first.between rfl
    (.openGlobals rfl (show Build.openGlobals [("b", .num .i32)] build = .ok _ _ from rfl))
  have made := opened.goOn rfl (.literal (.int 7) .i32) (lawful_of_nil rfl rfl) rfl
  have set := made.goOn rfl (.write "b" 3) (lawful_of_head rfl rfl rfl) rfl
  have given := set.goOn rfl (.exec [4]) (lawful_of_head rfl rfl rfl) rfl
  exact ⟨_, given.closeGlobals rfl⟩

def startingModule (code : List Instr) : Wasm.Module where
  types := [⟨[], []⟩]
  funcs := [⟨0, [], code⟩]
  globals := [Lower.zeroGlobal .i32, Lower.zeroGlobal .i32]
  start := some 0

def globalsMade : EStateM.Result Wasm.Halt (List HostCall) Wasm.Instance → Option (Array Datum)
  | .ok i _ => some i.store.globals
  | .error .. => none

theorem exists_of_globalsMade {run : EStateM.Result Wasm.Halt (List HostCall) Wasm.Instance}
    {globals : Array Datum} (made : globalsMade run = some globals) :
    ∃ i journal, run = .ok i journal ∧ i.store.globals = globals := by
  cases run with
  | ok i journal => exact ⟨i, journal, rfl, Option.some.inj made⟩
  | error => cases made

theorem initializers_run_of_resultBehind :
    ∃ (s : Session) (c : Build) (m : Wasm.Module) (i : Wasm.Instance) (journal : List HostCall),
    Contributed s [[.statement 1], [.result 3]] [] ∧ s.body = none ∧
    Build.assemble ⟨true, true, none, none⟩ s.build = .ok m c ∧
    Wasm.instantiate m {} {} [] = .ok i journal ∧
    i.store.globals = #[.num (.i32 1), .num (.i32 7)] ∧
    ResultsLast [[.statement 1], [.result 3]] ∧
    Initialized s [[.statement 1], [.result 3]] c m {} {} [] i := by
  obtain ⟨handed, contributed⟩ := contributed_resultBehind
  let m := startingModule
    [.const (.i32 1), .globalSet 0, .const (.i32 7), .globalSet 1, .ret]
  have done : Build.assemble ⟨true, true, none, none⟩ resultBehind = .ok m resultBehind :=
    Build.assemble_of_lower rfl (by cbv) (by cbv) fun _ => by decide +kernel
  obtain ⟨i, journal, ran, globals⟩ := exists_of_globalsMade
    (show globalsMade (Wasm.instantiate m {} {} []) = some #[.num (.i32 1), .num (.i32 7)] by
      decide +kernel)
  exact ⟨_, _, _, i, journal, contributed, rfl, done, ran, globals,
    by simp [ResultsLast, Contribution.isResult], initializers_run contributed rfl done ran⟩

/-- Behind a declaration that gives a result, the statement of another declaration is lost. The
variable that it sets stays zero. -/
theorem initializer_lost : ∃ s : Session, Contributed s [[.result 1], [.statement 4]] [] ∧
    s.body = none ∧ s.arena.node 4 = .ok (.globalSet 1 (.num .i32) 3) ∧
    s.arena.node 3 = .ok (.const (.i32 7)) ∧ ¬ ResultsLast [[.result 1], [.statement 4]] ∧
    ∀ optimize : Bool, ∃ (m : Wasm.Module) (c : Build) (i : Wasm.Instance)
        (journal : List HostCall),
      Build.assemble ⟨optimize, true, none, none⟩ s.build = .ok m c ∧
      Wasm.instantiate m {} {} [] = .ok i journal ∧
      i.store.globals = #[.num (.i32 1), .num (.i32 0)] := by
  obtain ⟨handed, contributed⟩ := contributed_resultInFront
  refine ⟨_, contributed, rfl, rfl, rfl, by simp [ResultsLast, Contribution.isResult], ?_⟩
  intro optimize
  cases optimize with
  | false =>
    let m := startingModule [.const (.i32 1), .globalSet 0, .ret, .const (.i32 7), .globalSet 1]
    have done : Build.assemble ⟨false, true, none, none⟩ resultInFront = .ok m resultInFront :=
      Build.assemble_of_lower rfl rfl (by cbv) fun _ => by decide +kernel
    obtain ⟨i, journal, ran⟩ := exists_of_globalsMade
      (show globalsMade (Wasm.instantiate m {} {} []) = some #[.num (.i32 1), .num (.i32 0)] by
        decide +kernel)
    exact ⟨m, _, i, journal, done, ran⟩
  | true =>
    let m := startingModule [.const (.i32 1), .globalSet 0, .ret]
    have done : Build.assemble ⟨true, true, none, none⟩ resultInFront =
        .ok m { resultInFront with startBody := [2] } :=
      Build.assemble_of_lower rfl (by cbv) (by cbv) fun _ => by decide +kernel
    obtain ⟨i, journal, ran⟩ := exists_of_globalsMade
      (show globalsMade (Wasm.instantiate m {} {} []) = some #[.num (.i32 1), .num (.i32 0)] by
        decide +kernel)
    exact ⟨m, _, i, journal, done, ran⟩

end Session

end WasmBuilder
