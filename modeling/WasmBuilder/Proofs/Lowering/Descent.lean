import WasmBuilder.Proofs.Course.Tiers
import WasmBuilder.Proofs.Lowering.Dispatch
import WasmBuilder.Proofs.Lowering.Targets

/-!
Modules never recur.

A function of a session only calls functions that were declared before it, and so does its code,
wherever the module puts the functions, and whether calls are made directly or through the table. So
no function calls itself, however many others come between. A call comes to an end unless it gets to
a loop, and it needs no more of the stack than one frame for each function that was declared before.
-/

set_option autoImplicit false

namespace WasmBuilder

open Wasm (CallOutcome Datum FuncInstance FuncType Instr Numbers SameCalls StoreKept ValType)
open Wasm.Instr (directSeq partsSeq)

namespace Build

variable {b c : Build}

def CallsFrom (b : Build) (k j : Nat) : Prop := ∃ id, b.Evaluates (.function k) id ∧ b.Calls id j

def Repeats (b : Build) (k : Nat) : Prop :=
  ∃ id init cond step body, b.Evaluates (.function k) id ∧
    b.arena.node id = .ok (.loop init cond step body)

theorem Repeats.before (wanes : Wanes b c) (folds : b.arena.Folds c.arena) {k : Nat}
    (repeats : c.Repeats k) : b.Repeats k := by
  obtain ⟨id, init, cond, step, body, evaluates, here⟩ := repeats
  have old : id < b.arena.size := wanes.sheds.size ▸ Arena.lt_size_of_node here
  obtain ⟨node, there⟩ := Arena.exists_node_of_lt old
  obtain ⟨other, here', folded⟩ := folds id node there
  cases here.symm.trans here'
  cases folded with
  | same => exact ⟨id, init, cond, step, body, wanes.evaluates _ _ evaluates, there⟩

theorem Wanes.calls (wanes : Wanes b c) (folds : b.arena.Folds c.arena) {id : ExprId} {node : Node}
    (here : c.arena.node id = .ok node) (isCall : node.isCall = true) : b.arena.node id = .ok node :=
  folds.call_before (wanes.sheds.size ▸ Arena.lt_size_of_node here) here isCall

end Build

def Wasm.Program.CallsTo (p : Program) (f g : Nat) : Prop :=
  ∃ (type : FuncType) (locals : List ValType) (body : List Instr),
    p.funcs[f]? = some (.code type locals body) ∧ Instr.call g ∈ partsSeq body

namespace Lower

variable {c : Build} {tableExport : Option String} {m : Wasm.Module} {i : Wasm.Instance}

def rank (c : Build) (n : Nat) : Nat := (moduleLayout c).funcIndices.toList.idxOf n

theorem rank_eq {k n : Nat} (index : c.indexOf? k = some n) : rank c n = k := by
  rw [Build.indexOf?, ← Array.getElem?_toList] at index
  obtain ⟨inside, rfl⟩ := List.getElem?_eq_some_iff.1 index
  refine List.Nodup.idxOf_getElem ?_ k inside
  have perm := perm_funcIndices c.functions.toList
  exact perm.nodup_iff.2 List.nodup_range

theorem exists_of_rank_lt {n : Nat} (declared : rank c n < c.functions.size) :
    c.indexOf? (rank c n) = some n := by
  have length : (moduleLayout c).funcIndices.toList.length = c.functions.size := by
    have perm := perm_funcIndices c.functions.toList
    exact perm.length_eq.trans (by rw [List.length_range, Array.length_toList])
  have inside : rank c n < (moduleLayout c).funcIndices.toList.length := length ▸ declared
  rw [Build.indexOf?, ← Array.getElem?_toList, List.getElem?_eq_getElem inside]
  exact congrArg some (List.getElem_idxOf inside)

section
variable {made : List Wasm.Memory} {journal : List HostCall} {host : Imports}
  {offered : List (ImportKey × Nat)} (done : c.lower tableExport = .ok m)
  (linked : Wasm.link m host offered made journal = some i)

include done linked

theorem code_of_link : ∃ types, m.types = types.map Signature.funcType ∧
    ∀ (n : Nat) (type : FuncType) (locals : List ValType) (body : List Instr),
      i.program.funcs[n]? = some (.code type locals body) → ∃ signature shapes ids g,
        FunctionCode (moduleLayout c) types signature shapes ids g ∧ g.body = body := by
  obtain ⟨types, lowered, start, memory, table, exports, parts, imported, slots, _, rfl⟩ :=
    lower_eq_ok done
  obtain ⟨hostFuncs, _, codeFuncs, _, _, _, found, coded, _, _, _, funcs, _⟩ :=
    Wasm.link_eq_some linked rfl
  refine ⟨types, rfl, fun n type locals body here => ?_⟩
  have functions : ∀ i ∈ lowered.filterMap Lowered.import?, ∃ t, i.type = .func t := by
    intro i mem
    obtain ⟨t, _, type, _⟩ := import_typed parts.declarations mem
    exact ⟨t, type⟩
  obtain ⟨fs, none, rfl, resolved, rest⟩ := Wasm.resolveImports_append functions found
  cases resolve_memoryImport imported rest
  rw [funcs, List.append_nil, List.getElem?_toArray] at here
  rcases List.mem_append.1 (List.mem_of_getElem? here) with outside | inside
  · obtain ⟨n, at_⟩ := List.mem_iff_getElem?.1 outside
    obtain ⟨i, _, resolved⟩ := exists_getElem?_of_forall₂ resolved.flip at_
    cases resolved
  · obtain ⟨n, at_⟩ := List.mem_iff_getElem?.1 inside
    obtain ⟨g, there, coded⟩ := exists_getElem?_of_forall₂ coded.flip at_
    obtain ⟨signature, shapes, ids, code, _⟩ := parts.func_code (List.mem_of_getElem? there)
    cases coded
    exact ⟨signature, shapes, ids, g, code, rfl⟩

theorem follows_of_calls (matched : c.Matched) {types : List Signature}
    (same : m.types = types.map Signature.funcType) {P : Nat → Prop} {mayRepeat : Prop}
    {root : ExprId} (shapes : List Shape)
    (calls : ∀ (id : ExprId) (node : Node), c.arena.Within root id → c.arena.node id = .ok node →
      node.isCall = true → ∃ j, P j ∧ c.Calls id j)
    (loops : ∀ (id : ExprId) (init : List ExprId) (cond : ExprId) (step body : List ExprId),
      c.arena.Within root id → c.arena.node id = .ok (.loop init cond step body) → mayRepeat) :
    Follows ((moduleLayout c).withVariables shapes) types (i.program.target? i.store)
      (fun n => ∃ j, P j ∧ c.indexOf? j = some n) mayRepeat root where
  direct id func args signature n within here at_ := by
    obtain ⟨j, holds, d, args', known, called⟩ := calls id _ within here rfl
    obtain ⟨f, _, tells⟩ := matched.tells j d known
    cases called with
    | direct _ there =>
      cases Except.ok.inj (here.symm.trans there)
      exact ⟨j, holds, tells.func ▸ indexOf?_of_funcIndex at_⟩
    | indirect _ _ there => cases here.symm.trans there
  indirect id index args signature t within here listed := by
    obtain ⟨j, holds, d, args', known, called⟩ := calls id _ within here rfl
    obtain ⟨f, declared, tells⟩ := matched.tells j d known
    cases called with
    | direct _ there => cases here.symm.trans there
    | @indirect slot _ kind constant there =>
      cases Except.ok.inj (here.symm.trans there)
      obtain ⟨n, at_⟩ := ((numbering c).declared j).1 (Array.getElem?_eq_some_iff.1 declared).1
      have type : m.types[t]? = some f.signature.funcType := by
        rw [same, List.getElem?_map, listed, Option.map_some, tells.signature_eq]
      have held := (matched.slot_iff known).1 kind
      exact ⟨BitVec.ofNat 32 slot, n, constant,
        (target_of_link done linked held declared at_ type).2, j, holds, at_⟩
  loops := loops

end

end Lower

namespace Session

variable {s : Session} {options : CompileOptions} {c : Build} {m : Wasm.Module}

/-- When a module is made, no expression comes to call or to repeat anything, and no body comes to
evaluate more. -/
theorem wanes_of_assemble (reached : Reached Lawful s) (idle : s.body = none)
    (done : Build.assemble options s.build = .ok m c) :
    Build.Wanes s.build c ∧ s.build.arena.Folds c.arena := by
  have left : Build.left (Build.Chore.run (.assemble options)) s.build = c := by
    rw [Build.Chore.run, Build.left_discard, Build.left, done]
  have step : Next Lawful s { s with build := Build.left (Build.Chore.run (.assemble options)) s.build } :=
    .chore idle (.assemble options)
  have folds := step.folds reached
  rw [arena_of_idle idle, arena_rebuilt idle, left] at folds
  exact ⟨left ▸ Build.wanes_chore (.assemble options), folds⟩

/-- The calls of a module that was made of a session. -/
structure NeverRecurs (s : Session) (c : Build) (m : Wasm.Module) : Prop where
  /-- Each call that a function evaluates is one of a function that was declared before. -/
  below : ∀ (k : Nat) (id : ExprId) (node : Node), s.build.Evaluates (.function k) id →
    s.build.arena.node id = .ok node → node.isCall = true → ∃ j < k, s.build.Calls id j
  /-- Wherever the module runs, calls through the table might as well be made directly. Then code of a
  function calls no functions but those that stand for functions that it calls, which were declared
  before it, and makes no calls through the table. -/
  code : ∀ (host : Imports) (offered : List (ImportKey × Nat)) (made : List Wasm.Memory)
    (journal : List HostCall) (i : Wasm.Instance), Wasm.link m host offered made journal = some i →
    (∀ rounds depth room : Nat, SameCalls i.store ((i.program.direct i.store).invoke rounds depth room)
      (i.program.invoke rounds depth room)) ∧
    ∀ (k n : Nat) (type : FuncType) (locals : List ValType) (body : List Instr),
      c.indexOf? k = some n →
      (i.program.direct i.store).funcs[n]? = some (.code type locals body) →
      ∀ p ∈ partsSeq body,
        p.CallsKnown fun g => ∃ j < k, s.build.CallsFrom k j ∧ c.indexOf? j = some g
  /-- So no function, be it declared or the start function, ever comes to call itself. -/
  acyclic : ∀ (host : Imports) (offered : List (ImportKey × Nat)) (made : List Wasm.Memory)
    (journal : List HostCall) (i : Wasm.Instance), Wasm.link m host offered made journal = some i →
    ∀ f, ¬ Relation.TransGen (i.program.direct i.store).CallsTo f f
  /-- What functions of the module are exported are declared ones. -/
  exported : ∀ x ∈ m.exports, x.kind = .func → ∃ k, c.indexOf? k = some x.index
  /-- From a function that gets to no loop, every call in every state comes to an end of its own: with
  results or with a trap, however seldom loops may be repeated. It is the same end wherever calls
  may nest deeper than there are functions before this one, with room for the frames of these. -/
  ends : ∀ (k n : Nat), c.indexOf? k = some n →
    (∀ j, Relation.ReflTransGen s.build.CallsFrom k j → ¬ s.build.Repeats j) →
    ∀ (host : Imports) (offered : List (ImportKey × Nat)) (made : List Wasm.Memory)
      (journal : List HostCall) (i : Wasm.Instance), Wasm.link m host offered made journal = some i →
      ∀ (t : Wasm.Store) (args : List Datum), StoreKept i.store t → Numbers args →
      (∀ rounds depth room, i.program.invoke (rounds + 1) depth room n t args ≠ .exhausted) ∧
      ∃ o : CallOutcome, o ≠ .exhausted ∧ ∀ frame, (∀ f, i.program.frame f ≤ frame) →
        ∀ rounds depth room, k < depth → (k + 1) * frame ≤ room →
          i.program.invoke (rounds + 1) depth room n t args = o

section
variable {host : Imports} {offered : List (ImportKey × Nat)} {made : List Wasm.Memory}
  {journal : List HostCall} {i : Wasm.Instance} (reached : Reached Lawful s) (idle : s.body = none)
  (done : Build.assemble options s.build = .ok m c)
  (linked : Wasm.link m host offered made journal = some i)

include reached idle done linked

/-- Code of a declared function, with direct calls, calls what the function calls. It repeats code
only if the function has a loop. -/
theorem obeys_of_declared {k n : Nat} {type : FuncType} {locals : List ValType} {body : List Instr}
    (index : c.indexOf? k = some n)
    (here : (i.program.direct i.store).funcs[n]? = some (.code type locals body)) :
    Instr.isPlainSeq body = true ∧ ∀ p ∈ partsSeq body, p.Obeys
      (fun g => ∃ j, (j < k ∧ s.build.CallsFrom k j) ∧ c.indexOf? j = some g)
      (s.build.Repeats k) := by
  have ⟨_, _, lowered, _⟩ := Build.assemble_eq_ok done
  have ⟨tidies, _⟩ := (Build.tidies_assemble options).of_ok done
  have ⟨wanes, folds⟩ := wanes_of_assemble reached idle done
  have matched : c.Matched := (current_of_idle idle ▸ matched_of_reached reached).course tidies.course
  have tiered : s.build.Tiered := current_of_idle idle ▸ tiered_of_reached reached
  obtain ⟨types, same, known⟩ := Lower.linked_of_link lowered linked
  obtain ⟨f, declared⟩ := Lower.exists_declared index
  obtain ⟨n', function, index', found, is⟩ := known.funcs k f declared
  cases index.symm.trans index'
  rw [Wasm.Program.direct, Array.getElem?_map, found, Option.map_some] at here
  cases is with
  | host => cases here
  | @code scope ids g kind code =>
    cases here
    have plain : Instr.isPlainSeq g.body = true := (known.plain n _ found).1
    refine ⟨Instr.isPlainSeq_directSeq g.body ▸ plain, code.obeys fun root inBody => ?_⟩
    have evaluates {id : ExprId} (within : c.arena.Within root id) : c.Evaluates (.function k) id := by
      refine ⟨root, ?_, within⟩
      rw [Build.bodyOf, declared]
      obtain ⟨_, _, _, _⟩ := f
      cases kind
      exact inBody
    -- what simplification leaves of the body was in it before, with the calls that it had
    apply Lower.follows_of_calls lowered linked matched same
    · intro id node within there isCall
      have before := wanes.evaluates _ _ (evaluates within)
      obtain ⟨j, lt, calls⟩ := tiered.below k id node before (wanes.calls folds there isCall) isCall
      exact ⟨j, ⟨lt, id, before, calls⟩, calls.lasts wanes.sheds.lasts wanes.callables⟩
    · intro id init cond step inner within there
      have repeats : c.Repeats k := ⟨id, init, cond, step, inner, evaluates within, there⟩
      exact repeats.before wanes folds

theorem obeys_of_code {n : Nat} {type : FuncType} {locals : List ValType} {body : List Instr}
    (here : (i.program.direct i.store).funcs[n]? = some (.code type locals body)) :
    ∀ p ∈ partsSeq body, p.CallsKnown fun g => ∃ j, c.indexOf? j = some g := by
  have ⟨_, _, lowered, _⟩ := Build.assemble_eq_ok done
  have ⟨tidies, _⟩ := (Build.tidies_assemble options).of_ok done
  have ⟨wanes, folds⟩ := wanes_of_assemble reached idle done
  have matched : c.Matched := (current_of_idle idle ▸ matched_of_reached reached).course tidies.course
  have tiered : s.build.Tiered := current_of_idle idle ▸ tiered_of_reached reached
  obtain ⟨types, same, coded⟩ := Lower.code_of_link lowered linked
  rw [Wasm.Program.direct, Array.getElem?_map] at here
  obtain ⟨function, found, is⟩ := Option.map_eq_some_iff.1 here
  cases function with
  | host => cases is
  | code type locals instrs =>
    cases is
    obtain ⟨signature, shapes, ids, g, code, rfl⟩ := coded n type locals instrs found
    have follows (root : ExprId) : Lower.Follows ((Lower.moduleLayout c).withVariables shapes) types
        (i.program.target? i.store) (fun n => ∃ j, True ∧ c.indexOf? j = some n) True root := by
      apply Lower.follows_of_calls lowered linked matched same
      · intro id node _ there isCall
        obtain ⟨j, calls⟩ := tiered.calls id node (wanes.calls folds there isCall) isCall
        exact ⟨j, trivial, calls.lasts wanes.sheds.lasts wanes.callables⟩
      · exact fun _ _ _ _ _ _ _ => trivial
    intro p mem
    have obeys := (code.obeys (fun root _ => follows root) p mem).1
    cases p with
    | call g =>
      obtain ⟨j, -, index⟩ := obeys
      exact ⟨j, index⟩
    | callIndirect => exact obeys
    | _ => trivial

theorem rank_lt_of_callsTo {f g : Nat} (calls : (i.program.direct i.store).CallsTo f g) :
    Lower.rank c g < Lower.rank c f := by
  obtain ⟨type, locals, body, here, mem⟩ := calls
  by_cases declared : Lower.rank c f < c.functions.size
  · have index := Lower.exists_of_rank_lt declared
    obtain ⟨j, ⟨lt, -⟩, at_⟩ := ((obeys_of_declared reached idle done linked index here).2 _ mem).1
    rwa [Lower.rank_eq at_]
  · -- code that is not declared calls what is declared
    obtain ⟨j, at_⟩ := obeys_of_code reached idle done linked here _ mem
    obtain ⟨f, known⟩ := Lower.exists_declared at_
    rw [Lower.rank_eq at_]
    exact Nat.lt_of_lt_of_le (Array.getElem?_eq_some_iff.1 known).1 (Nat.not_lt.1 declared)

theorem descends_of_calls {k : Nat}
    (straight : ∀ j, Relation.ReflTransGen s.build.CallsFrom k j → ¬ s.build.Repeats j) :
    (i.program.direct i.store).Descends (Lower.rank c) fun n =>
      ∃ j, Relation.ReflTransGen s.build.CallsFrom k j ∧ c.indexOf? j = some n where
  code {f type locals body} among here := by
    obtain ⟨j, leads, index⟩ := among
    obtain ⟨plain, obeys⟩ := obeys_of_declared reached idle done linked index here
    refine ⟨plain, fun p mem => ?_⟩
    obtain ⟨calls, loop⟩ := obeys p mem
    constructor
    · cases p with
      | call g =>
        obtain ⟨j', ⟨lt, called⟩, at_⟩ := calls
        refine ⟨⟨j', leads.tail called, at_⟩, ?_⟩
        rwa [Lower.rank_eq at_, Lower.rank_eq index]
      | callIndirect => exact calls
      | _ => trivial
    · rw [← Bool.not_eq_true]
      exact fun repeats => straight j leads (loop repeats)

end

/-- Modules never recur: functions call functions that were declared before them, so the call graph has
no cycle, and calls that get to no loop come to an end. -/
theorem modules_never_recur (reached : Reached Lawful s) (idle : s.body = none)
    (done : Build.assemble options s.build = .ok m c) : NeverRecurs s c m := by
  have ⟨_, _, lowered, _⟩ := Build.assemble_eq_ok done
  have tiered : s.build.Tiered := current_of_idle idle ▸ tiered_of_reached reached
  refine ⟨tiered.below, ?_, ?_, ?_, ?_⟩
  · intro host offered made journal i linked
    obtain ⟨types, _, known⟩ := Lower.linked_of_link lowered linked
    refine ⟨i.program.invoke_direct known.signatures known.plain i.store, ?_⟩
    intro k n type locals body index here p mem
    have obeys := ((obeys_of_declared reached idle done linked index here).2 p mem).1
    cases p with
    | call g =>
      obtain ⟨j, ⟨lt, calls⟩, at_⟩ := obeys
      exact ⟨j, lt, calls, at_⟩
    | callIndirect => exact obeys
    | _ => trivial
  · intro host offered made journal i linked f cycle
    have descends (g : Nat) (calls : Relation.TransGen (i.program.direct i.store).CallsTo f g) :
        Lower.rank c g < Lower.rank c f := by
      induction calls with
      | single calls => exact rank_lt_of_callsTo reached idle done linked calls
      | tail _ calls ih => exact Nat.lt_trans (rank_lt_of_callsTo reached idle done linked calls) ih
    exact Nat.lt_irrefl _ (descends f cycle)
  · intro x mem isFunc
    obtain ⟨types, spaces⟩ := Lower.indexSpaces lowered
    obtain ⟨exports, each, all⟩ := spaces.exports
    rw [all] at mem
    rcases List.mem_append.1 mem with own | table
    · obtain ⟨n, at_⟩ := List.mem_iff_getElem?.1 own
      obtain ⟨e, _, is⟩ := exists_getElem?_of_forall₂ each.flip at_
      exact ⟨e.2, is.index⟩
    · obtain ⟨name, _, rfl⟩ := List.mem_map.1 table
      cases isFunc
  · intro k n index straight host offered made journal i linked t args store numbers
    obtain ⟨types, _, known⟩ := Lower.linked_of_link lowered linked
    have same (rounds depth room : Nat) :=
      i.program.invoke_direct known.signatures known.plain i.store rounds depth room n t args store numbers
    have descends := descends_of_calls reached idle done linked straight
    have among : ∃ j, Relation.ReflTransGen s.build.CallsFrom k j ∧ c.indexOf? j = some n :=
      ⟨k, .refl, index⟩
    constructor
    · intro rounds depth room
      rw [← same]
      exact descends.invoke_ends depth room among t args
    · obtain ⟨most, bound⟩ := i.program.exists_frame_le
      refine ⟨(i.program.direct i.store).invoke 1 (k + 1) ((k + 1) * most) n t args,
        descends.invoke_ends _ _ among t args, ?_⟩
      intro frame largest rounds depth room deep spacious
      rw [← same]
      have rank := Lower.rank_eq index
      -- both rooms have the lesser of both sizes for each frame
      have either (f : Nat) : i.program.frame f ≤ min frame most := Nat.le_min.2 ⟨largest f, bound f⟩
      have less := Nat.mul_le_mul_left (k + 1) (Nat.min_le_left frame most)
      have less' := Nat.mul_le_mul_left (k + 1) (Nat.min_le_right frame most)
      exact descends.invoke_settles either among (rank ▸ deep) (rank ▸ Nat.lt_succ_self k)
        (rank ▸ less.trans spacious) (rank ▸ less') t args

/-- The build of a function that calls another one through the table is reached by lawful steps. -/
theorem lawful_dispatchBuild : Reached Lawful ⟨dispatchBuild, none, [.plain 2, .plain 0]⟩ := by
  let again : Build.Draft := ⟨false, "again", { id := some "again", result := .none }⟩
  let body : Body := mixedBuild.newBody {} .local .none
  let called : Body := { body with arena := dispatchBuild.arena }
  let filled : Body := { called with statements := [2] }
  have opened : Reached Lawful ⟨mixedBuild, some (.function again, body), [.plain 0]⟩ :=
    lawful_mixedBuild.next
      (.openFunction rfl (Build.openFunction_of_free rfl (by simp [mixedBuild, Build.isTaken])))
  have taken : Reached Lawful ⟨mixedBuild, some (.function again, called), [.plain 2, .plain 0]⟩ :=
    opened.take rfl (.call 2 []) (lawful_of_nil rfl rfl) rfl
  have given : ∀ o ∈ (Body.Step.exec [2]).operands, Session.HandedOut
      ⟨mixedBuild, some (.function again, called), [.plain 2, .plain 0]⟩ o := by
    intro o mem
    rw [List.mem_singleton.1 mem]
    exact .inl List.mem_cons_self
  have executed := taken.take rfl (.exec [2]) ⟨rfl, given⟩
    (show Body.Step.run (.exec [2]) called = .ok none filled from rfl)
  have left : Build.left (Opening.close (.function again) filled) mixedBuild = dispatchBuild := by
    cbv
  exact executed.close rfl left

/-- The module has no loops, so its last function ends in every state. -/
theorem modules_never_recur_of_again : ∃ (s : Session) (m : Wasm.Module) (i : Wasm.Instance),
    Reached Lawful s ∧ s.body = none ∧
    Build.assemble ⟨false, true, none, none⟩ s.build = .ok m s.build ∧
    NeverRecurs s s.build m ∧ s.build.indexOf? 3 = some 3 ∧ (∀ j, ¬ s.build.Repeats j) ∧
    Wasm.link m s.build.imports [] [] [] = some i ∧ StoreKept i.store i.store ∧ Numbers [] ∧
    ∃ o : CallOutcome, o ≠ .exhausted ∧ ∃ frame, ∀ rounds depth room, 3 < depth →
      4 * frame ≤ room → i.program.invoke (rounds + 1) depth room 3 i.store [] = o := by
  have done : Build.assemble ⟨false, true, none, none⟩ dispatchBuild =
      .ok dispatchModule dispatchBuild :=
    Build.assemble_of_lower rfl rfl lower_dispatchBuild fun _ => by decide +kernel
  obtain ⟨i, linked⟩ := Option.isSome_iff_exists.1
    (show (Wasm.link dispatchModule dispatchBuild.imports [] [] []).isSome = true by decide +kernel)
  have index : dispatchBuild.indexOf? 3 = some 3 := rfl
  have straight (j : Nat) : ¬ dispatchBuild.Repeats j := by
    rintro ⟨id, init, cond, step, body, -, here⟩
    have old : id < 3 := Arena.lt_size_of_node here
    match id, old with
    | 0, _ | 1, _ | 2, _ => cases here
  have kept : StoreKept i.store i.store := by
    obtain ⟨_, _, known⟩ := Lower.linked_of_link lower_dispatchBuild linked
    refine ⟨fun d mem => ?_, rfl, rfl⟩
    rw [known.globals] at mem
    cases mem
  have never := modules_never_recur lawful_dispatchBuild rfl done
  obtain ⟨-, o, ends, same⟩ := never.ends 3 3 index (fun j _ => straight j) _ _ _ _ i linked i.store []
    kept nofun
  obtain ⟨frame, largest⟩ := i.program.exists_frame_le
  exact ⟨_, _, i, lawful_dispatchBuild, rfl, done, never, index, straight, linked, kept, nofun, o, ends,
    frame, same frame largest⟩

end Session

end WasmBuilder
