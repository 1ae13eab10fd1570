import WasmBuilder.Proofs.Lowering.Joined
import WasmBuilder.Proofs.Wasm.Resembling
import WasmBuilder.Proofs.Wasm.Loading
import WasmBuilder.Proofs.Wasm.ShorterModules

/-!
Instances of shorter modules.

They begin with the same store as those of longer modules, and calls of them do the same to it. So no
host can tell a module from a shorter one.
-/

set_option autoImplicit false

namespace WasmBuilder.Wasm

namespace Abridgement

variable {A : Abridgement} {s t : Store}

theorem mem_of_get?_poke {slots : Table} {start slot : Nat} {refs : List Datum} {d : Datum}
    (found : (slots.poke start refs).get? slot = some d) : slots.get? slot = some d ∨ d ∈ refs := by
  induction refs generalizing slots start with
  | nil => exact .inl found
  | cons first rest ih =>
    rcases ih found with before | mem
    · unfold Table.get? Table.peek at before ⊢
      dsimp only at before
      split at before
      next inside =>
        rw [Std.HashMap.getD_insert] at before
        split at before
        · exact .inr (Option.some.inj before ▸ List.mem_cons_self)
        · rw [if_pos inside]
          exact .inl before
      next => cases before
    · exact .inr (List.mem_cons_of_mem first mem)

theorem fills_fresh {tables : List TableType} (empty : s.tables = (tables.map Table.ofType).toArray) :
    A.Fills s := by
  intro table slots slot g here found
  rw [empty, List.getElem?_toArray, List.getElem?_map] at here
  obtain ⟨type, _, rfl⟩ := Option.map_eq_some_iff.1 here
  unfold Table.get? Table.peek Table.ofType at found
  dsimp only at found
  rw [Std.HashMap.getD_empty] at found
  split at found
  · cases element : type.element <;> rw [element] at found <;> cases found
  · cases found

theorem fills_placeElements {elements : List Element} (fills : A.Fills s)
    (filled : ∀ e ∈ elements, ∃ (v : Value) (fs : List Nat),
      e = ⟨.active 0 [.const v], .func, fs.map .func⟩ ∧ ∀ f ∈ fs, A.func f)
    (placed : placeElements s elements = some t) : A.Fills t := by
  -- on the segments, each of which writes functions that both modules have
  induction elements generalizing s with
  | nil =>
    cases placed
    exact fills
  | cons e rest ih =>
    obtain ⟨v, fs, rfl, named⟩ := filled e List.mem_cons_self
    obtain ⟨slot, offset, placed⟩ := Option.bind_eq_some_iff.1 placed
    obtain ⟨refs, made, placed⟩ := Option.bind_eq_some_iff.1 placed
    dsimp only at placed
    split at placed
    next => cases placed
    next =>
      refine ih ?_ (fun e mem => filled e (List.mem_cons_of_mem _ mem)) placed
      intro table slots k g here found
      unfold Store.modifyTable at here
      dsimp only at here
      rw [Array.getElem?_modify] at here
      split at here
      next same =>
        obtain ⟨before, there, rfl⟩ := Option.map_eq_some_iff.1 here
        rcases mem_of_get?_poke found with found | mem
        · exact fills table before k g there found
        · obtain ⟨l, listed⟩ := List.mem_iff_getElem?.1 mem
          obtain ⟨item, named', is⟩ := exists_getElem?_of_forall₂ (mapM_eq_some_iff.1 made).flip listed
          obtain ⟨f, mem', rfl⟩ := List.mem_map.1 (List.mem_of_getElem? named')
          cases is
          exact named g mem'
      next => exact fills table slots k g here found

end Abridgement

theorem Module.resolveImports_of_same {m n : Module} (host : Imports) (offered : List (ImportKey × Nat))
    (memories : Array Memory) {xs ys : List Import} (same : List.Forall₂ (m.SameImport n) xs ys) :
    resolveImports host n.types offered memories ys =
      resolveImports host m.types offered memories xs := by
  induction same with
  | nil => rfl
  | cons first _ ih =>
    cases first with
    | func types =>
      obtain ⟨t, here, there⟩ := types
      simp only [resolveImports, resolveFunc, here, there, ih]
    | memory => simp only [resolveImports, ih]

namespace Module

structure Twins (m n : Module) (i j : Instance) : Prop where
  embeds : (m.abridgement n).Embeds i.program j.program
  exports : j.exports = i.exports
  memories : j.memories = i.memories
  exported : ∀ e ∈ i.exports, e.kind = .func → (m.abridgement n).func e.index
  store : j.store = i.store
  fills : (m.abridgement n).Fills i.store

namespace Shortens

variable {m n : Module} {idle : List Func} (shortens : Shortens m n idle)
  {host : Imports} {offered : List (ImportKey × Nat)} {made : List Memory} {journal : List HostCall}

include shortens

theorem link_eq (valid : m.isValid = true) (host : Imports) (offered : List (ImportKey × Nat))
    (made : List Memory) (journal : List HostCall) :
    (link n host offered made journal).map (fun j =>
        (j.exports, j.memories, j.store, j.program.memories)) =
      (link m host offered made journal).map fun i =>
        (i.exports, i.memories, i.store, i.program.memories) := by
  obtain ⟨c, known⟩ : ∃ c, m.context? = some c := by
    unfold Module.isValid at valid
    split at valid
    · cases valid
    next c known => exact ⟨c, known⟩
  obtain ⟨types, known', _⟩ := shortens.exists_context known
  have codes {m : Module} {c : Context} (known : m.context? = some c) :
      ∃ codes, (m.funcs.mapM fun f => m.types[f.typeIndex]?.bind fun t =>
        some (FuncInstance.code t f.locals f.body)) = some codes := by
    apply exists_mapM_eq_some
    intro f mem
    obtain ⟨t, found⟩ := exists_type known mem
    exact ⟨.code t f.locals f.body, by rw [found]; rfl⟩
  obtain ⟨codes₁, coded⟩ := codes known
  obtain ⟨codes₂, coded'⟩ := codes known'
  simp only [link, known, known', resolveImports_of_same host offered made.toArray shortens.imports,
    shortens.memories, shortens.tables, shortens.globals, shortens.elements, shortens.data,
    shortens.data', shortens.exports, coded, coded', Option.bind_eq_bind, Option.bind_some,
    Option.pure_def, placeData]
  cases resolveImports host m.types offered made.toArray m.imports with
  | none => rfl
  | some found =>
    dsimp only [Option.bind_some]
    split
    · rfl
    · cases m.globals.mapM fun g => constantValue? g.init with
      | none => rfl
      | some globals =>
        cases m.elements.mapM Element.available? with
        | none => rfl
        | some elements =>
          dsimp only [Option.bind_some]
          cases placeElements _ m.elements <;> rfl

theorem plain : ∀ g ∈ m.funcs, Instr.isPlainSeq g.body = true := by
  intro g mem
  obtain ⟨shared, both, shorter⟩ := shortens.funcs
  rcases List.mem_append.1 (both ▸ mem) with mem | mem
  · obtain ⟨k, here⟩ := List.mem_iff_getElem?.1 mem
    obtain ⟨_, _, shorter⟩ := exists_getElem?_of_forall₂ shorter here
    exact shorter.plain
  · rcases shortens.start with ⟨rfl, _⟩ | ⟨_, rfl, _⟩
    · cases mem
    · cases List.mem_singleton.1 mem
      rfl

theorem plain' : ∀ g ∈ n.funcs, Instr.isPlainSeq g.body = true := by
  intro g mem
  obtain ⟨shared, _, shorter⟩ := shortens.funcs
  obtain ⟨k, here⟩ := List.mem_iff_getElem?.1 mem
  obtain ⟨_, _, shorter⟩ := exists_getElem?_of_forall₂ shorter.flip here
  exact shorter.plain'

theorem fills_of_link {i : Instance} (linked : link m host offered made journal = some i) :
    (m.abridgement n).Fills i.store := by
  obtain ⟨_, _, _, placed⟩ := stored_of_link linked shortens.data
  exact Abridgement.fills_placeElements (Abridgement.fills_fresh rfl) shortens.filled placed

theorem twins_of_link (valid : m.isValid = true) {i j : Instance}
    (linked : link m host offered made journal = some i)
    (linked' : link n host offered made journal = some j) : Twins m n i j := by
  have same := shortens.link_eq valid host offered made journal
  rw [linked, linked'] at same
  obtain ⟨exports, memories, store, numbers⟩ :
      j.exports = i.exports ∧ j.memories = i.memories ∧ j.store = i.store ∧
        j.program.memories = i.program.memories := by
    simpa using same
  obtain ⟨c, hostFuncs, codeFuncs, hostMemories, joined⟩ := joined_of_link linked
  obtain ⟨d, hostFuncs', codeFuncs', hostMemories', joined'⟩ := joined_of_link linked'
  obtain ⟨types, known', count, funcs⟩ := shortens.exists_context joined.offers
  obtain rfl : d = c.retyped n.types types := Option.some.inj (joined'.offers.symm.trans known')
  have contexts (P : Nat → Nat → Prop) := Shortens.contexts joined.offers count funcs P
  obtain ⟨rfl, rfl⟩ : hostFuncs = hostFuncs' ∧ hostMemories = hostMemories' := by
    have found := joined'.resolved
    rw [resolveImports_of_same host offered made.toArray shortens.imports, joined.resolved] at found
    simpa using found
  have imported : hostFuncs.length = n.importedFuncs.length := joined'.length_hosts
  obtain ⟨shared, both, shorter⟩ := shortens.funcs
  -- A function behind those of the host, in both modules.
  have code (k : Nat) (inside : k < n.funcs.length) : ∃ f g t P, m.funcs[k]? = some f ∧
      n.funcs[k]? = some g ∧ m.types[f.typeIndex]? = some t ∧ n.types[g.typeIndex]? = some t ∧
      Abridgement.Places P t.params f.locals g.locals ∧
      (m.abridgement n).ShortensSeq P f.body g.body := by
    obtain ⟨f, here, shorter⟩ :=
      exists_getElem?_of_forall₂ shorter.flip (List.getElem?_eq_getElem inside)
    obtain ⟨t, P, typed, typed', places, body⟩ := shorter.code
    refine ⟨f, _, t, P, ?_, List.getElem?_eq_getElem inside, typed, typed', places, body⟩
    rw [both, List.getElem?_append_left (List.getElem?_eq_some_iff.1 here).1, here]
  refine ⟨⟨?_, ?_, numbers, ?_, ?_, ?_, ?_⟩, exports, memories, ?_, store, shortens.fills_of_link linked⟩
  · rintro k l ⟨t, here, there⟩
    rw [joined.types, joined'.types, List.getElem?_toArray, List.getElem?_toArray, here, there]
  · intro f func
    rw [joined.signatures_eq, joined'.signatures_eq, (contexts fun _ _ => True).funcs func]
  · intro f func
    by_cases inside : f < hostFuncs.length
    · obtain ⟨key, function, here⟩ :=
        (typed_of_resolveImports joined.resolved).2 _ (List.getElem_mem inside)
      refine ⟨.host key function, .host key function, ?_, ?_, .host⟩
      · rw [joined.getElem?_host inside, List.getElem?_eq_getElem inside, here]
      · rw [joined'.getElem?_host inside, List.getElem?_eq_getElem inside, here]
    · obtain ⟨k, rfl⟩ : ∃ k, f = hostFuncs.length + k := ⟨f - hostFuncs.length, by omega⟩
      have behind : k < n.funcs.length := by
        have : hostFuncs.length + k < n.importedFuncs.length + n.funcs.length := func
        omega
      obtain ⟨f, g, t, P, here, there, typed, typed', places, body⟩ := code k behind
      obtain ⟨_, at_, coded⟩ := exists_getElem?_of_forall₂ joined.coded here
      obtain ⟨_, at_', coded'⟩ := exists_getElem?_of_forall₂ joined'.coded there
      cases coded with
      | @mk type typed₁ =>
        cases coded' with
        | @mk type' typed₂ =>
          obtain rfl : type = t := Option.some.inj (typed₁.symm.trans typed)
          obtain rfl : type' = type := Option.some.inj (typed₂.symm.trans typed')
          exact ⟨_, _, (joined.getElem?_code k).trans at_, (joined'.getElem?_code k).trans at_',
            .code places body⟩
  · intro f func
    by_cases inside : f < hostFuncs.length
    · rw [joined.frame_host inside, joined'.frame_host inside]
    · obtain ⟨k, rfl⟩ : ∃ k, f = hostFuncs.length + k := ⟨f - hostFuncs.length, by omega⟩
      have behind : k < n.funcs.length := by
        have : hostFuncs.length + k < n.importedFuncs.length + n.funcs.length := func
        omega
      obtain ⟨f, g, t, P, here, there, typed, typed', places, body⟩ := code k behind
      rw [joined.frame_code here typed, joined'.frame_code there typed', body.size (contexts P) places]
  · exact joined.checked valid shortens.plain
  · exact joined'.checked (shortens.isValid valid) shortens.plain'
  · rw [joined.exports]
    exact shortens.exported

end Shortens

namespace Twins

variable {m n : Module} {i j : Instance} (twins : Twins m n i j)

include twins

theorem withStore {t : Store} (fills : (m.abridgement n).Fills t) :
    Twins m n { i with store := t } { j with store := t } :=
  { twins with store := rfl, fills := fills }

theorem invoke (bounds : Bounds) {f : Nat} (func : (m.abridgement n).func f) (args : List Value)
    (enough : (i.funcType? f).any (·.params.length = args.length) = true) :
    j.invoke bounds f args = i.invoke bounds f args ∧
      (m.abridgement n).Leaves (i.invoke bounds f args) := by
  unfold Instance.invoke
  rw [twins.store]
  refine twins.embeds.invoke bounds.rounds bounds.room bounds.room func twins.fills ?_
  rw [List.length_map]
  exact enough

/-- A call answers the same, and leaves twins. -/
theorem call (bounds : Bounds) (name : String) (args : List Value) :
    ∃ i' j', Twins m n i' j' ∧
      ((∃ values, Instance.call bounds name args i = .ok values i' ∧
          Instance.call bounds name args j = .ok values j') ∨
        ∃ e, Instance.call bounds name args i = .error e i' ∧
          Instance.call bounds name args j = .error e j') := by
  rw [Instance.call_run, Instance.call_run]
  -- exports are the same, and only name functions that both have
  have named : j.exportedFunc? name = i.exportedFunc? name := by
    unfold Instance.exportedFunc?
    rw [twins.exports]
  rw [named]
  cases exported : i.exportedFunc? name with
  | none => exact ⟨i, j, twins, .inr ⟨.noFunction name, rfl, rfl⟩⟩
  | some f =>
    have func : (m.abridgement n).func f := by
      obtain ⟨e, found, rfl⟩ := Option.map_eq_some_iff.1 exported
      have kind := List.find?_some found
      rw [Bool.and_eq_true] at kind
      exact twins.exported e (List.mem_of_find?_eq_some found) (beq_iff_eq.1 kind.2)
    have type : j.funcType? f = i.funcType? f := twins.embeds.signatures func
    dsimp only
    rw [type]
    split
    next fits =>
      have enough : (i.funcType? f).any (·.params.length = args.length) = true := by
        obtain ⟨type, known, params⟩ := (Option.any_eq_true _ _).1 fits
        refine (Option.any_eq_true _ _).2 ⟨type, known, ?_⟩
        rw [decide_eq_true_eq] at params ⊢
        rw [params, List.length_map]
      obtain ⟨same, left⟩ := twins.invoke bounds func args enough
      rw [same]
      cases outcome : i.invoke bounds f args with
      | done results t =>
        rw [outcome] at left
        exact ⟨_, _, twins.withStore left, .inl ⟨_, rfl, rfl⟩⟩
      | trap cause t =>
        rw [outcome] at left
        exact ⟨_, _, twins.withStore left, .inr ⟨_, rfl, rfl⟩⟩
      | exhausted => exact ⟨i, j, twins, .inr ⟨_, rfl, rfl⟩⟩
    next => exact ⟨i, j, twins, .inr ⟨_, rfl, rfl⟩⟩

theorem answers (bounds : Bounds) (calls : List (String × List Value)) :
    ∃ answers i' j', Twins m n i' j' ∧ i.answers bounds calls = (answers, i') ∧
      j.answers bounds calls = (answers, j') := by
  induction calls generalizing i j with
  | nil => exact ⟨[], i, j, twins, rfl, rfl⟩
  | cons call rest ih =>
    obtain ⟨name, args⟩ := call
    obtain ⟨i', j', twins, ⟨values, here, there⟩ | ⟨e, here, there⟩⟩ := twins.call bounds name args
    all_goals
      obtain ⟨answers, last, last', twins, left, right⟩ := ih twins
      unfold Instance.answers
      rw [here, there]
      dsimp only
      rw [left, right]
      exact ⟨_, last, last', twins, rfl, rfl⟩

end Twins

end Module

/-- What a host learns from a module: what calls of its exports answer, one after the other, and what is
left behind the last of them, with the calls of the host itself. -/
structure Observation where
  answers : List (Except RunError (List Value))
  store : Store
  memories : List (ImportKey × Nat)

def Module.observe (m : Module) (host : Imports) (bounds : Bounds)
    (calls : List (String × List Value)) : HostM Observation := do
  let i ← instantiate m host bounds
  let (answers, last) := i.answers bounds calls
  return ⟨answers, last.store, last.memories⟩

namespace Module.Shortens

variable {m n : Module} {idle : List Func} (shortens : Shortens m n idle)
  {host : Imports} {offered : List (ImportKey × Nat)} {made : List Memory} {journal : List HostCall}

include shortens

theorem func_of_start (valid : m.isValid = true) {i : Instance}
    (linked : link m host offered made journal = some i) (both : n.start = m.start) {f : Nat}
    (starts : m.start = some f) :
    (m.abridgement n).func f ∧ i.funcType? f = some ⟨[], []⟩ := by
  obtain ⟨c, _, _, _, joined⟩ := joined_of_link linked
  obtain ⟨types, _, count, funcs⟩ := shortens.exists_context joined.offers
  have type : c.funcs[f]? = some ⟨[], []⟩ := by
    unfold Module.isValid at valid
    rw [joined.offers] at valid
    simp only [Bool.and_eq_true] at valid
    obtain ⟨⟨⟨⟨-, start⟩, -⟩, -⟩, -⟩ := valid
    rw [starts] at start
    exact beq_iff_eq.1 start
  refine ⟨?_, ?_⟩
  · rcases shortens.start with ⟨rfl, _⟩ | ⟨_, _, _, _, none⟩
    · rw [funcs, List.map_nil, List.append_nil, List.getElem?_toArray] at type
      have inside : f < types.length := (List.getElem?_eq_some_iff.1 type).1
      rw [count] at inside
      exact inside
    · rw [both, starts] at none
      cases none
  · unfold Instance.funcType?
    rw [joined.signatures_eq, type]

theorem invoke_idle {i : Instance} (linked : link m host offered made journal = some i) {k : Nat}
    (is : idle = [⟨k, [], []⟩]) (listed : m.types[k]? = some ⟨[], []⟩) {bounds : Bounds}
    (rounds : 0 < bounds.rounds) (room : 0 < bounds.room) :
    i.invoke bounds (n.importedFuncs.length + n.funcs.length) [] = .done [] i.store := by
  obtain ⟨c, hostFuncs, codeFuncs, _, joined⟩ := joined_of_link linked
  obtain ⟨shared, both, shorter⟩ := shortens.funcs
  have hosts : n.importedFuncs.length = hostFuncs.length :=
    shortens.importedFuncs.length_eq.symm.trans joined.length_hosts.symm
  have last : m.funcs[n.funcs.length]? = some ⟨k, [], []⟩ := by
    rw [both, is, ← shorter.length_eq, List.getElem?_append_right (Nat.le_refl _), Nat.sub_self]
    rfl
  obtain ⟨function, here, coded⟩ := exists_getElem?_of_forall₂ joined.coded last
  have frame := joined.frame_code last listed
  obtain rfl : function = .code ⟨[], []⟩ [] [] := by
    cases coded with
    | @mk type typed =>
      obtain rfl : type = ⟨[], []⟩ := Option.some.inj (typed.symm.trans listed)
      rfl
  have least : Frame.size c ⟨[], []⟩ [] [] = 1 := by
    have unused : Frame.wordsOf (Frame.wideLocals #[]) 0 = 0 := by decide +kernel
    simp [Frame.size, Frame.traceSeq, Frame.measureSeq, unused]
  have room' : ¬ bounds.room < Frame.size c ⟨[], []⟩ [] [] := by
    rw [least]
    omega
  obtain ⟨rounds', same⟩ := Nat.exists_eq_succ_of_ne_zero rounds.ne'
  obtain ⟨depth, deep⟩ := Nat.exists_eq_succ_of_ne_zero room.ne'
  rw [← joined.getElem?_code] at here
  unfold Instance.invoke
  rw [deep, Program.invoke, ← deep, same, Program.runChain, ← same, hosts]
  unfold Program.runOne
  rw [here, frame]
  dsimp only
  rw [if_neg room']
  rfl

theorem started (valid : m.isValid = true) {i j : Instance}
    (linked : link m host offered made journal = some i)
    (linked' : link n host offered made journal = some j) {bounds : Bounds}
    (rounds : 0 < bounds.rounds) (room : 0 < bounds.room) :
    (∃ i' j' after, Twins m n i' j' ∧ i.started bounds m.start journal = .ok i' after ∧
      j.started bounds n.start journal = .ok j' after) ∨
    ∃ e after, i.started bounds m.start journal = .error e after ∧
      j.started bounds n.start journal = .error e after := by
  have twins := shortens.twins_of_link valid linked linked'
  rcases shortens.start with ⟨rfl, same⟩ | ⟨k, is, listed, starts, none⟩
  · rw [same]
    cases starts : m.start with
    | none => exact .inl ⟨i, j, journal, twins, rfl, rfl⟩
    | some f =>
      obtain ⟨func, type⟩ := shortens.func_of_start valid linked same starts
      obtain ⟨run, left⟩ := twins.invoke bounds func [] (by rw [type]; rfl)
      unfold Instance.started
      dsimp only
      rw [run]
      cases outcome : i.invoke bounds f [] with
      | done results t =>
        rw [outcome] at left
        exact .inl ⟨_, _, t.journal, twins.withStore left, rfl, rfl⟩
      | trap cause t => exact .inr ⟨_, t.journal, rfl, rfl⟩
      | exhausted => exact .inr ⟨_, journal, rfl, rfl⟩
  -- the start function did nothing and is gone
  · refine .inl ⟨i, j, journal, twins, ?_, ?_⟩
    · rw [starts]
      unfold Instance.started
      dsimp only
      rw [shortens.invoke_idle linked is listed rounds room]
      obtain ⟨_, _, _, placed⟩ := stored_of_link linked shortens.data
      have kept : i.store.journal = journal := (placeElements_eq_some placed).2.2
      change EStateM.Result.ok i i.store.journal = _
      rw [kept]
    · rw [none]
      rfl

theorem observe_eq (valid : m.isValid = true) (host : Imports) {bounds : Bounds}
    (rounds : 0 < bounds.rounds) (room : 0 < bounds.room) (calls : List (String × List Value)) :
    n.observe host bounds calls = m.observe host bounds calls := by
  funext journal
  unfold Module.observe
  simp only [bind, EStateM.bind]
  cases created : createMemories (offeredMemories host) with
  | error e => simp only [instantiate, created]
  | ok made =>
    rw [instantiate_of_created created, instantiate_of_created created]
    have same := shortens.link_eq valid host (offeredNumbers host) made journal
    cases linked : link m host (offeredNumbers host) made journal with
    | none =>
      rw [linked, Option.map_none, Option.map_eq_none_iff] at same
      rw [same]
    | some i =>
      rw [linked] at same
      obtain ⟨j, linked', _⟩ := Option.map_eq_some_iff.1 same
      rw [linked']
      dsimp only
      obtain ⟨i', j', after, twins, here, there⟩ | ⟨e, after, here, there⟩ :=
        shortens.started valid linked linked' rounds room
      · obtain ⟨answers, last, last', twins, left, right⟩ := twins.answers bounds calls
        rw [here, there]
        dsimp only
        rw [left, right, twins.store, twins.memories]
      · rw [here, there]

end Module.Shortens

end WasmBuilder.Wasm
