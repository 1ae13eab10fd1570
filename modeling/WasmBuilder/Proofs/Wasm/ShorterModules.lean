import WasmBuilder.Proofs.Wasm.Abridgement
import WasmBuilder.Proofs.Wasm.Loading
import WasmBuilder.Proofs.Wasm.Resembling
import WasmBuilder.Proofs.Wasm.ShorterFrames

/-!
Modules of shorter functions.

A module whose functions are shorter has fewer types, and it may lack a start function that does
nothing. It is valid if the longer one is, and nobody can tell it from the longer one by loading it and
calling what it exports.
-/

set_option autoImplicit false

namespace WasmBuilder.Wasm

namespace Instr

variable {c : Context}

theorem checkSeq_binary {op : BinOp} {a b v : Value} (carried : op.constant? a b = some v)
    (rest : List Instr) (s : OpStack) :
    checkSeq (.const a :: .const b :: .binary op :: rest) c s = checkSeq (.const v :: rest) c s := by
  obtain ⟨left, right⟩ := BinOp.operandTypes_of_constant? carried
  have both : ((s.pushAll [.num a.type]).pushAll [.num b.type]).popAll
      [.num op.operandType, .num op.operandType] = some s := by
    rw [← OpStack.pushAll_append, left, right]
    exact OpStack.popAll_pushAll s _
  have computed : (Instr.binary op).check c ((s.pushAll [.num a.type]).pushAll [.num b.type]) =
      some (s.pushAll [.num op.resultType]) := by
    change (OpStack.popAll _ [.num op.operandType, .num op.operandType]).bind _ = _
    rw [both]
    rfl
  change ((Instr.binary op).check c ((s.pushAll [.num a.type]).pushAll [.num b.type])).bind
    (checkSeq rest c) = checkSeq rest c (s.pushAll [.num v.type])
  rw [computed, BinOp.type_of_constant? carried]
  rfl

theorem checkSeq_unary {op : UnOp} {a v : Value} (carried : op.constant? a = some v)
    (rest : List Instr) (s : OpStack) :
    checkSeq (.const a :: .unary op :: rest) c s = checkSeq (.const v :: rest) c s := by
  have only : (s.pushAll [.num a.type]).popAll [.num op.operandType] = some s := by
    rw [UnOp.operandType_of_constant? carried]
    exact OpStack.popAll_pushAll s _
  have computed : (Instr.unary op).check c (s.pushAll [.num a.type]) =
      some (s.pushAll [.num op.resultType]) := by
    change (OpStack.popAll _ [.num op.operandType]).bind _ = _
    rw [only]
    rfl
  change ((Instr.unary op).check c (s.pushAll [.num a.type])).bind (checkSeq rest c) =
    checkSeq rest c (s.pushAll [.num v.type])
  rw [computed, UnOp.type_of_constant? carried]
  rfl

end Instr

namespace Abridgement

variable {A : Abridgement} {P : Nat → Nat → Prop} {c d : Context} {s s' t : OpStack}

theorem check_of_type {i j : Instr} (typed : j.type? d = i.type? c)
    (checked : (do
      let type ← i.type? c
      let s ← s.popAll type.params
      return s.pushAll type.results) = some s')
    (le : t.Subsumes s) : ∃ t', (do
      let type ← j.type? d
      let s ← t.popAll type.params
      return s.pushAll type.results) = some t' ∧ t'.Subsumes s' := by
  obtain ⟨type, known, checked⟩ := Option.bind_eq_some_iff.1 checked
  obtain ⟨popped, pops, checked⟩ := Option.bind_eq_some_iff.1 checked
  cases checked
  obtain ⟨popped', pops', le⟩ := le.popAll pops
  refine ⟨popped'.pushAll type.results, ?_, le.pushAll _⟩
  exact Option.bind_eq_some_iff.2 ⟨type, typed.trans known,
    Option.bind_eq_some_iff.2 ⟨popped', pops', rfl⟩⟩

theorem check_nameless (contexts : A.Contexts P c d) {i : Instr} (isNameless : i.isNameless = true)
    (checked : i.check c s = some s') (le : t.Subsumes s) :
    ∃ t', i.check d t = some t' ∧ t'.Subsumes s' := by
  have typed := contexts.type?_nameless isNameless
  cases i with
  | drop =>
    obtain ⟨⟨a, popped⟩, pops, rfl⟩ := Option.map_eq_some_iff.1 checked
    obtain ⟨b, popped', pops', le, _⟩ := le.popAny pops
    exact ⟨popped', Option.map_eq_some_iff.2 ⟨_, pops', rfl⟩, le⟩
  | br l =>
    obtain ⟨types, named, checked⟩ := Option.bind_eq_some_iff.1 checked
    obtain ⟨popped, pops, checked⟩ := Option.bind_eq_some_iff.1 checked
    cases checked
    obtain ⟨popped', pops', _⟩ := le.popAll pops
    refine ⟨.afterJump, ?_, .refl _⟩
    exact Option.bind_eq_some_iff.2 ⟨types, contexts.labels ▸ named,
      Option.bind_eq_some_iff.2 ⟨popped', pops', rfl⟩⟩
  | brIf l =>
    unfold Instr.check at checked
    obtain ⟨types, named, checked⟩ := Option.bind_eq_some_iff.1 checked
    obtain ⟨decided, top, checked⟩ := Option.bind_eq_some_iff.1 checked
    obtain ⟨popped, pops, checked⟩ := Option.bind_eq_some_iff.1 checked
    cases checked
    obtain ⟨decided', top', le⟩ := le.pop top
    obtain ⟨popped', pops', le⟩ := le.popAll pops
    refine ⟨popped'.pushAll types, ?_, le.pushAll types⟩
    unfold Instr.check
    exact Option.bind_eq_some_iff.2 ⟨types, contexts.labels ▸ named,
      Option.bind_eq_some_iff.2 ⟨decided', top', Option.bind_eq_some_iff.2 ⟨popped', pops', rfl⟩⟩⟩
  | ret =>
    obtain ⟨popped, pops, checked⟩ := Option.bind_eq_some_iff.1 checked
    cases checked
    obtain ⟨popped', pops', _⟩ := le.popAll pops
    refine ⟨.afterJump, ?_, .refl _⟩
    exact Option.bind_eq_some_iff.2 ⟨popped', contexts.results ▸ pops', rfl⟩
  | const | binary | unary | globalGet | globalSet | load | store | memorySize | memoryGrow =>
    exact check_of_type typed checked le
  | _ => cases isNameless

section
variable {A : Abridgement} {P : Nat → Nat → Prop}

mutual

theorem Shortens.check {c d : Context} (contexts : A.Contexts P c d) {i j : Instr}
    (shortens : A.Shortens P i j) {s s' t : OpStack} (checked : i.check c s = some s')
    (le : t.Subsumes s) : ∃ t', j.check d t = some t' ∧ t'.Subsumes s' := by
  match shortens with
  | .nameless isNameless => exact check_nameless contexts isNameless checked le
  | @Shortens.localGet _ _ k l places =>
    have typed : (Instr.localGet l).type? d = (Instr.localGet k).type? c := by
      simp only [Instr.type?, contexts.locals places]
    exact check_of_type typed checked le
  | @Shortens.localSet _ _ k l places =>
    have typed : (Instr.localSet l).type? d = (Instr.localSet k).type? c := by
      simp only [Instr.type?, contexts.locals places]
    exact check_of_type typed checked le
  | @Shortens.call _ _ f funcs =>
    have typed : (Instr.call f).type? d = (Instr.call f).type? c := contexts.funcs funcs
    exact check_of_type typed checked le
  | @Shortens.callIndirect _ _ i j types =>
    have typed : (Instr.callIndirect j 0).type? d = (Instr.callIndirect i 0).type? c := by
      simp only [Instr.type?, Context.indirectType?, contexts.types types, contexts.tables]
    exact check_of_type typed checked le
  | .block types inside =>
    obtain ⟨f, popped, inner, typed, pops, body, left, rfl⟩ := Instr.exists_of_check_block checked
    obtain ⟨popped', pops', le⟩ := le.popAll pops
    obtain ⟨inner', body', more⟩ := inside.check (contexts.withLabel _) body (.refl _)
    refine ⟨popped'.pushAll f.results, ?_, le.pushAll _⟩
    simp only [Instr.check, contexts.blockType types, typed, pops', body', more.leaves left, require,
      Option.bind_eq_bind, Option.bind_some, if_true, Option.pure_def]
  | .loop types inside =>
    obtain ⟨f, popped, inner, typed, pops, body, left, rfl⟩ := Instr.exists_of_check_loop checked
    obtain ⟨popped', pops', le⟩ := le.popAll pops
    obtain ⟨inner', body', more⟩ := inside.check (contexts.withLabel _) body (.refl _)
    refine ⟨popped'.pushAll f.results, ?_, le.pushAll _⟩
    simp only [Instr.check, contexts.blockType types, typed, pops', body', more.leaves left, require,
      Option.bind_eq_bind, Option.bind_some, if_true, Option.pure_def]
  | .ifThen types inside =>
    obtain ⟨f, decided, popped, inner, typed, top, pops, body, left, same, rfl⟩ :=
      Instr.exists_of_check_ifThen checked
    obtain ⟨decided', top', le⟩ := le.pop top
    obtain ⟨popped', pops', le⟩ := le.popAll pops
    obtain ⟨inner', body', more⟩ := inside.check (contexts.withLabel _) body (.refl _)
    have keeps : (f.params == f.results) = true := beq_iff_eq.2 same
    refine ⟨popped'.pushAll f.results, ?_, le.pushAll _⟩
    simp only [Instr.check, contexts.blockType types, typed, top', pops', body', more.leaves left,
      keeps, require, Bool.and_self, Option.bind_eq_bind, Option.bind_some, if_true, Option.pure_def]
  | .ifElse types yes no =>
    obtain ⟨f, decided, popped, one, two, typed, top, pops, first, left, second, left', rfl⟩ :=
      Instr.exists_of_check_ifElse checked
    obtain ⟨decided', top', le⟩ := le.pop top
    obtain ⟨popped', pops', le⟩ := le.popAll pops
    obtain ⟨one', first', more⟩ := yes.check (contexts.withLabel _) first (.refl _)
    obtain ⟨two', second', more'⟩ := no.check (contexts.withLabel _) second (.refl _)
    refine ⟨popped'.pushAll f.results, ?_, le.pushAll _⟩
    simp only [Instr.check, contexts.blockType types, typed, top', pops', first', second',
      more.leaves left, more'.leaves left', require, Option.bind_eq_bind, Option.bind_some, if_true,
      Option.pure_def]

/-- Shorter code passes the check where the longer code does, and leaves no more than that. -/
theorem ShortensSeq.check {c d : Context} (contexts : A.Contexts P c d) {code code' : List Instr}
    (shortens : A.ShortensSeq P code code') {s s' t : OpStack}
    (checked : Instr.checkSeq code c s = some s') (le : t.Subsumes s) :
    ∃ t', Instr.checkSeq code' d t = some t' ∧ t'.Subsumes s' := by
  match shortens with
  | .nil =>
    cases checked
    exact ⟨t, rfl, le⟩
  | .cons first others =>
    obtain ⟨middle, one, rest⟩ := Option.bind_eq_some_iff.1 checked
    obtain ⟨middle', one', le⟩ := first.check contexts one le
    obtain ⟨t', rest', le⟩ := others.check contexts rest le
    exact ⟨t', Option.bind_eq_some_iff.2 ⟨middle', one', rest'⟩, le⟩
  | .binary carried others =>
    rw [Instr.checkSeq_binary carried] at checked
    obtain ⟨t', rest', le⟩ := others.check contexts checked (le.pushAll _)
    exact ⟨t', rest', le⟩
  | .unary carried others =>
    rw [Instr.checkSeq_unary carried] at checked
    obtain ⟨t', rest', le⟩ := others.check contexts checked (le.pushAll _)
    exact ⟨t', rest', le⟩
  | .behindReturn lost others =>
    obtain ⟨middle, one, both⟩ := Option.bind_eq_some_iff.1 checked
    rw [Instr.checkSeq_append] at both
    obtain ⟨behind, _, rest⟩ := Option.bind_eq_some_iff.1 both
    obtain ⟨popped, pops, _⟩ := Option.bind_eq_some_iff.1 one
    obtain ⟨popped', pops', _⟩ := le.popAll pops
    obtain ⟨t', rest', le⟩ := others.check contexts rest (OpStack.afterJump_subsumes behind)
    refine ⟨t', Option.bind_eq_some_iff.2 ⟨.afterJump, ?_, rest'⟩, le⟩
    exact Option.bind_eq_some_iff.2 ⟨popped', contexts.results ▸ pops', rfl⟩

end

theorem ShortensSeq.isTyped {c d : Context} (contexts : A.Contexts P c d) {code code' : List Instr}
    (shortens : A.ShortensSeq P code code') {results : List ValType}
    (typed : Instr.isTyped code c results = true) : Instr.isTyped code' d results = true := by
  unfold Instr.isTyped at typed ⊢
  split at typed
  next s checked =>
    obtain ⟨t, checked', le⟩ := shortens.check contexts checked (.refl _)
    rw [checked']
    exact le.leaves typed
  next => cases typed

end

end Abridgement

def Context.retyped (c : Context) (types funcs : List FuncType) : Context :=
  { c with types := types.toArray, funcs := funcs.toArray }

namespace Module

/-- Types stand for each other where they are the same, and both modules have the functions of the
shorter one. -/
def abridgement (m n : Module) : Abridgement where
  type i j := ∃ t, m.types[i]? = some t ∧ n.types[j]? = some t
  func f := f < n.importedFuncs.length + n.funcs.length

inductive SameImport (m n : Module) : Import → Import → Prop
  | func {key : ImportKey} {i j : Nat} (types : (m.abridgement n).type i j) :
      SameImport m n ⟨key, .func i⟩ ⟨key, .func j⟩
  | memory {key : ImportKey} {t : MemoryType} : SameImport m n ⟨key, .memory t⟩ ⟨key, .memory t⟩

structure ShorterFunc (m n : Module) (f g : Func) : Prop where
  code : ∃ t P, m.types[f.typeIndex]? = some t ∧ n.types[g.typeIndex]? = some t ∧
    Abridgement.Places P t.params f.locals g.locals ∧ (m.abridgement n).ShortensSeq P f.body g.body
  fewer : g.locals.length ≤ f.locals.length
  plain : Instr.isPlainSeq f.body = true
  plain' : Instr.isPlainSeq g.body = true

/-- A module whose functions are shorter than those of another one; `idle` is a start function that
does nothing, if the shorter module lacks it. -/
structure Shortens (m n : Module) (idle : List Func) : Prop where
  types : ∀ t ∈ n.types, t ∈ m.types
  imports : List.Forall₂ (SameImport m n) m.imports n.imports
  funcs : ∃ shared, m.funcs = shared ++ idle ∧ List.Forall₂ (ShorterFunc m n) shared n.funcs
  start : idle = [] ∧ n.start = m.start ∨ ∃ i, idle = [⟨i, [], []⟩] ∧ m.types[i]? = some ⟨[], []⟩ ∧
    m.start = some (n.importedFuncs.length + n.funcs.length) ∧ n.start = none
  tables : n.tables = m.tables
  memories : n.memories = m.memories
  globals : n.globals = m.globals
  exports : n.exports = m.exports
  elements : n.elements = m.elements
  data : m.data = []
  data' : n.data = []
  constants : ∀ g ∈ m.globals, ∃ v, g.init = [.const v]
  exported : ∀ e ∈ m.exports, e.kind = .func → (m.abridgement n).func e.index
  filled : ∀ e ∈ m.elements, ∃ (v : Value) (fs : List Nat),
    e = ⟨.active 0 [.const v], .func, fs.map .func⟩ ∧ ∀ f ∈ fs, (m.abridgement n).func f

theorem SameImport.filterMap_eq {m n : Module} {α : Type} (f : ImportType → Option α)
    (other : ∀ i, f (.func i) = none) {xs ys : List Import}
    (same : List.Forall₂ (SameImport m n) xs ys) :
    ys.filterMap (fun i => f i.type) = xs.filterMap fun i => f i.type := by
  induction same with
  | nil => rfl
  | cons first _ ih =>
    cases first with
    | @func _ i j =>
      have none (k : Nat) : f (.func k) = none := other k
      rw [List.filterMap_cons, List.filterMap_cons, none, none, ih]
    | memory => rw [List.filterMap_cons, List.filterMap_cons, ih]

theorem SameImport.funcs {m n : Module} {xs ys : List Import}
    (same : List.Forall₂ (SameImport m n) xs ys) :
    List.Forall₂ (m.abridgement n).type (xs.filterMap (·.type.func?)) (ys.filterMap (·.type.func?)) := by
  induction same with
  | nil => exact .nil
  | cons first _ ih =>
    cases first with
    | func types => exact .cons types ih
    | memory => exact ih

theorem SameImport.keys {m n : Module} {xs ys : List Import}
    (same : List.Forall₂ (SameImport m n) xs ys) : ys.map (·.key) = xs.map (·.key) := by
  induction same with
  | nil => rfl
  | cons first _ ih =>
    rw [List.map_cons, List.map_cons, ih]
    cases first <;> rfl

namespace Shortens

variable {m n : Module} {idle : List Func} (shortens : Shortens m n idle)

include shortens

theorem importedMemories : n.importedMemories = m.importedMemories :=
  SameImport.filterMap_eq ImportType.memory? (fun _ => rfl) shortens.imports

theorem importedTables : n.importedTables = m.importedTables :=
  SameImport.filterMap_eq ImportType.table? (fun _ => rfl) shortens.imports

theorem importedGlobals : n.importedGlobals = m.importedGlobals :=
  SameImport.filterMap_eq ImportType.global? (fun _ => rfl) shortens.imports

theorem importedFuncs : List.Forall₂ (m.abridgement n).type m.importedFuncs n.importedFuncs :=
  SameImport.funcs shortens.imports

/-- The types of the functions of the shorter module, and of a start function that does nothing. -/
theorem exists_funcTypes {all : List FuncType} (known : m.funcTypes? = some all) :
    ∃ types, n.funcTypes? = some types ∧ types.length = n.importedFuncs.length + n.funcs.length ∧
      all = types ++ idle.map fun _ => ⟨[], []⟩ := by
  obtain ⟨shared, funcs, shorter⟩ := shortens.funcs
  have indices : List.Forall₂ (m.abridgement n).type (m.importedFuncs ++ shared.map (·.typeIndex))
      (n.importedFuncs ++ n.funcs.map (·.typeIndex)) := by
    refine List.rel_append shortens.importedFuncs ?_
    rw [List.forall₂_map_left_iff, List.forall₂_map_right_iff]
    refine shorter.imp fun f g shorter => ?_
    obtain ⟨t, P, here, there, _⟩ := shorter.code
    exact ⟨t, here, there⟩
  have both : ∃ types, (m.importedFuncs ++ shared.map (·.typeIndex)).mapM (fun t => m.types[t]?) =
      some types ∧ (n.importedFuncs ++ n.funcs.map (·.typeIndex)).mapM (fun t => n.types[t]?) =
      some types := by
    generalize m.importedFuncs ++ shared.map (·.typeIndex) = xs at indices
    generalize n.importedFuncs ++ n.funcs.map (·.typeIndex) = ys at indices
    induction indices with
    | nil => exact ⟨[], rfl, rfl⟩
    | cons first _ ih =>
      obtain ⟨t, here, there⟩ := first
      obtain ⟨types, left, right⟩ := ih
      exact ⟨t :: types, by rw [List.mapM_cons, here, left]; rfl,
        by rw [List.mapM_cons, there, right]; rfl⟩
  obtain ⟨types, left, right⟩ := both
  have count := (mapM_eq_some_iff.1 right).length_eq
  rw [List.length_append, List.length_map] at count
  refine ⟨types, right, count.symm, ?_⟩
  have rest : (idle.map (·.typeIndex)).mapM (fun t => m.types[t]?) =
      some (idle.map fun _ => (⟨[], []⟩ : FuncType)) := by
    rcases shortens.start with ⟨rfl, _⟩ | ⟨i, rfl, listed, _⟩
    · rfl
    · simp [listed]
  rw [funcTypes?, funcs, List.map_append, ← List.append_assoc, List.mapM_append, left, rest] at known
  exact (Option.some.inj known).symm

/-- What functions of the shorter module may refer to. -/
theorem exists_context {c : Context} (known : m.context? = some c) :
    ∃ types, n.context? = some (c.retyped n.types types) ∧
      types.length = n.importedFuncs.length + n.funcs.length ∧
      c.funcs = (types ++ idle.map fun _ => (⟨[], []⟩ : FuncType)).toArray := by
  obtain ⟨all, funcs, is⟩ := Option.bind_eq_some_iff.1 known
  cases is
  obtain ⟨types, there, count, rfl⟩ := shortens.exists_funcTypes funcs
  refine ⟨types, ?_, count, rfl⟩
  unfold context?
  rw [there]
  simp only [allGlobals, allTables, allMemories, referableFuncs, shortens.importedGlobals,
    shortens.importedTables, shortens.importedMemories, shortens.globals, shortens.tables,
    shortens.memories, shortens.elements, shortens.exports, shortens.data, shortens.data',
    Option.bind_eq_bind, Option.bind_some, Option.pure_def]
  rfl

omit shortens in
/-- Functions of both modules may refer to the same. -/
theorem contexts {c : Context} (known : m.context? = some c) {types : List FuncType}
    (count : types.length = n.importedFuncs.length + n.funcs.length)
    (funcs : c.funcs = (types ++ idle.map fun _ => (⟨[], []⟩ : FuncType)).toArray)
    (P : Nat → Nat → Prop) : (m.abridgement n).Contexts P c (c.retyped n.types types) where
  types := by
    rintro i j ⟨t, here, there⟩
    obtain ⟨_, _, is⟩ := Option.bind_eq_some_iff.1 known
    cases is
    change n.types.toArray[j]? = m.types.toArray[i]?
    rw [List.getElem?_toArray, List.getElem?_toArray, here, there]
  funcs := by
    intro f inside
    change types.toArray[f]? = c.funcs[f]?
    rw [funcs, List.getElem?_toArray, List.getElem?_toArray, List.getElem?_append_left]
    exact count ▸ inside
  locals := by
    obtain ⟨_, _, is⟩ := Option.bind_eq_some_iff.1 known
    cases is
    exact fun _ => rfl
  globals := rfl
  tables := rfl
  memories := rfl
  labels := rfl
  results := rfl

omit shortens in
theorem isConstant_const {c d : Context} {t : ValType} (v : Value)
    (constant : Instr.isConstant c t [.const v] = true) : Instr.isConstant d t [.const v] = true :=
  constant

/-- A module of shorter functions is valid if the longer one is. -/
theorem isValid (valid : m.isValid = true) : n.isValid = true := by
  unfold Module.isValid at valid
  cases known : m.context? with
  | none =>
    rw [known] at valid
    cases valid
  | some c =>
    obtain ⟨types, known', count, funcs⟩ := shortens.exists_context known
    rw [known] at valid
    unfold Module.isValid
    rw [known']
    simp only [Bool.and_eq_true, List.all_eq_true, decide_eq_true_eq] at valid ⊢
    obtain ⟨⟨⟨⟨⟨⟨⟨⟨⟨⟨⟨⟨⟨sizes, keys⟩, fewTables⟩, tables⟩, fewMemories⟩, memories⟩, fewGlobals⟩,
      globals⟩, exports⟩, names⟩, start⟩, elements⟩, data⟩, checked⟩ := valid
    have inside {f : Nat} (func : (m.abridgement n).func f) : f < types.length := count ▸ func
    refine ⟨⟨⟨⟨⟨⟨⟨⟨⟨⟨⟨⟨⟨?_, ?_⟩, fewTables⟩, ?_⟩, fewMemories⟩, ?_⟩, fewGlobals⟩, ?_⟩, ?_⟩, ?_⟩, ?_⟩,
      ?_⟩, ?_⟩, ?_⟩
    -- check by check: what is left of the module passed before
    · exact fun t mem => sizes t (shortens.types t mem)
    · intro i mem
      have key : i.key ∈ n.imports.map (·.key) := List.mem_map_of_mem mem
      rw [SameImport.keys shortens.imports] at key
      obtain ⟨j, mem, same⟩ := List.mem_map.1 key
      exact same ▸ keys j mem
    · rwa [allTables, shortens.importedTables, shortens.tables]
    · rwa [allMemories, shortens.importedMemories, shortens.memories]
    · rw [shortens.globals]
      intro g mem
      obtain ⟨v, init⟩ := shortens.constants g mem
      have constant := globals g mem
      rw [init] at constant ⊢
      exact isConstant_const v constant
    · rw [shortens.exports]
      intro e mem
      refine ⟨(exports e mem).1, ?_⟩
      have checked := (exports e mem).2
      unfold checkExport at checked ⊢
      split at checked
      next kind => exact decide_eq_true (inside (shortens.exported e mem kind))
      all_goals exact checked
    · rwa [shortens.exports]
    · rcases shortens.start with ⟨rfl, same⟩ | ⟨_, _, _, _, none⟩
      · rw [same]
        cases begins : m.start with
        | none => rfl
        | some f =>
          rw [begins, checkStart, funcs, List.map_nil, List.append_nil] at start
          exact start
      · rw [none]
        rfl
    · rw [shortens.elements]
      intro e mem
      obtain ⟨v, fs, rfl, named⟩ := shortens.filled e mem
      have checked := elements _ mem
      unfold checkElement at checked ⊢
      rw [Bool.and_eq_true, List.all_eq_true] at checked ⊢
      refine ⟨?_, ?_⟩
      · have placed := checked.1
        obtain ⟨t, address, constant⟩ := (Option.any_eq_true _ _).1 placed
        exact (Option.any_eq_true _ _).2 ⟨t, address, isConstant_const v constant⟩
      · intro slot listed
        obtain ⟨f, here, rfl⟩ := List.mem_map.1 listed
        exact Bool.and_eq_true_iff.2 ⟨rfl, decide_eq_true (inside (named f here))⟩
    · rw [shortens.data']
      exact fun d mem => nomatch mem
    · intro g mem
      obtain ⟨shared, both, shorter⟩ := shortens.funcs
      obtain ⟨k, there⟩ := List.mem_iff_getElem?.1 mem
      obtain ⟨f, here, shorter⟩ := exists_getElem?_of_forall₂ shorter.flip there
      have checked := checked f (both ▸ List.mem_append_left _ (List.mem_of_getElem? here))
      obtain ⟨t, P, typed, typed', places, code⟩ := shorter.code
      have own : c.types[f.typeIndex]? = some t := by
        obtain ⟨_, _, is⟩ := Option.bind_eq_some_iff.1 known
        cases is
        rw [List.getElem?_toArray, typed]
      have own' : (c.retyped n.types types).types[g.typeIndex]? = some t := by
        change n.types.toArray[g.typeIndex]? = some t
        rw [List.getElem?_toArray, typed']
      unfold checkFunc at checked ⊢
      rw [own] at checked
      rw [own']
      dsimp only at checked ⊢
      rw [Bool.and_eq_true, decide_eq_true_eq] at checked ⊢
      have fewer := shorter.fewer
      exact ⟨by omega, code.isTyped ((contexts known count funcs P).forBody places) checked.2⟩

end Shortens

end Module

end WasmBuilder.Wasm
