import Mathlib.Data.List.Perm.Basic
import WasmBuilder.Proofs.Course.References
import WasmBuilder.Proofs.Lowering.Indices
import WasmBuilder.Proofs.Lowering.Types
import WasmBuilder.Wasm.Encode

/-!
The index spaces of a module.

Declared functions are numbered over again when a build becomes a module: imported ones first, then
those with bodies, both in the order in which they were declared. So each index is that of exactly one
declaration. Whatever a module says of functions and of their types, in its sections or in code, it
says in the new numbers.
-/

set_option autoImplicit false

namespace WasmBuilder.Lower

variable {fs : List Function}

theorem perm_funcIndicesFrom (nextImport nextDefined : Nat) (fs : List Function) :
    (funcIndicesFrom nextImport nextDefined fs).Perm
      (List.range' nextImport (fs.countP Function.isImported) ++
        List.range' nextDefined (fs.countP fun f => !f.isImported)) := by
  induction fs generalizing nextImport nextDefined with
  | nil => exact .nil
  | cons f rest ih =>
    cases kind : f.isImported with
    | true =>
      simp only [funcIndicesFrom, kind, if_true, List.countP_cons_of_pos, Bool.not_true,
        Bool.false_eq_true, not_false_eq_true, List.countP_cons_of_neg, List.range'_succ,
        List.cons_append]
      exact (ih _ _).cons _
    | false =>
      simp only [funcIndicesFrom, kind, if_false, Bool.false_eq_true, not_false_eq_true,
        List.countP_cons_of_neg, Bool.not_false, List.countP_cons_of_pos, List.range'_succ]
      exact ((ih _ _).cons _).trans List.perm_middle.symm

theorem perm_funcIndices (fs : List Function) : (funcIndices fs).Perm (List.range fs.length) := by
  have split : fs.length = fs.countP Function.isImported + fs.countP fun f => !f.isImported := by
    simpa using List.length_eq_countP_add_countP Function.isImported (l := fs)
  have runs := perm_funcIndicesFrom 0 (fs.countP Function.isImported) fs
  rw [List.range_eq_range', split, ← List.range'_append_1, Nat.zero_add]
  exact runs

theorem getElem?_funcIndicesFrom (nextImport nextDefined : Nat) {k : Nat} {f : Function}
    (here : fs[k]? = some f) :
    (funcIndicesFrom nextImport nextDefined fs)[k]? = some (if f.isImported then
      nextImport + (fs.take k).countP Function.isImported
      else nextDefined + (fs.take k).countP fun f => !f.isImported) := by
  induction fs generalizing nextImport nextDefined k with
  | nil => cases here
  | cons g rest ih =>
    cases k with
    | zero =>
      cases here
      cases kind : f.isImported <;> simp [funcIndicesFrom, kind]
    | succ k =>
      rw [List.getElem?_cons_succ] at here
      cases kind : g.isImported <;> cases other : f.isImported <;>
        simp [funcIndicesFrom, kind, ih _ _ here, other, Nat.add_assoc, Nat.add_comm 1]

theorem countP_take_lt {p : Function → Bool} {i j : Nat} {f : Function} (here : fs[i]? = some f)
    (isOf : p f = true) (before : i < j) : (fs.take i).countP p < (fs.take j).countP p := by
  have grown : ((fs.take (i + 1)).countP p) ≤ (fs.take j).countP p :=
    (List.take_sublist_take_left before).countP_le
  have one : (fs.take (i + 1)).countP p = (fs.take i).countP p + 1 := by
    rw [List.take_add_one, here]
    simp [isOf]
  omega

section
variable {i j m n : Nat} {f g : Function} (first : fs[i]? = some f) (second : fs[j]? = some g)
  (atFirst : (funcIndices fs)[i]? = some m) (atSecond : (funcIndices fs)[j]? = some n)

include first second atFirst atSecond

theorem import_lt_defined (imported : f.isImported = true) (defined : g.isImported = false) :
    m < n := by
  rw [funcIndices, getElem?_funcIndicesFrom _ _ first] at atFirst
  rw [funcIndices, getElem?_funcIndicesFrom _ _ second] at atSecond
  simp only [imported, if_true, Nat.zero_add, Option.some.injEq] at atFirst
  simp only [defined, Bool.false_eq_true, if_false, Option.some.injEq] at atSecond
  have less : (fs.take i).countP Function.isImported < (fs.take fs.length).countP Function.isImported :=
    countP_take_lt first imported (List.getElem?_eq_some_iff.1 first).1
  rw [List.take_length] at less
  omega

theorem index_lt_of_lt (same : f.isImported = g.isImported) (before : i < j) : m < n := by
  rw [funcIndices, getElem?_funcIndicesFrom _ _ first] at atFirst
  rw [funcIndices, getElem?_funcIndicesFrom _ _ second] at atSecond
  cases kind : f.isImported with
  | true =>
    simp only [← same, kind, if_true, Option.some.injEq] at atFirst atSecond
    have less := countP_take_lt first (p := Function.isImported) kind before
    omega
  | false =>
    simp only [← same, kind, Bool.false_eq_true, if_false, Option.some.injEq] at atFirst atSecond
    have less := countP_take_lt first (p := fun f => !f.isImported) (by rw [kind]; rfl) before
    omega

end

end WasmBuilder.Lower

namespace WasmBuilder

def Build.indexOf? (b : Build) (func : Nat) : Option Nat := (Lower.moduleLayout b).funcIndices[func]?

namespace Lower

open Wasm (Instr)

variable {b : Build} {types : List Signature} {m : Wasm.Module}

/-- Declared functions are numbered over again: imported ones come first, and both kinds keep their
order. -/
structure Numbering (b : Build) : Prop where
  declared : ∀ k, k < b.functions.size ↔ ∃ n, b.indexOf? k = some n
  inside : ∀ k n, b.indexOf? k = some n → n < b.functions.size
  injective : ∀ j k n, b.indexOf? j = some n → b.indexOf? k = some n → j = k
  onto : ∀ n, n < b.functions.size → ∃ k, b.indexOf? k = some n
  importsFirst : ∀ (i j : Nat) (f g : Function) (m n : Nat), b.functions[i]? = some f →
    b.functions[j]? = some g → b.indexOf? i = some m → b.indexOf? j = some n →
    f.isImported = true → g.isImported = false → m < n
  inOrder : ∀ (i j : Nat) (f g : Function) (m n : Nat), b.functions[i]? = some f →
    b.functions[j]? = some g → b.indexOf? i = some m → b.indexOf? j = some n →
    f.isImported = g.isImported → i < j → m < n

theorem indexOf?_eq (b : Build) (k : Nat) :
    b.indexOf? k = (funcIndices b.functions.toList)[k]? := by
  rw [Build.indexOf?, moduleLayout, List.getElem?_toArray]

theorem numbering (b : Build) : Numbering b := by
  have perm := perm_funcIndices b.functions.toList
  have length : (funcIndices b.functions.toList).length = b.functions.size := by
    rw [perm.length_eq, List.length_range, Array.length_toList]
  have distinct : (funcIndices b.functions.toList).Nodup := perm.nodup_iff.2 List.nodup_range
  constructor <;> simp only [indexOf?_eq, ← Array.getElem?_toList]
  · intro k
    rw [← length]
    constructor
    · intro inside
      exact ⟨_, List.getElem?_eq_getElem inside⟩
    · rintro ⟨n, here⟩
      exact (List.getElem?_eq_some_iff.1 here).1
  · intro k n here
    have listed := perm.mem_iff.1 (List.mem_of_getElem? here)
    rwa [List.mem_range, Array.length_toList] at listed
  · intro j k n first second
    have ⟨inside, same⟩ := List.getElem?_eq_some_iff.1 first
    exact (List.getElem?_inj inside distinct).1 (first.trans second.symm)
  · intro n inside
    have listed : n ∈ funcIndices b.functions.toList := by
      rwa [perm.mem_iff, List.mem_range, Array.length_toList]
    exact List.mem_iff_getElem?.1 listed
  · intro i j f g m n first second atFirst atSecond
    exact import_lt_defined first second atFirst atSecond
  · intro i j f g m n first second atFirst atSecond
    exact index_lt_of_lt first second atFirst atSecond

/-- What a module has for a declared function at its index: the import, or the function behind all
imported ones. -/
inductive StandsFor (b : Build) (types : List Signature) (m : Wasm.Module) (f : Function)
    (n : Nat) : Prop
  | imported {key : ImportKey} {t : Nat} (kind : f.kind = .imported key)
      (here : m.imports[n]? = some ⟨key, .func t⟩) (typed : types[t]? = some f.signature)
  | defined {scope : Scope} {body : List ExprId} {g : Wasm.Func} (kind : f.kind = .defined scope body)
      (behind : m.importedFuncs.length ≤ n)
      (here : m.funcs[n - m.importedFuncs.length]? = some g)
      (code : FunctionCode (moduleLayout b) types f.signature scope.shapes body g)

inductive StartsWith (b : Build) (types : List Signature) (m : Wasm.Module) : Prop
  | nothing (none : b.startBody = []) (absent : m.start = .none)
      (count : m.importedFuncs.length + m.funcs.length = b.functions.size)
  | last {g : Wasm.Func} (any : b.startBody ≠ []) (present : m.start = some b.functions.size)
      (count : m.importedFuncs.length + m.funcs.length = b.functions.size + 1)
      (last : m.funcs.getLast? = some g)
      (code : FunctionCode (moduleLayout b) types ⟨[], []⟩ [] b.startBody g)

structure ExportOf (b : Build) (e : String × Nat) (x : Wasm.Export) : Prop where
  name : x.name = e.1
  kind : x.kind = .func
  index : b.indexOf? e.2 = some x.index

/-- The index spaces of the module of a build. -/
structure IndexSpaces (b : Build) (tableExport : Option String) (types : List Signature)
    (m : Wasm.Module) : Prop where
  numbering : Numbering b
  types_eq : m.types = types.map Signature.funcType
  distinct : m.types.Nodup
  stands : ∀ (k : Nat) (f : Function), b.functions[k]? = some f →
    ∃ n, b.indexOf? k = some n ∧ StandsFor b types m f n
  typed : ∃ fts, m.funcTypes? = some fts ∧ ∀ (k : Nat) (f : Function), b.functions[k]? = some f →
    ∃ n, b.indexOf? k = some n ∧ fts[n]? = some f.signature.funcType
  starts : StartsWith b types m
  /-- Types and bodies of functions are written in the same order. -/
  sections : ∃ before between behind, m.encode = before ++
    Wasm.frame 3 (Wasm.encodeVec (fun f => Wasm.Leb128.unsigned f.typeIndex) m.funcs) ++ between ++
    Wasm.frame 10 (Wasm.encodeVec Wasm.Func.encode m.funcs) ++ behind
  exports : ∃ made, List.Forall₂ (ExportOf b) b.exports made ∧
    m.exports = made ++ tableExport.toList.map fun name => ⟨name, .table, 0⟩
  elements : ∃ filled, List.Forall₂ (fun func n => b.indexOf? func = some n) b.table.functions filled ∧
    m.elements = if b.table.functions = [] then []
      else [⟨.active 0 [.const (.i32 0)], .func, filled.map .func⟩]

theorem StartCode.eq_nil {l : Layout} {startBody : List ExprId}
    (code : StartCode l types startBody Option.none) : startBody = [] := by
  cases code
  rfl

theorem StartCode.of_some {l : Layout} {startBody : List ExprId} {g : Wasm.Func}
    (code : StartCode l types startBody (Option.some g)) :
    startBody ≠ [] ∧ FunctionCode l types ⟨[], []⟩ [] startBody g := by
  cases code with
  | some any code => exact ⟨any, code⟩

section
variable {lowered : List Lowered} {start : Option Wasm.Func} {memory : List Wasm.Import}
  (parts : Parts b types lowered start) (imported : memoryImport b.memory = .ok memory)
  (tableExport : Option String) (table : List Nat) (exports : List Wasm.Export)

include parts

theorem length_declared : (lowered.filterMap Lowered.import?).length +
    (lowered.filterMap Lowered.func?).length = b.functions.size := by
  have split (xs : List Lowered) : (xs.filterMap Lowered.import?).length +
      (xs.filterMap Lowered.func?).length = xs.length := by
    induction xs with
    | nil => rfl
    | cons x rest ih => cases x <;> simp <;> omega
  rw [split, ← parts.declarations.length_eq, Array.length_toList]

include imported

theorem length_importedFuncs :
    (assembled b tableExport types lowered start memory table exports).importedFuncs.length =
      (lowered.filterMap Lowered.import?).length := by
  have typed := typeIndices_of_imports fun i mem =>
    let ⟨t, _, type, _⟩ := import_typed parts.declarations (i := i) mem
    ⟨t, type⟩
  rw [importedFuncs_assembled imported, ← typed.length_eq]

theorem standsFor {k : Nat} {f : Function} (here : b.functions[k]? = some f) :
    ∃ n, b.indexOf? k = some n ∧
      StandsFor b types (assembled b tableExport types lowered start memory table exports) f n := by
  have count := length_importedFuncs parts imported tableExport table exports
  have here' : b.functions.toList[k]? = some f := by rw [Array.getElem?_toList, here]
  obtain ⟨n, low, found, code, stands⟩ := stands_of_funcIndicesFrom parts.declarations 0
    (b.functions.toList.countP Function.isImported) here'
  refine ⟨n, (indexOf?_eq b k).trans found, ?_⟩
  cases code with
  | imported kind listed =>
    obtain ⟨n, rfl, at_⟩ := stands
    rw [Nat.zero_add]
    refine .imported kind ?_ listed
    rw [assembled, List.getElem?_append_left (List.getElem?_eq_some_iff.1 at_).1, at_]
  | defined kind code =>
    obtain ⟨n, rfl, at_⟩ := stands
    rw [← length_imports parts.declarations, ← count]
    refine .defined kind (Nat.le_add_right _ _) ?_ code
    rw [Nat.add_sub_cancel_left, assembled,
      List.getElem?_append_left (List.getElem?_eq_some_iff.1 at_).1, at_]

theorem startsWith :
    StartsWith b types (assembled b tableExport types lowered start memory table exports) := by
  have count := length_importedFuncs parts imported tableExport table exports
  have declared := length_declared parts
  have code := parts.start
  cases start with
  | none =>
    refine .nothing code.eq_nil rfl ?_
    rw [count, assembled]
    simpa using declared
  | some g =>
    obtain ⟨any, code⟩ := code.of_some
    refine .last any rfl ?_ ?_ code
    · rw [count, assembled, List.length_append]
      simp only [Option.toList_some, List.length_singleton]
      omega
    · simp [assembled]

end

theorem sections (m : Wasm.Module) : ∃ before between behind, m.encode = before ++
    Wasm.frame 3 (Wasm.encodeVec (fun f => Wasm.Leb128.unsigned f.typeIndex) m.funcs) ++ between ++
    Wasm.frame 10 (Wasm.encodeVec Wasm.Func.encode m.funcs) ++ behind := by
  -- tables, memories, globals, exports, the start function and elements come between
  let before := Wasm.header ++ Wasm.frame 1 (Wasm.encodeVec Wasm.FuncType.encode m.types) ++
    Wasm.optionalSection 2 Wasm.Import.encode m.imports
  let between := Wasm.optionalSection 4 Wasm.TableType.encode m.tables ++
    Wasm.optionalSection 5 Wasm.MemoryType.encode m.memories ++
    Wasm.optionalSection 6 Wasm.Global.encode m.globals ++
    Wasm.frame 7 (Wasm.encodeVec Wasm.Export.encode m.exports) ++
    (m.start.elim [] fun f => Wasm.frame 8 (Wasm.Leb128.unsigned f)) ++
    Wasm.optionalSection 9 Wasm.Element.encode m.elements
  refine ⟨before, between, Wasm.optionalSection 11 Wasm.Data.encode m.data, ?_⟩
  simp only [before, between, Wasm.Module.encode, ← List.append_assoc]
  cases m.start <;> rfl

theorem indexOf?_of_funcIndex {func n : Nat} (found : (moduleLayout b).funcIndex func = .ok n) :
    b.indexOf? func = some n := funcIndex_eq_ok_iff.1 found

theorem exportOf {e : String × Nat} {x : Wasm.Export}
    (done : funcExport (moduleLayout b) e = .ok x) : ExportOf b e x := by
  obtain ⟨n, found, made⟩ := bind_eq_ok_iff.1 done
  cases made
  exact ⟨rfl, rfl, indexOf?_of_funcIndex found⟩

/-- The module of a build keeps to its index spaces. -/
theorem indexSpaces {tableExport : Option String} (done : b.lower tableExport = .ok m) :
    ∃ types, IndexSpaces b tableExport types m := by
  have distinct := nodup_types done
  obtain ⟨types, lowered, start, memory, table, exports, parts, imported, slots, exported, rfl⟩ :=
    lower_eq_ok done
  have filled := (mapM_eq_ok_iff.1 slots).imp fun _ _ => indexOf?_of_funcIndex
  refine ⟨types, numbering b, rfl, distinct, ?_, ?_, ?_, sections _, ?_, ?_⟩
  · intro k f here
    exact standsFor parts imported tableExport table exports here
  · exact exists_funcTypes parts imported tableExport table exports
  · exact startsWith parts imported tableExport table exports
  · exact ⟨exports, (mapM_eq_ok_iff.1 exported).imp fun _ _ => exportOf, rfl⟩
  · refine ⟨table, filled, ?_⟩
    have same : table.isEmpty = true ↔ b.table.functions = [] := by
      rw [← List.length_eq_zero_iff, filled.length_eq, List.isEmpty_iff_length_eq_zero]
    simp only [assembled, same]

/-- Code that calls a callable: by its index, or through its slot of the table and at its type. -/
inductive CallCode (b : Build) (types : List Signature) (c : Callable) : List Instr → Prop
  | direct {code : List Instr} {n : Nat} (kind : ∀ slot, c.kind ≠ .indirect slot)
      (index : b.indexOf? c.func = some n) : CallCode b types c (code ++ [Instr.call n])
  | indirect {code : List Instr} {slot t : Nat} (kind : c.kind = .indirect slot)
      (listed : b.table.functions[slot]? = some c.func) (typed : types[t]? = some c.signature) :
      CallCode b types c
        (code ++ [Instr.const (.i32 (BitVec.ofNat 32 slot))] ++ [Instr.callIndirect t 0])

section
variable {shapes : List Shape} {scratch : List NumType} {depth : Nat} {id : ExprId}
  {code : List Instr}
  (coded : CodeWithin ((moduleLayout b).withVariables shapes) ⟨types, scratch⟩ depth id code)

include coded

theorem callCode {c : Callable} {args : List ExprId} (calls : b.arena.Calls c args id)
    (listed : ∀ slot, c.kind = .indirect slot → b.table.functions[slot]? = some c.func) :
    CallCode b types c code := by
  cases depth with
  | zero => cases coded
  | succ depth =>
    obtain ⟨node, here, coded⟩ := coded
    cases calls with
    | direct kind there =>
      cases Except.ok.inj (here.symm.trans there)
      cases coded with
      | call _ at_ => exact .direct kind (indexOf?_of_funcIndex at_)
    | @indirect slot index kind constant there =>
      cases Except.ok.inj (here.symm.trans there)
      cases coded with
      | callIndirect _ chosen typed =>
        cases depth with
        | zero => cases chosen
        | succ depth =>
          obtain ⟨node, here, chosen⟩ := chosen
          cases Except.ok.inj (here.symm.trans constant)
          cases chosen with
          | const => exact .indirect kind (listed slot kind) typed

end

/-- Types that code names are the types that are meant: of a call through the table, and of a choice
between several values. -/
structure CodeTyped (b : Build) (types : List Signature) : Prop where
  indirect : ∀ (shapes : List Shape) (scratch : List NumType) (depth : Nat) (id : ExprId)
    (code : List Instr) (index : ExprId) (args : List ExprId) (signature : Signature),
    b.arena.node id = .ok (.callIndirect index args signature) →
    CodeWithin ((moduleLayout b).withVariables shapes) ⟨types, scratch⟩ depth id code →
    ∃ before t, code = before ++ [Instr.callIndirect t 0] ∧ types[t]? = some signature
  choice : ∀ (shapes : List Shape) (scratch : List NumType) (depth : Nat) (id : ExprId)
    (code : List Instr) (cond : ExprId) (thenItems elseItems : List ExprId) (shape : Shape),
    b.arena.node id = .ok (.choose cond thenItems elseItems shape) →
    CodeWithin ((moduleLayout b).withVariables shapes) ⟨types, scratch⟩ depth id code →
    ∃ before type ts, b.arena.slots id = .ok ts ∧
      ((∃ yes no, code = before ++ [Instr.ifElse type yes no]) ∨
        ∃ yes, code = before ++ [Instr.ifThen type yes]) ∧
      ∀ t, type = .index t → types[t]? = some ⟨[], ts⟩

theorem codeTyped (b : Build) (types : List Signature) : CodeTyped b types where
  indirect shapes scratch depth id code index args signature here coded := by
    cases depth with
    | zero => cases coded
    | succ depth =>
      obtain ⟨node, there, coded⟩ := coded
      cases Except.ok.inj (there.symm.trans here)
      cases coded with
      | callIndirect _ _ typed => exact ⟨_, _, rfl, typed⟩
  choice shapes scratch depth id code cond thenItems elseItems shape here coded := by
    cases depth with
    | zero => cases coded
    | succ depth =>
      obtain ⟨node, there, coded⟩ := coded
      cases Except.ok.inj (there.symm.trans here)
      cases coded with
      | chooseBoth slots _ leaves =>
        refine ⟨_, _, _, slots, .inl ⟨_, _, rfl⟩, fun t is => ?_⟩
        subst is
        cases leaves with
        | index _ listed => exact listed
      | chooseOne slots => exact ⟨_, _, _, slots, .inr ⟨_, rfl⟩, nofun⟩

end Lower

end WasmBuilder
