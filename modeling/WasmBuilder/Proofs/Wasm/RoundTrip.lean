import WasmBuilder.Proofs.Wasm.Heights
import WasmBuilder.Proofs.Wasm.Loading
import WasmBuilder.Proofs.Wasm.Reading

/-!
A module is read back from its binary form.

This holds of valid modules of plain code whose binary is so short that sizes in it have 32 bits, as
the binary form asks for. Then all numbers in it have 32 bits too, since what they count is written
down. So what is said of a module that was built holds of the binary that it was written to.
-/

set_option autoImplicit false

namespace WasmBuilder.Wasm

def ImportType.fits : ImportType → Bool
  | .func t => t < 2 ^ 32
  | .table _ | .memory _ | .global _ => true

def Element.fits (e : Element) : Bool :=
  match e.placement, e.funcs? with
  | .active table offset, some funcs =>
    table < 2 ^ 32 && Instr.fitsSeq offset && funcs.all (· < 2 ^ 32)
  | _, _ => false

/-- A module as builds are lowered to, with numbers that are small enough to be written. -/
structure Module.Writable (m : Module) : Prop where
  valid : m.isValid = true
  imports : ∀ i ∈ m.imports, i.type.fits = true
  funcs : ∀ f ∈ m.funcs, f.typeIndex < 2 ^ 32 ∧ Instr.fitsSeq f.body = true
  globals : ∀ g ∈ m.globals, Instr.fitsSeq g.init = true
  exports : ∀ e ∈ m.exports, e.index < 2 ^ 32
  start : ∀ f ∈ m.start, f < 2 ^ 32
  elements : ∀ e ∈ m.elements, e.fits = true
  data : m.data = []
  size : m.encode.length < 2 ^ 32

theorem le_of_fits {l : Limits} {n : Nat} (fits : l.fits n = true) :
    l.minimum ≤ n ∧ ∀ m ∈ l.maximum, m ≤ n := by
  obtain ⟨minimum, maximum⟩ := l
  simp only [Limits.fits, Bool.and_eq_true, decide_eq_true_eq] at fits
  refine ⟨fits.1, ?_⟩
  cases maximum <;> simp_all

theorem unsigned_ne_nil (n : Nat) : Leb128.unsigned n ≠ [] := by
  rw [Leb128.unsigned]
  split <;> exact List.cons_ne_nil _ _

theorem encodeBytes_ne_nil (bytes : List UInt8) : encodeBytes bytes ≠ [] :=
  List.append_ne_nil_of_left_ne_nil (unsigned_ne_nil _) _

theorem import_ne_nil (i : Import) : i.encode ≠ [] := by
  rw [Import.encode, List.append_assoc]
  exact List.append_ne_nil_of_left_ne_nil (encodeBytes_ne_nil _) _

theorem slots_of_funcs? {e : Element} {funcs : List Nat} (listed : e.funcs? = some funcs) :
    e.type = .func ∧ e.slots = funcs.map .func := by
  unfold Element.funcs? at listed
  split at listed
  next same =>
    refine ⟨same, ?_⟩
    have pairs := mapM_eq_some_iff.1 listed
    clear listed
    generalize e.slots = slots at pairs
    induction pairs with
    | nil => rfl
    | @cons slot n _ _ here _ ih =>
      cases slot with
      | func =>
        cases here
        rw [ih, List.map_cons]
      | null | global => cases here
  next => cases listed

namespace Reads

theorem validTable {t : TableType} (valid : t.isValid = true) :
    Reads Reader.tableType t.encode t := by
  obtain ⟨least, most⟩ := le_of_fits valid
  have wide : 0 < 2 ^ t.address.bits := Nat.two_pow_pos _
  exact tableType (by omega) fun m mem => Nat.lt_of_le_of_lt (most m mem) (by omega)

theorem validMemory {t : MemoryType} (valid : t.isValid = true) :
    Reads Reader.memoryType t.encode t := by
  obtain ⟨sizes, _⟩ := Bool.and_eq_true_iff.1 valid
  obtain ⟨least, most⟩ := le_of_fits sizes
  have bound : (if t.address = .w32 then capacity.pages else capacity.widePages) <
      2 ^ t.address.bits := by
    cases t.address <;> decide
  exact memoryType (by omega) fun m mem => Nat.lt_of_le_of_lt (most m mem) bound

theorem importItem {i : Import} (space : i.key.space.utf8ByteSize ≤ maxNameBytes)
    (item : i.key.name.utf8ByteSize ≤ maxNameBytes) (small : i.type.fits = true)
    (tables : ∀ t, i.type = .table t → t.isValid = true)
    (memories : ∀ t, i.type = .memory t → t.isValid = true) :
    Reads Reader.importItem i.encode i := by
  obtain ⟨key, type⟩ := i
  rw [Import.encode, List.append_assoc]
  refine (name space).bind ((name item).bind ?_)
  cases type with
  | func t =>
    exact (byte 0x00).bind ((u32 (of_decide_eq_true small)).map fun t => Import.mk key (.func t))
  | table t =>
    exact (byte 0x01).bind ((validTable (tables t rfl)).map fun t => Import.mk key (.table t))
  | memory t =>
    exact (byte 0x02).bind ((validMemory (memories t rfl)).map fun t => Import.mk key (.memory t))
  | global g => exact (byte 0x03).bind ((globalType g).map fun g => Import.mk key (.global g))

theorem global {g : Global} (small : Instr.fitsSeq g.init = true) : Reads Reader.global g.encode g :=
  (globalType g.type).bind ((expr false small).map (Global.mk g.type))

theorem exportItem {e : Export} (short : e.name.utf8ByteSize ≤ maxNameBytes)
    (small : e.index < 2 ^ 32) : Reads Reader.exportItem e.encode e := by
  obtain ⟨text, kind, index⟩ := e
  have last := fun kind => (u32 small).map (Export.mk text kind)
  cases kind <;> exact (name short).bind ((byte _).bind (last _))

theorem numbers {ns : List Nat} (small : ∀ n ∈ ns, n < 2 ^ 32) :
    Reads (Reader.vec Reader.u32) (encodeVec Leb128.unsigned ns) ns :=
  items ns (fun n mem => u32 (small n mem)) fun n _ => unsigned_ne_nil n

theorem element {e : Element} (small : e.fits = true) : Reads Reader.element e.encode e := by
  obtain ⟨placement, type, slots⟩ := e
  unfold Element.fits at small
  split at small
  next table offset funcs placed listed =>
    simp only [Bool.and_eq_true, decide_eq_true_eq, List.all_eq_true] at small
    obtain ⟨⟨table', offset'⟩, funcs'⟩ := small
    obtain ⟨rfl, slots'⟩ := slots_of_funcs? listed
    cases placed
    unfold Element.encode
    rw [listed]
    have last := (numbers funcs').map fun fs => Element.mk (.active table offset) .func (fs.map .func)
    rw [← slots'] at last
    refine .of_eq ((u32 (show 2 < 2 ^ 32 by decide)).bind ((u32 table').bind
      ((expr false offset').bind ((pure _).bind ((expect 0x00).bind last))))) ?_
    simp [Element.encode.placed]
  next => cases small

theorem flatMap_groupRuns (ts : List ValType) :
    (groupRuns ts).flatMap (fun r => List.replicate r.1 r.2) = ts := by
  induction ts with
  | nil => rfl
  | cons t rest ih =>
    unfold groupRuns
    split
    next n u groups runs =>
      rw [runs] at ih
      split
      next same =>
        rw [List.flatMap_cons, List.replicate_succ, List.cons_append, ← same]
        rw [List.flatMap_cons, ← same] at ih
        rw [ih]
      next => rw [List.flatMap_cons, ih]; rfl
    next none =>
      rw [none] at ih
      rw [← ih]
      rfl

theorem sum_groupRuns (ts : List ValType) : ((groupRuns ts).map (·.1)).sum = ts.length := by
  have runs := congrArg List.length (flatMap_groupRuns ts)
  rw [List.length_flatMap] at runs
  simpa using runs

/-- What a reader that takes just these bytes makes of them as a whole. -/
theorem whole {α : Type} {r : Reader α} {bytes : List UInt8} {a : α} (read : Reads r bytes a)
    (short : bytes.length < 2 ^ 32) : r.whole bytes = some a := by
  have all := read short []
  rw [List.append_nil] at all
  simp only [Reader.whole, StateT.run, all]

theorem encode_func (f : Func) : f.encode = encodeBytes
    (encodeVec (fun r => Leb128.unsigned r.1 ++ [r.2.code]) (groupRuns f.locals) ++
      encodeExpr f.body) := rfl

theorem code {f : Func} (few : f.locals.length ≤ 50000) (small : Instr.fitsSeq f.body = true) :
    Reads (Reader.code false) f.encode (f.locals, f.body) := by
  have each (r : Nat × ValType) (mem : r ∈ groupRuns f.locals) :
      Reads Reader.localRun (Leb128.unsigned r.1 ++ [r.2.code]) r := by
    have part : List.replicate r.1 r.2 ∈ (groupRuns f.locals).map fun r => List.replicate r.1 r.2 :=
      List.mem_map_of_mem mem
    -- a run is part of the locals, and these are few
    have inside := (List.sublist_flatten_of_mem part).length_le
    rw [← List.flatMap_def, flatMap_groupRuns, List.length_replicate] at inside
    exact (u32 (show r.1 < 2 ^ 32 by omega)).bind ((valType r.2).map fun t => (r.1, t))
  have runs := items (groupRuns f.locals) each fun _ _ => by simp
  rw [encode_func]
  intro short
  have within := short
  rw [encodeBytes, List.length_append] at within
  refine Reads.of_eq ((sizedBytes _).bind ?_) (List.append_nil _).symm short
  dsimp only
  rw [whole (runs.bind ?_) (by omega)]
  · exact pure _
  · rw [sum_groupRuns, if_neg (Nat.not_lt.2 few), flatMap_groupRuns]
    exact (expr false small).map fun body => (f.locals, body)

end Reads

def itemSection {α : Type} (id : UInt8) (item : α → List UInt8) (xs : List α) :
    UInt8 × List UInt8 :=
  (id, encodeVec item xs)

def unlessEmpty {α : Type} (id : UInt8) (item : α → List UInt8) (xs : List α) :
    List (UInt8 × List UInt8) :=
  if xs.isEmpty then [] else [itemSection id item xs]

def Module.sections (m : Module) : List (UInt8 × List UInt8) :=
  [itemSection 1 FuncType.encode m.types] ++ unlessEmpty 2 Import.encode m.imports ++
  [itemSection 3 (fun f => Leb128.unsigned f.typeIndex) m.funcs] ++
  unlessEmpty 4 TableType.encode m.tables ++ unlessEmpty 5 MemoryType.encode m.memories ++
  unlessEmpty 6 Global.encode m.globals ++ [itemSection 7 Export.encode m.exports] ++
  (m.start.toList.map fun f => (8, Leb128.unsigned f)) ++ unlessEmpty 9 Element.encode m.elements ++
  [itemSection 10 Func.encode m.funcs] ++ unlessEmpty 11 Data.encode m.data

theorem frame_unlessEmpty {α : Type} (id : UInt8) (item : α → List UInt8) (xs : List α) :
    (unlessEmpty id item xs).flatMap (fun s => frame s.1 s.2) = optionalSection id item xs := by
  unfold unlessEmpty optionalSection itemSection
  cases xs with
  | nil => rfl
  | cons => simp

theorem encode_sections (m : Module) :
    m.encode = header ++ m.sections.flatMap fun s => frame s.1 s.2 := by
  unfold Module.encode Module.sections
  cases m.start with
  | none | some => simp [frame_unlessEmpty, itemSection]

theorem rawSections_flatMap (sections : List (UInt8 × List UInt8)) {bound : Nat}
    (inside : (sections.flatMap fun s => frame s.1 s.2).length ≤ bound)
    (short : (sections.flatMap fun s => frame s.1 s.2).length < 2 ^ 32) :
    Reader.rawSections bound (sections.flatMap fun s => frame s.1 s.2) = some (sections, []) := by
  induction sections generalizing bound with
  | nil => cases bound <;> rfl
  | cons s rest ih =>
    rw [List.flatMap_cons] at inside short ⊢
    cases bound with
    | zero => cases inside
    | succ bound =>
      have first : Reads Reader.rawSection (frame s.1 s.2) s :=
        (Reads.byte s.1).bind ((Reads.sizedBytes s.2).map fun bytes => (s.1, bytes))
      have taken : 0 < (frame s.1 s.2).length := Nat.succ_pos _
      rw [List.length_append] at inside short
      have read := first (by omega) (rest.flatMap fun s => frame s.1 s.2)
      have later := ih (show _ ≤ bound by omega) (by omega)
      have more : Reader.atEnd (frame s.1 s.2 ++ rest.flatMap fun s => frame s.1 s.2) =
          some (false, frame s.1 s.2 ++ rest.flatMap fun s => frame s.1 s.2) := rfl
      simp only [Reader.rawSections, Bind.bind, StateT.bind, more, read, later, Option.bind_some,
        Bool.false_eq_true, if_false]
      rfl

def sectionIds : List UInt8 := [1, 2, 3, 4, 5, 6, 7, 8, 9, 10, 11]

theorem sublist_sectionIds (m : Module) : (m.sections.map (·.1)).Sublist sectionIds := by
  have optional {α : Type} (id : UInt8) (item : α → List UInt8) (xs : List α) :
      ((unlessEmpty id item xs).map (·.1)).Sublist [id] := by
    cases xs with
    | nil => exact List.nil_sublist _
    | cons => exact List.Sublist.refl _
  have start :
      ((m.start.toList.map fun f => ((8 : UInt8), Leb128.unsigned f)).map (·.1)).Sublist [8] := by
    cases m.start with
    | none => exact List.nil_sublist _
    | some => exact List.Sublist.refl _
  have one (id : UInt8) : [id].Sublist [id] := List.Sublist.refl _
  simp only [Module.sections, List.map_append]
  exact (one 1).append (optional 2 _ _) |>.append (one 3) |>.append (optional 4 _ _)
    |>.append (optional 5 _ _) |>.append (optional 6 _ _) |>.append (one 7) |>.append start
    |>.append (optional 9 _ _) |>.append (one 10) |>.append (optional 11 _ _)

theorem sectionsInOrder_of_sublist {ids : List UInt8} (sub : ids.Sublist sectionIds) :
    sectionsInOrder ids = true := by
  have ranked : ids.mapM sectionRank? = some (ids.map fun id => (sectionRank? id).getD 0) := by
    have all : ∀ id ∈ sectionIds, sectionRank? id = some ((sectionRank? id).getD 0) := by
      decide +kernel
    have known (id : UInt8) (mem : id ∈ ids) := all id (sub.subset mem)
    rw [mapM_eq_some_iff, List.forall₂_map_right_iff, List.forall₂_same]
    exact known
  -- leaving out sections keeps their ranks in order
  have ascending : (sectionIds.map fun id => (sectionRank? id).getD 0).Pairwise (· < ·) := by decide
  rw [sectionsInOrder, ranked]
  exact decide_eq_true (ascending.sublist (sub.map _))

section
variable {α β : Type} {sections : List (UInt8 × List UInt8)} {k id : UInt8} {item : Reader β}
  {form : α → List UInt8} {xs : List α}

def HoldsItems (sections : List (UInt8 × List UInt8)) (id : UInt8) (form : α → List UInt8)
    (xs : List α) : Prop :=
  sections.lookup id = some (encodeVec form xs) ∨ (sections.lookup id = none ∧ xs = [])

theorem length_of_lookup {bytes : List UInt8} (here : sections.lookup id = some bytes)
    (size : (sections.flatMap fun s => frame s.1 s.2).length < 2 ^ 32) : bytes.length < 2 ^ 32 := by
  obtain ⟨before, after, rfl, _⟩ := List.lookup_eq_some_iff.1 here
  simp only [List.flatMap_append, List.flatMap_cons, List.length_append, frame, encodeBytes,
    List.length_cons] at size
  omega

theorem HoldsItems.read {f : α → β} (holds : HoldsItems sections id form xs)
    (size : (sections.flatMap fun s => frame s.1 s.2).length < 2 ^ 32)
    (each : ∀ x ∈ xs, Reads item (form x) (f x)) (some_ : ∀ x ∈ xs, form x ≠ []) :
    sectionItems sections id item = some (xs.map f) := by
  obtain here | ⟨none, rfl⟩ := holds
  · rw [sectionItems, here]
    exact (Reads.vec xs each some_).whole (length_of_lookup here size)
  · rw [sectionItems, none]
    rfl

theorem HoldsItems.same {item : Reader α} (holds : HoldsItems sections id form xs)
    (size : (sections.flatMap fun s => frame s.1 s.2).length < 2 ^ 32)
    (each : ∀ x ∈ xs, Reads item (form x) x) (some_ : ∀ x ∈ xs, form x ≠ []) :
    sectionItems sections id item = some xs := by
  have all := holds.read size each some_
  rwa [List.map_id'] at all

theorem lookup_single (bytes : List UInt8) :
    [(id, bytes)].lookup k = if k = id then some bytes else none := by
  by_cases same : k = id
  · simp [same]
  · simp [List.lookup_cons, same, beq_false_of_ne same]

theorem lookup_unlessEmpty : (unlessEmpty id form xs).lookup k =
    if k = id ∧ xs ≠ [] then some (encodeVec form xs) else none := by
  unfold unlessEmpty itemSection
  cases xs with
  | nil => simp
  | cons => simp [lookup_single]

end

structure Module.Sectioned (m : Module) : Prop where
  types : HoldsItems m.sections 1 FuncType.encode m.types
  imports : HoldsItems m.sections 2 Import.encode m.imports
  typeIndices : HoldsItems m.sections 3 (fun f => Leb128.unsigned f.typeIndex) m.funcs
  tables : HoldsItems m.sections 4 TableType.encode m.tables
  memories : HoldsItems m.sections 5 MemoryType.encode m.memories
  globals : HoldsItems m.sections 6 Global.encode m.globals
  exports : HoldsItems m.sections 7 Export.encode m.exports
  start : m.sections.lookup 8 = m.start.map Leb128.unsigned
  elements : HoldsItems m.sections 9 Element.encode m.elements
  code : HoldsItems m.sections 10 Func.encode m.funcs
  data : HoldsItems m.sections 11 Data.encode m.data
  dataCount : m.sections.lookup 12 = none

theorem sectioned (m : Module) : m.Sectioned := by
  have start (k : UInt8) : (m.start.toList.map fun f => ((8 : UInt8), Leb128.unsigned f)).lookup k =
      if k = 8 then m.start.map Leb128.unsigned else none := by
    cases m.start <;> simp [lookup_single]
  constructor <;>
    simp only [HoldsItems, Module.sections, List.lookup_append, lookup_unlessEmpty, lookup_single,
      itemSection, start] <;>
    simp [Classical.or_iff_not_imp_left]

theorem sizes_of_isValid {m : Module} (valid : m.isValid = true) :
    (∀ i ∈ m.imports,
      i.key.space.utf8ByteSize ≤ maxNameBytes ∧ i.key.name.utf8ByteSize ≤ maxNameBytes) ∧
    (∀ e ∈ m.exports, e.name.utf8ByteSize ≤ maxNameBytes) ∧
    ∀ f ∈ m.funcs, f.locals.length ≤ 50000 := by
  rw [Module.isValid] at valid
  split at valid
  · cases valid
  · simp only [Bool.and_eq_true, List.all_eq_true, decide_eq_true_eq] at valid
    obtain ⟨⟨⟨⟨⟨⟨⟨⟨⟨⟨⟨⟨⟨-, names⟩, -⟩, -⟩, -⟩, -⟩, -⟩, -⟩, exports⟩, -⟩, -⟩, -⟩, -⟩, funcs⟩ := valid
    refine ⟨names, fun e mem => (exports e mem).1, fun f mem => ?_⟩
    have checked := funcs f mem
    unfold Module.checkFunc at checked
    split at checked
    next =>
      have few := of_decide_eq_true (Bool.and_eq_true_iff.1 checked).1
      exact Nat.le_trans (Nat.le_add_left ..) few
    next => cases checked

theorem partition_sections (m : Module) : m.sections.partition (·.1 = 0) = ([], m.sections) := by
  have known (s : UInt8 × List UInt8) (mem : s ∈ m.sections) : s.1 ≠ 0 := by
    have listed := (sublist_sectionIds m).subset (List.mem_map_of_mem mem)
    intro none
    rw [none] at listed
    revert listed
    decide
  rw [List.partition_eq_filter_filter]
  congr 1
  · simpa using known
  · simpa using known

structure Module.ReadBack (m : Module) : Prop where
  types : sectionItems m.sections 1 Reader.funcType = some m.types
  imports : sectionItems m.sections 2 Reader.importItem = some m.imports
  typeIndices : sectionItems m.sections 3 Reader.u32 = some (m.funcs.map (·.typeIndex))
  tables : sectionItems m.sections 4 Reader.tableType = some m.tables
  memories : sectionItems m.sections 5 Reader.memoryType = some m.memories
  globals : sectionItems m.sections 6 Reader.global = some m.globals
  exports : sectionItems m.sections 7 Reader.exportItem = some m.exports
  start : sectionNumber? m.sections 8 = some m.start
  elements : sectionItems m.sections 9 Reader.element = some m.elements
  code : sectionItems m.sections 10 (Reader.code false) =
    some (m.funcs.map fun f => (f.locals, f.body))
  data : sectionItems m.sections 11 Reader.dataItem = some m.data
  dataCount : sectionNumber? m.sections 12 = some none

theorem readBack {m : Module} (written : m.Writable)
    (size : (m.sections.flatMap fun s => frame s.1 s.2).length < 2 ^ 32) : m.ReadBack := by
  have held := sectioned m
  -- sizes of tables and memories are valid wherever they are declared, imported ones among them
  obtain ⟨tables, memories⟩ := stores_of_isValid written.valid
  obtain ⟨names, exports, locals⟩ := sizes_of_isValid written.valid
  have importedTable (i : Import) (mem : i ∈ m.imports) (t : TableType) (same : i.type = .table t) :
      t.isValid = true :=
    tables t (List.mem_append_left _ (List.mem_filterMap.2 ⟨i, mem, by rw [same]; rfl⟩))
  have importedMemory (i : Import) (mem : i ∈ m.imports) (t : MemoryType)
      (same : i.type = .memory t) : t.isValid = true :=
    memories t (List.mem_append_left _ (List.mem_filterMap.2 ⟨i, mem, by rw [same]; rfl⟩))
  constructor
  case types => exact held.types.same size (fun t _ => Reads.funcType t) fun _ _ => List.cons_ne_nil _ _
  case imports =>
    refine held.imports.same size (fun i mem => ?_) fun i _ => ?_
    · obtain ⟨space, name⟩ := names i mem
      exact Reads.importItem space name (written.imports i mem) (importedTable i mem)
        (importedMemory i mem)
    · exact import_ne_nil i
  case typeIndices =>
    exact held.typeIndices.read size (fun f mem => Reads.u32 (written.funcs f mem).1)
      fun f _ => unsigned_ne_nil _
  case tables =>
    exact held.tables.same size
      (fun t mem => Reads.validTable (tables t (List.mem_append_right _ mem)))
      fun _ _ => List.cons_ne_nil _ _
  case memories =>
    exact held.memories.same size
      (fun t mem => Reads.validMemory (memories t (List.mem_append_right _ mem)))
      fun _ _ => List.cons_ne_nil _ _
  case globals =>
    exact held.globals.same size (fun g mem => Reads.global (written.globals g mem))
      fun _ _ => List.cons_ne_nil _ _
  case exports =>
    refine held.exports.same size
      (fun e mem => Reads.exportItem (exports e mem) (written.exports e mem)) fun _ _ => ?_
    exact List.append_ne_nil_of_left_ne_nil (encodeBytes_ne_nil _) _
  case start =>
    have here := held.start
    rw [sectionNumber?]
    cases start : m.start with
    | none =>
      rw [here, start]
      rfl
    | some f =>
      rw [start] at here
      have number := (Reads.u32 (written.start f start)).whole (length_of_lookup here size)
      rw [here]
      exact congrArg (Option.map some) number
  case elements =>
    refine held.elements.same size (fun e mem => Reads.element (written.elements e mem)) fun e _ => ?_
    have placed (form : Nat) : Element.encode.placed e form ≠ [] := by
      unfold Element.encode.placed
      split <;> simp [unsigned_ne_nil]
    unfold Element.encode
    split <;> exact List.append_ne_nil_of_left_ne_nil (placed _) _
  case code =>
    exact held.code.read size (fun f mem => Reads.code (locals f mem) (written.funcs f mem).2)
      fun _ _ => encodeBytes_ne_nil _
  case data =>
    refine held.data.same size ?_ ?_ <;> simp [written.data]
  case dataCount => rw [sectionNumber?, held.dataCount]

theorem decode_encode {m : Module} (written : m.Writable) : Module.decode m.encode = some m := by
  have size := written.size
  rw [encode_sections, List.length_append] at size
  have short : (m.sections.flatMap fun s => frame s.1 s.2).length < 2 ^ 32 := by omega
  obtain ⟨types, imports, typeIndices, tables, memories, globals, exports, start, elements, code,
    data, count⟩ := readBack written short
  have magic : m.encode.take header.length = header := by
    rw [encode_sections, List.take_left]
  have rest : m.encode.drop header.length = m.sections.flatMap fun s => frame s.1 s.2 := by
    rw [encode_sections, List.drop_left]
  have raw : (Reader.rawSections m.encode.length).run
      (m.sections.flatMap fun s => frame s.1 s.2) = some (m.sections, []) :=
    rawSections_flatMap m.sections (by rw [encode_sections, List.length_append]; omega) short
  have ordered := sectionsInOrder_of_sublist (sublist_sectionIds m)
  have funcs : (m.funcs.map (·.typeIndex)).zipWith (fun t c => Func.mk t c.1 c.2)
      (m.funcs.map fun f => (f.locals, f.body)) = m.funcs := by
    simp
  have required {b : Bool} (holds : b = true) : Module.decode.require' b = some () := by
    rw [holds]
    rfl
  -- what is read one after the other, in the order in which it is read
  have step {α : Type} {o : Option α} {a : α} {f : α → Option Module} (here : o = some a)
      (later : f a = some m) : o.bind f = some m := by
    rw [here]
    exact later
  unfold Module.decode
  refine step (required (decide_eq_true magic)) ?_
  rw [rest]
  refine step raw ?_
  dsimp only
  rw [partition_sections]
  refine step rfl (step (required ordered) (step typeIndices (step count (step code ?_))))
  refine step (required (decide_eq_true (by simp))) (step data (step (required rfl) ?_))
  refine step types (step imports (step tables (step memories (step globals ?_))))
  refine step exports (step start (step elements ?_))
  rw [funcs]
  rfl

/-! What is numbered is written down, so that there is less of it than there are bytes. -/

structure Context.IsSmall (c : Context) : Prop where
  types : c.types.size ≤ 2 ^ 32
  funcs : c.funcs.size ≤ 2 ^ 32
  globals : c.globals.size ≤ 2 ^ 32
  tables : c.tables.size ≤ 2 ^ 32
  memories : c.memories.size ≤ 2 ^ 32
  locals : c.locals.size ≤ 2 ^ 32

theorem lt_of_getElem? {α : Type} {xs : Array α} {i : Nat} {x : α} (small : xs.size ≤ 2 ^ 32)
    (here : xs[i]? = some x) : i < 2 ^ 32 :=
  Nat.lt_of_lt_of_le (Array.getElem?_eq_some_iff.1 here).1 small

namespace Context.IsSmall

variable {c : Context} (small : c.IsSmall)

include small

theorem withLabel (types : List ValType) : (c.withLabel types).IsSmall :=
  ⟨small.types, small.funcs, small.globals, small.tables, small.memories, small.locals⟩

theorem blockType {t : BlockType} {f : FuncType} (typed : c.blockType? t = some f) :
    t.fits = true := by
  cases t with
  | empty | value => rfl
  | index i => exact decide_eq_true (lt_of_getElem? small.types typed)

theorem memory {n : Nat} {t : AddressType} (here : c.memoryAddress? n = some t) : n < 2 ^ 32 := by
  obtain ⟨_, here, _⟩ := Option.map_eq_some_iff.1 here
  exact lt_of_getElem? small.memories here

theorem access {type : NumType} {arg : MemArg} {t : ValType} (align : arg.align ≤ type.alignLog2)
    (access : c.accessAddress? arg = some t) :
    (arg.align < 64 && arg.offset < 2 ^ 64 && arg.memory < 2 ^ 32 : Bool) = true := by
  obtain ⟨address, here, access⟩ := Option.bind_eq_some_iff.1 access
  obtain ⟨_, offset, _⟩ := Option.bind_eq_some_iff.1 access
  have offset := of_decide_eq_true (Instr.require_eq_some offset)
  have narrow : 2 ^ address.bits ≤ 2 ^ 64 := by cases address <;> decide
  have least : type.alignLog2 < 64 := by cases type <;> decide
  have memory := small.memory here
  simp only [Bool.and_eq_true, decide_eq_true_eq]
  omega

end Context.IsSmall

namespace Instr

mutual

/-- Checked code names what is there. Labels are opened by code, so there are fewer than bytes. -/
theorem fits_of_check (i : Instr) (plain : i.isPlain = true) {c : Context} (small : c.IsSmall)
    (room : c.labels.length + i.encode.length ≤ 2 ^ 32) {s t : OpStack}
    (checked : i.check c s = some t) : i.fits = true := by
  cases i with
  | drop | const | binary | unary | ret => rfl
  | localGet k | localSet k =>
    obtain ⟨_, typed, _⟩ := Option.bind_eq_some_iff.1 checked
    obtain ⟨_, here, _⟩ := Option.bind_eq_some_iff.1 typed
    exact decide_eq_true (lt_of_getElem? small.locals here)
  | globalGet k | globalSet k =>
    obtain ⟨_, typed, _⟩ := Option.bind_eq_some_iff.1 checked
    obtain ⟨_, here, _⟩ := Option.bind_eq_some_iff.1 typed
    exact decide_eq_true (lt_of_getElem? small.globals here)
  | load k arg | store k arg =>
    obtain ⟨_, typed, _⟩ := Option.bind_eq_some_iff.1 checked
    obtain ⟨_, align, typed⟩ := Option.bind_eq_some_iff.1 typed
    obtain ⟨_, access, _⟩ := Option.bind_eq_some_iff.1 typed
    exact small.access (of_decide_eq_true (require_eq_some align)) access
  | memorySize k | memoryGrow k =>
    obtain ⟨_, typed, _⟩ := Option.bind_eq_some_iff.1 checked
    obtain ⟨_, here, _⟩ := Option.bind_eq_some_iff.1 typed
    exact decide_eq_true (small.memory here)
  | br label =>
    obtain ⟨_, named, _⟩ := Option.bind_eq_some_iff.1 checked
    have inside := (List.getElem?_eq_some_iff.1 named).1
    exact decide_eq_true (show label < 2 ^ 32 by omega)
  | brIf label =>
    unfold check at checked
    obtain ⟨_, named, _⟩ := Option.bind_eq_some_iff.1 checked
    have inside := (List.getElem?_eq_some_iff.1 named).1
    exact decide_eq_true (show label < 2 ^ 32 by omega)
  | call f =>
    obtain ⟨_, typed, _⟩ := Option.bind_eq_some_iff.1 checked
    exact decide_eq_true (lt_of_getElem? small.funcs typed)
  | callIndirect k table =>
    obtain ⟨_, typed, _⟩ := Option.bind_eq_some_iff.1 checked
    obtain ⟨_, indirect, _⟩ := Option.bind_eq_some_iff.1 typed
    obtain ⟨_, held, indirect⟩ := Option.bind_eq_some_iff.1 indirect
    obtain ⟨_, _, indirect⟩ := Option.bind_eq_some_iff.1 indirect
    obtain ⟨_, named, _⟩ := Option.bind_eq_some_iff.1 indirect
    exact Bool.and_eq_true_iff.2 ⟨decide_eq_true (lt_of_getElem? small.types named),
      decide_eq_true (lt_of_getElem? small.tables held)⟩
  | block type body =>
    obtain ⟨_, _, _, typed, _, inside, _⟩ := exists_of_check_block checked
    simp only [encode, List.length_append, List.length_cons] at room
    exact Bool.and_eq_true_iff.2 ⟨small.blockType typed,
      fitsSeq_of_check body plain (small.withLabel _) (by rw [Context.withLabel, List.length_cons]; omega)
        inside⟩
  | loop type body =>
    obtain ⟨_, _, _, typed, _, inside, _⟩ := exists_of_check_loop checked
    simp only [encode, List.length_append, List.length_cons] at room
    exact Bool.and_eq_true_iff.2 ⟨small.blockType typed,
      fitsSeq_of_check body plain (small.withLabel _) (by rw [Context.withLabel, List.length_cons]; omega)
        inside⟩
  | ifThen type body =>
    obtain ⟨_, _, _, _, typed, _, _, inside, _⟩ := exists_of_check_ifThen checked
    simp only [encode, List.length_append, List.length_cons] at room
    exact Bool.and_eq_true_iff.2 ⟨small.blockType typed,
      fitsSeq_of_check body plain (small.withLabel _) (by rw [Context.withLabel, List.length_cons]; omega)
        inside⟩
  | ifElse type first second =>
    obtain ⟨_, _, _, _, _, typed, _, _, yes, _, no, _⟩ := exists_of_check_ifElse checked
    obtain ⟨plain, plain'⟩ := Bool.and_eq_true_iff.1 plain
    simp only [encode, List.length_append, List.length_cons] at room
    have one := fitsSeq_of_check first plain (small.withLabel _)
      (by rw [Context.withLabel, List.length_cons]; omega) yes
    have two := fitsSeq_of_check second plain' (small.withLabel _)
      (by rw [Context.withLabel, List.length_cons]; omega) no
    exact Bool.and_eq_true_iff.2 ⟨Bool.and_eq_true_iff.2 ⟨small.blockType typed, one⟩, two⟩
  | _ => cases plain

theorem fitsSeq_of_check (is : List Instr) (plain : isPlainSeq is = true) {c : Context}
    (small : c.IsSmall) (room : c.labels.length + (encodeSeq is).length ≤ 2 ^ 32) {s t : OpStack}
    (checked : checkSeq is c s = some t) : fitsSeq is = true := by
  cases is with
  | nil => rfl
  | cons i rest =>
    obtain ⟨one, others⟩ := Bool.and_eq_true_iff.1 plain
    obtain ⟨_, first, second⟩ := Option.bind_eq_some_iff.1 checked
    rw [encodeSeq, List.length_append] at room
    exact Bool.and_eq_true_iff.2 ⟨fits_of_check i one small (by omega) first,
      fitsSeq_of_check rest others small (by omega) second⟩

end

end Instr

section
variable {α : Type} {form : α → List UInt8} {xs : List α} (some_ : ∀ x ∈ xs, form x ≠ [])

theorem length_le_frame (id : UInt8) (bytes : List UInt8) :
    bytes.length ≤ (frame id bytes).length := by
  simp only [frame, encodeBytes, List.length_cons, List.length_append]
  omega

include some_

theorem length_le_encodeVec : xs.length ≤ (encodeVec form xs).length := by
  have items := length_le_flatMap some_
  rw [encodeVec, List.length_append]
  omega

theorem length_le_optionalSection (id : UInt8) : xs.length ≤ (optionalSection id form xs).length := by
  unfold optionalSection
  split
  next none =>
    rw [List.isEmpty_iff.1 none]
    exact Nat.zero_le _
  next => exact Nat.le_trans (length_le_encodeVec some_) (length_le_frame id _)

end

theorem length_code_lt (f : Func) : (Instr.encodeSeq f.body).length < f.encode.length := by
  rw [Reads.encode_func]
  simp only [encodeBytes, encodeExpr, List.length_append, List.length_cons, List.length_nil]
  omega

/-- Types and functions take a byte each, and code stands in the binary. -/
theorem counts_of_encode (m : Module) :
    m.types.length ≤ m.encode.length ∧ m.imports.length + m.funcs.length ≤ m.encode.length ∧
      ∀ f ∈ m.funcs, (Instr.encodeSeq f.body).length < m.encode.length := by
  have types : m.types.length ≤ (encodeVec FuncType.encode m.types).length :=
    length_le_encodeVec fun _ _ => List.cons_ne_nil _ _
  have imports : m.imports.length ≤ (optionalSection 2 Import.encode m.imports).length :=
    length_le_optionalSection (fun i _ => import_ne_nil i) 2
  have funcs : m.funcs.length ≤
      (encodeVec (fun f : Func => Leb128.unsigned f.typeIndex) m.funcs).length :=
    length_le_encodeVec fun f _ => unsigned_ne_nil f.typeIndex
  have framed := length_le_frame
  have one := framed 1 (encodeVec FuncType.encode m.types)
  have three := framed 3 (encodeVec (fun f => Leb128.unsigned f.typeIndex) m.funcs)
  have ten := framed 10 (encodeVec Func.encode m.funcs)
  simp only [Module.encode, List.length_append]
  refine ⟨by omega, by omega, fun f mem => ?_⟩
  have listed : f.encode ∈ m.funcs.map Func.encode := List.mem_map_of_mem mem
  have part := (List.sublist_flatten_of_mem listed).length_le
  have code := length_code_lt f
  have all : (encodeVec Func.encode m.funcs).length =
      (Leb128.unsigned m.funcs.length).length + (m.funcs.map Func.encode).flatten.length := by
    rw [encodeVec, List.length_append, List.flatMap_def]
  omega

theorem isSmall_of_isValid {m : Module} {c : Context} (valid : m.isValid = true)
    (context : m.context? = some c) (short : m.encode.length < 2 ^ 32) : c.IsSmall := by
  obtain ⟨types, functions, _⟩ := counts_of_encode m
  unfold Module.isValid at valid
  rw [context] at valid
  simp only [Bool.and_eq_true, decide_eq_true_eq] at valid
  obtain ⟨⟨⟨⟨⟨⟨⟨⟨⟨⟨⟨⟨-, tables⟩, -⟩, memories⟩, -⟩, globals⟩, -⟩, -⟩, -⟩, -⟩, -⟩, -⟩, -⟩ := valid
  obtain ⟨funcs, listed, is⟩ := Option.bind_eq_some_iff.1 context
  cases is
  have count := (mapM_eq_some_iff.1 listed).length_eq
  have imported : m.importedFuncs.length ≤ m.imports.length := List.length_filterMap_le ..
  rw [List.length_append, List.length_map] at count
  have stores : capacity.stores ≤ 2 ^ 32 := by decide
  have shared : capacity.globals ≤ 2 ^ 32 := by decide
  constructor
  · exact List.size_toArray.trans_le (by omega)
  · exact List.size_toArray.trans_le (by omega)
  · exact globals.trans shared
  · exact tables.trans stores
  · exact memories.trans stores
  · exact Nat.zero_le _

/-- A module as builds are lowered to: with plain code, and with tables that hold functions. -/
structure Module.IsPlain (m : Module) : Prop where
  funcs : ∀ f ∈ m.funcs, Instr.isPlainSeq f.body = true
  globals : ∀ g ∈ m.globals, Instr.fitsSeq g.init = true
  elements : ∀ e ∈ m.elements, ∃ table offset, ∃ funcs : List Nat,
    e = ⟨.active table offset, .func, funcs.map .func⟩ ∧ Instr.fitsSeq offset = true
  data : m.data = []

namespace Context.IsSmall

variable {c : Context} (small : c.IsSmall)

include small

theorem code {f : Func} (plain : Instr.isPlainSeq f.body = true)
    (short : (Instr.encodeSeq f.body).length < 2 ^ 32) (checked : Module.checkFunc c f = true) :
    Instr.fitsSeq f.body = true := by
  unfold Module.checkFunc at checked
  split at checked
  next t _ =>
    obtain ⟨few, typed⟩ := Bool.and_eq_true_iff.1 checked
    have few := of_decide_eq_true few
    have bound : capacity.locals ≤ 2 ^ 32 := by decide
    have own : (c.forBody t f.locals).IsSmall :=
      ⟨small.types, small.funcs, small.globals, small.tables, small.memories,
        List.size_toArray.trans_le (by rw [List.length_append]; omega)⟩
    unfold Instr.isTyped at typed
    split at typed
    next final ran =>
      refine Instr.fitsSeq_of_check f.body plain own ?_ ran
      rw [Context.forBody, List.length_singleton]
      omega
    next => cases typed
  next => cases checked

theorem exported {e : Export} (checked : Module.checkExport c e = true) : e.index < 2 ^ 32 := by
  unfold Module.checkExport at checked
  split at checked
  · exact Nat.lt_of_lt_of_le (of_decide_eq_true checked) small.funcs
  · exact Nat.lt_of_lt_of_le (of_decide_eq_true checked) small.tables
  · exact Nat.lt_of_lt_of_le (of_decide_eq_true checked) small.memories
  · exact Nat.lt_of_lt_of_le (of_decide_eq_true checked) small.globals

theorem started {f : Nat} (checked : Module.checkStart c (some f) = true) : f < 2 ^ 32 :=
  lt_of_getElem? small.funcs (beq_iff_eq.1 checked)

theorem element {table : Nat} {offset : List Instr} {funcs : List Nat}
    (fits : Instr.fitsSeq offset = true)
    (checked : Module.checkElement c ⟨.active table offset, .func, funcs.map .func⟩ = true) :
    Element.fits ⟨.active table offset, .func, funcs.map .func⟩ = true := by
  obtain ⟨placed, slots⟩ := Bool.and_eq_true_iff.1 checked
  have listed : Element.funcs? ⟨.active table offset, .func, funcs.map .func⟩ = some funcs := by
    rw [Element.funcs?, if_pos rfl, mapM_eq_some_iff, List.forall₂_map_left_iff]
    exact List.forall₂_same.2 fun _ _ => rfl
  have inside (n : Nat) (mem : n ∈ funcs) : n < 2 ^ 32 := by
    have named := List.all_eq_true.1 slots (.func n) (List.mem_map_of_mem mem)
    unfold Module.checkSlot at named
    exact Nat.lt_of_lt_of_le (of_decide_eq_true (Bool.and_eq_true_iff.1 named).2) small.funcs
  obtain ⟨address, found, _⟩ := (Option.any_eq_true _ _).1 placed
  obtain ⟨_, held, _⟩ := Option.bind_eq_some_iff.1 found
  have held := lt_of_getElem? small.tables held
  rw [Element.fits, listed]
  simp only [held, fits, decide_true, Bool.true_and, List.all_eq_true, decide_eq_true_eq]
  exact inside

end Context.IsSmall

theorem Context.IsSmall.typeIndex {m : Module} {c : Context} (small : c.IsSmall)
    (context : m.context? = some c) {t : Nat} (mem : t ∈ m.importedFuncs ++ m.funcs.map (·.typeIndex)) :
    t < 2 ^ 32 := by
  obtain ⟨types, listed, is⟩ := Option.bind_eq_some_iff.1 context
  cases is
  obtain ⟨n, here⟩ := List.mem_iff_getElem?.1 mem
  obtain ⟨type, _, found⟩ := exists_getElem?_of_forall₂ (mapM_eq_some_iff.1 listed) here
  have inside : t < m.types.length := (List.getElem?_eq_some_iff.1 found).1
  exact Nat.lt_of_lt_of_le inside small.types

/-- A valid module of plain code is written with numbers that can be read back. -/
theorem Module.IsPlain.writable {m : Module} (plain : m.IsPlain) (valid : m.isValid = true)
    (short : m.encode.length < 2 ^ 32) : m.Writable := by
  obtain ⟨c, context⟩ : ∃ c, m.context? = some c := by
    rw [Module.isValid] at valid
    split at valid
    · cases valid
    next c context => exact ⟨c, context⟩
  have small := isSmall_of_isValid valid context short
  obtain ⟨_, _, code⟩ := counts_of_encode m
  have whole := valid
  unfold Module.isValid at valid
  rw [context] at valid
  simp only [Bool.and_eq_true, List.all_eq_true] at valid
  obtain ⟨⟨⟨⟨⟨⟨-, exports⟩, -⟩, start⟩, elements⟩, -⟩, funcs⟩ := valid
  refine ⟨whole, ?imports, ?funcs, plain.globals, fun e mem => small.exported (exports e mem).2, ?start,
    ?elements, plain.data, short⟩
  case imports =>
    rintro ⟨key, type⟩ mem
    cases type with
    | func t =>
      have listed : t ∈ m.importedFuncs := List.mem_filterMap.2 ⟨_, mem, rfl⟩
      exact decide_eq_true (small.typeIndex context (List.mem_append_left _ listed))
    | table | memory | global => rfl
  case funcs =>
    intro f mem
    have index : f.typeIndex ∈ m.funcs.map (·.typeIndex) := List.mem_map_of_mem mem
    exact ⟨small.typeIndex context (List.mem_append_right _ index),
      small.code (plain.funcs f mem) (Nat.lt_trans (code f mem) short) (funcs f mem)⟩
  case start =>
    intro f is
    rw [Option.mem_def.1 is] at start
    exact small.started start
  case elements =>
    intro e mem
    obtain ⟨table, offset, fs, rfl, fits⟩ := plain.elements e mem
    exact small.element fits (elements _ mem)

/-! How long written forms are, at most. The bounds are coarse: they are only to say that sizes can be
written themselves. -/

theorem length_unsigned_le (n : Nat) : (Leb128.unsigned n).length ≤ n + 1 := by
  induction n using Leb128.unsigned.induct with
  | case1 n small =>
    rw [Leb128.unsigned, if_pos small]
    simp
  | case2 n large ih =>
    rw [Leb128.unsigned, if_neg large, List.length_cons]
    omega

theorem length_signed_le (k : Nat) {z : Int} (fits : -(64 * 128 ^ k) ≤ z ∧ z < 64 * 128 ^ k) :
    (Leb128.signed z).length ≤ k + 1 := by
  induction k generalizing z with
  | zero =>
    rw [Leb128.signed, if_pos (by omega)]
    simp
  | succ k ih =>
    rw [Leb128.signed]
    split
    · simp
    · rw [Int.pow_succ] at fits
      have rest := ih (show -(64 * 128 ^ k) ≤ z / 128 ∧ z / 128 < 64 * 128 ^ k by omega)
      rw [List.length_cons]
      omega

theorem length_encodeBytes_le (bytes : List UInt8) :
    (encodeBytes bytes).length ≤ 2 * bytes.length + 1 := by
  have number := length_unsigned_le bytes.length
  rw [encodeBytes, List.length_append]
  omega

/-- The length of a binary by that of one section, where those of the others are known. -/
theorem length_encode_le {m : Module} (before after : List (UInt8 × List UInt8))
    {s : UInt8 × List UInt8} (sections : m.sections = before ++ s :: after) {n k : Nat}
    (others : ((before ++ after).flatMap fun s => frame s.1 s.2).length ≤ n)
    (one : s.2.length ≤ k) : m.encode.length ≤ n + 2 * k + 10 := by
  have size := length_encodeBytes_le s.2
  have start : header.length = 8 := rfl
  rw [encode_sections, sections]
  simp only [List.flatMap_append, List.flatMap_cons, List.length_append] at others ⊢
  simp only [frame, List.length_cons]
  simp only [frame] at others
  omega

end WasmBuilder.Wasm
