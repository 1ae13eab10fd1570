import WasmBuilder.Proofs.Meaning.Variables
import WasmBuilder.Proofs.Simplify.Agreement

/-!
Fields of composites, read directly or through scratch locals.

A field of a variable is read from the variable itself, and a field of any other composite from the
scratch locals that the composite is spilled into. Where the field lies within its composite, both
leave the same part of what the composite leaves. Only spilling looks whether it does.
-/

set_option autoImplicit false

namespace WasmBuilder

open Wasm (Datum Env Instr Machine Outcome)

namespace Wasm

variable {e : Env} {m m' : Machine}

/-- Instructions that push one entry of an array each push several, unless an entry is missing. -/
theorem execSeq_reads_iff {f : Nat → Instr} {a : Array Datum}
    (reads : ∀ (i : Nat) (stack : List Datum), (f i).exec e { m with stack } =
      match a[i]? with
      | some d => .next { m with stack := d :: stack }
      | none => { m with stack }.stuck) {is : List Nat} (stack : List Datum) :
    Instr.execSeq (is.map f) e { m with stack } = .next m' ↔
      ∃ ds, List.Forall₂ (fun i d => a[i]? = some d) is ds ∧
        m' = { m with stack := ds.reverse ++ stack } := by
  induction is generalizing stack with
  | nil => simp [Instr.execSeq, eq_comm]
  | cons i is ih =>
    rw [List.map_cons, Instr.execSeq, reads]
    cases here : a[i]? with
    | none => simp [Machine.stuck, List.forall₂_cons_left_iff, here]
    | some d =>
      simp only [ih]
      constructor
      · rintro ⟨ds, others, rfl⟩
        exact ⟨d :: ds, .cons here others, by simp⟩
      · rintro ⟨_, all, rfl⟩
        cases all with
        | cons first others =>
          cases here.symm.trans first
          exact ⟨_, others, by simp⟩

theorem execSeq_localReads_iff {is : List Nat} :
    Instr.execSeq (is.map .localGet) e m = .next m' ↔
      ∃ ds, List.Forall₂ (fun i d => m.locals[i]? = some d) is ds ∧
        m' = { m with stack := ds.reverse ++ m.stack } := by
  refine execSeq_reads_iff (fun i stack => ?_) m.stack
  unfold Instr.exec Machine.localGet
  cases m.locals[i]? <;> rfl

theorem execSeq_globalReads_iff {is : List Nat} :
    Instr.execSeq (is.map .globalGet) e m = .next m' ↔
      ∃ ds, List.Forall₂ (fun i d => m.store.globals[i]? = some d) is ds ∧
        m' = { m with stack := ds.reverse ++ m.stack } := by
  refine execSeq_reads_iff (fun i stack => ?_) m.stack
  unfold Instr.exec Machine.globalGet
  cases m.store.globals[i]? <;> rfl

end Wasm

namespace Lower

open Wasm (execSeq_localReads_iff execSeq_globalReads_iff)

/-- A slice that lies within a run of words is the part of the run that it says. -/
theorem slice_eq_part {base offset width count : Nat} (fits : offset + width ≤ count)
    (words : base + count ≤ indexBound) (word : offset + width < indexBound) :
    Layout.slice base offset width =
      (((List.range count).map (base + ·)).drop offset).take width := by
  have first : offset % indexBound = offset := Nat.mod_eq_of_lt (by omega)
  have last : (offset + width) % indexBound = offset + width := Nat.mod_eq_of_lt word
  simp only [Layout.slice, first, last, Nat.add_sub_cancel_left]
  apply List.ext_getElem
  · simp
    omega
  · intro i inside _
    rw [List.length_map, List.length_range] at inside
    have small : base + offset + i < indexBound := by omega
    simp only [List.getElem_map, List.getElem_range, List.getElem_take, List.getElem_drop]
    rw [Nat.mod_eq_of_lt small, Nat.add_assoc]

/-- Where reads leave a whole run, those of a slice leave its part of the run. -/
theorem execSeq_slice {e : Env} {f : Nat → Instr} {entries : Machine → Array Datum}
    (reads : ∀ (is : List Nat) (m m' : Machine), Instr.execSeq (is.map f) e m = .next m' ↔
      ∃ ds, List.Forall₂ (fun i d => (entries m)[i]? = some d) is ds ∧
        m' = { m with stack := ds.reverse ++ m.stack }) {base offset width count : Nat}
    (fits : offset + width ≤ count) (words : base + count ≤ indexBound)
    (word : offset + width < indexBound) {m m' : Machine} {values : List Value} {below : List Datum}
    (run : Instr.execSeq ((List.range count).map fun i => f (base + i)) e m = .next m')
    (stack : m'.stack = (values.map Datum.num).reverse ++ below) (length : values.length = count) :
    Instr.execSeq ((Layout.slice base offset width).map f) e m =
      .next { m' with stack := (((values.drop offset).take width).map Datum.num).reverse ++ below } := by
  have split : ((List.range count).map fun i => f (base + i)) =
      ((List.range count).map (base + ·)).map f := by
    rw [List.map_map]
    rfl
  obtain ⟨ds, held, rfl⟩ := (reads _ _ _).1 (split ▸ run)
  have count_eq := held.length_eq
  rw [List.length_map, List.length_range] at count_eq
  obtain ⟨same, rfl⟩ := List.append_inj stack (by simp [← count_eq, length])
  rw [List.reverse_inj] at same
  subst same
  rw [slice_eq_part fits words word]
  refine (reads _ _ _).2 ⟨_, List.forall₂_take width (List.forall₂_drop offset held), ?_⟩
  rw [List.map_take, List.map_drop]

variable {l : Layout} {id composite index offset width : Nat}

theorem exprWithin_succ {node : Node} (here : l.arena.node id = .ok node) (depth : Nat)
    (s : LowerState) : l.exprWithin (depth + 1) id s = l.node (l.exprWithin depth) id node s := by
  rw [Layout.exprWithin, here]
  rfl

def Layout.IsRead (l : Layout) (composite : ExprId) : Prop :=
  (∃ slot shape, l.arena.node composite = .ok (.localGet slot shape)) ∨
    ∃ global shape, l.arena.node composite = .ok (.globalGet global shape)

theorem extract_of_not_read {lower : ExprId → LowerM (List Instr)} {node : Node}
    (there : l.arena.node composite = .ok node) (other : ¬ l.IsRead composite) (s : LowerState) :
    l.extract lower composite offset width s = (do
      let all ← l.arena.slots composite
      if all.length < offset + width then throw (.unknownExpression composite)
      let code ← lower composite
      let locals := (← spill all).map (l.scratchBase + ·)
      return code ++ locals.reverse.map .localSet ++
        ((locals.drop offset).take width).map .localGet : LowerM (List Instr)) s := by
  unfold Layout.extract
  rw [there]
  cases node with
  | localGet slot shape => exact absurd (.inl ⟨slot, shape, there⟩) other
  | globalGet global shape => exact absurd (.inr ⟨global, shape, there⟩) other
  | _ => rfl

/-- Where the code of a composite leaves so many numbers, the code of a field leaves its part of them,
and all variables as they are. Scratch locals lie behind the variables. -/
def LeavesPart (scratchBase scratch count offset width : Nat) (whole code : List Instr) : Prop :=
  ∀ (e : Env) (m m' : Machine) (values : List Value) (below : List Datum),
    Instr.execSeq whole e m = .next m' →
    m'.stack = (values.map Datum.num).reverse ++ below → values.length = count →
    scratchBase + scratch ≤ m'.locals.size →
    ∃ locals, Instr.execSeq code e m = .next ⟨m'.store, locals,
        (((values.drop offset).take width).map Datum.num).reverse ++ below⟩ ∧
      locals.size = m'.locals.size ∧
      locals.toList.take scratchBase = m'.locals.toList.take scratchBase

/-- What becomes of the field of a composite. -/
structure FieldLowers (l : Layout) (id composite offset width : Nat) : Prop where
  /-- The field of a composite that is spilled has to lie within what the composite leaves, and the
  composite has to have code. -/
  spilled : ¬ l.IsRead composite → ∀ (depth : Nat) (s : LowerState), s.Free →
    (∀ e, l.arena.slots composite = .error e → l.exprWithin (depth + 1) id s = .error e) ∧
    ∀ all, l.arena.slots composite = .ok all →
      (all.length < offset + width →
        l.exprWithin (depth + 1) id s = .error (.unknownExpression composite)) ∧
      (offset + width ≤ all.length → ∀ e,
        l.exprWithin (depth + 1) id s = .error e ↔ l.exprWithin depth composite s = .error e)
  /-- The field of a variable only needs the variable, wherever the field lies. -/
  readLocal : ∀ slot shape, l.arena.node composite = .ok (.localGet slot shape) →
    ∀ (depth : Nat) (s : LowerState), l.exprWithin (depth + 1) id s =
      (l.localBase slot).map fun base => ((Layout.slice base offset width).map .localGet, s)
  readGlobal : ∀ global shape, l.arena.node composite = .ok (.globalGet global shape) →
    ∀ (depth : Nat) (s : LowerState), l.exprWithin (depth + 1) id s =
      (l.globalBase global).map fun base => ((Layout.slice base offset width).map .globalGet, s)
  /-- A field within its composite is the part of what the composite leaves, whichever way it is
  read. -/
  part : ∀ all, l.arena.slots composite = .ok all → offset + width ≤ all.length →
    ∀ (depth : Nat) (s t : LowerState) (code : List Instr), s.Free →
      l.exprWithin (depth + 2) id s = .ok (code, t) →
      ∃ whole u, l.exprWithin (depth + 1) composite s = .ok (whole, u) ∧
        LeavesPart l.scratchBase t.scratch.size all.length offset width whole code

section
variable (here : l.arena.node id = .ok (.extract composite index offset width))

include here

theorem exprWithin_spilled {node : Node} (there : l.arena.node composite = .ok node)
    (other : ¬ l.IsRead composite) {all : List NumType} (slots : l.arena.slots composite = .ok all)
    (fits : offset + width ≤ all.length) (depth : Nat) (s : LowerState) :
    l.exprWithin (depth + 1) id s = (do
      let code ← l.exprWithin depth composite
      let locals := (← spill all).map (l.scratchBase + ·)
      return code ++ locals.reverse.map .localSet ++
        ((locals.drop offset).take width).map .localGet : LowerM (List Instr)) s := by
  rw [exprWithin_succ here, Layout.node, extract_of_not_read there other, slots]
  show (if all.length < offset + width then _ else _ : LowerM (List Instr)) s = _
  rw [if_neg (Nat.not_lt.2 fits)]

/-- Where the composite of a field that is spilled has code, the field has code behind it. -/
theorem exprWithin_spilled_of_ok {node : Node} (there : l.arena.node composite = .ok node)
    (other : ¬ l.IsRead composite) {all : List NumType} (slots : l.arena.slots composite = .ok all)
    (fits : offset + width ≤ all.length) {depth : Nat} {s u : LowerState} (free : s.Free)
    {whole : List Instr} (lowered : l.exprWithin depth composite s = .ok (whole, u)) :
    ∃ is t, Ranked t.scratchTypes (fun _ => 0) all is ∧
      l.exprWithin (depth + 1) id s =
        .ok (whole ++ ((is.map (l.scratchBase + ·)).reverse.map .localSet ++
          (((is.map (l.scratchBase + ·)).drop offset).take width).map .localGet), t) := by
  obtain ⟨_, free', _⟩ := yields_exprWithin l depth composite s whole u free lowered
  obtain ⟨is, t, spilled, _, _, _, ranked, _⟩ := spill_spec free' all
  refine ⟨is, t, ranked, ?_⟩
  rw [exprWithin_spilled here there other slots fits]
  simp only [bind, StateT.bind, Except.bind, lowered, spilled, List.append_assoc]
  rfl

omit here in
theorem exprWithin_localGet {slot base : Nat} {shape : Shape}
    (there : l.arena.node composite = .ok (.localGet slot shape)) (at_ : l.localBase slot = .ok base)
    (depth : Nat) (s : LowerState) : l.exprWithin (depth + 1) composite s =
      .ok ((List.range shape.width).map fun i => .localGet (base + i), s) := by
  rw [exprWithin_succ there, Layout.node, at_]
  rfl

omit here in
theorem exprWithin_globalGet {global base : Nat} {shape : Shape}
    (there : l.arena.node composite = .ok (.globalGet global shape))
    (at_ : l.globalBase global = .ok base) (depth : Nat) (s : LowerState) :
    l.exprWithin (depth + 1) composite s =
      .ok ((List.range shape.width).map fun i => .globalGet (base + i), s) := by
  rw [exprWithin_succ there, Layout.node, at_]
  rfl

theorem exprWithin_field_localGet {slot : Nat} {shape : Shape}
    (there : l.arena.node composite = .ok (.localGet slot shape)) (depth : Nat) (s : LowerState) :
    l.exprWithin (depth + 1) id s =
      (l.localBase slot).map fun base => ((Layout.slice base offset width).map .localGet, s) := by
  rw [exprWithin_succ here, Layout.node, Layout.extract, there]
  show (liftM (l.localBase slot) >>= fun base =>
    pure ((Layout.slice base offset width).map .localGet) : LowerM (List Instr)) s = _
  cases l.localBase slot <;> rfl

theorem exprWithin_field_globalGet {global : Nat} {shape : Shape}
    (there : l.arena.node composite = .ok (.globalGet global shape)) (depth : Nat) (s : LowerState) :
    l.exprWithin (depth + 1) id s =
      (l.globalBase global).map fun base => ((Layout.slice base offset width).map .globalGet, s) := by
  rw [exprWithin_succ here, Layout.node, Layout.extract, there]
  show (liftM (l.globalBase global) >>= fun base =>
    pure ((Layout.slice base offset width).map .globalGet) : LowerM (List Instr)) s = _
  cases l.globalBase global <;> rfl

omit here in
theorem part_of_reads {f : Nat → Instr} {entries : Machine → Array Datum}
    (reads : ∀ (e : Env) (is : List Nat) (m m' : Machine), Instr.execSeq (is.map f) e m = .next m' ↔
      ∃ ds, List.Forall₂ (fun i d => (entries m)[i]? = some d) is ds ∧
        m' = { m with stack := ds.reverse ++ m.stack }) {base? : Except BuildError Nat} {count : Nat}
    (fits : offset + width ≤ count) (words : ∀ base, base? = .ok base → base + count ≤ indexBound)
    (word : offset + width < indexBound) {depth : Nat} {s t : LowerState} {code : List Instr}
    (field : l.exprWithin (depth + 2) id s =
      base?.map fun base => ((Layout.slice base offset width).map f, s))
    (variable_ : ∀ base, base? = .ok base → l.exprWithin (depth + 1) composite s =
      .ok ((List.range count).map fun i => f (base + i), s))
    (lowered : l.exprWithin (depth + 2) id s = .ok (code, t)) :
    ∃ whole u, l.exprWithin (depth + 1) composite s = .ok (whole, u) ∧
      LeavesPart l.scratchBase t.scratch.size count offset width whole code := by
  rw [field] at lowered
  cases at_ : base? with
  | error e =>
    rw [at_] at lowered
    cases lowered
  | ok base =>
    rw [at_] at lowered
    cases lowered
    refine ⟨_, s, variable_ base at_, ?_⟩
    intro e m m' values below run stack length _
    exact ⟨m'.locals, execSeq_slice (reads e) fits (words base at_) word run stack length, rfl, rfl⟩

theorem part_of_spilled {node : Node} (there : l.arena.node composite = .ok node)
    (other : ¬ l.IsRead composite) {all : List NumType} (slots : l.arena.slots composite = .ok all)
    (fits : offset + width ≤ all.length) {depth : Nat} {s t : LowerState} (free : s.Free)
    {code : List Instr} (lowered : l.exprWithin (depth + 1) id s = .ok (code, t)) :
    ∃ whole u, l.exprWithin depth composite s = .ok (whole, u) ∧
      LeavesPart l.scratchBase t.scratch.size all.length offset width whole code := by
  cases run : l.exprWithin depth composite s with
  | error e =>
    rw [exprWithin_spilled here there other slots fits] at lowered
    simp only [bind, StateT.bind, Except.bind, run] at lowered
    cases lowered
  | ok result =>
    obtain ⟨whole, u⟩ := result
    refine ⟨whole, u, rfl, ?_⟩
    obtain ⟨is, t', ranked, lowered'⟩ :=
      exprWithin_spilled_of_ok here there other slots fits free run
    cases lowered.symm.trans lowered'
    intro e m m' values below ran stack length room
    have behind : ∀ i ∈ is.map (l.scratchBase + ·), l.scratchBase ≤ i := by
      intro i mem
      obtain ⟨j, _, rfl⟩ := List.mem_map.1 mem
      exact Nat.le_add_right _ _
    refine ⟨_, ?_, Meaning.size_writeAll .., Meaning.take_writeAll values behind⟩
    rw [Instr.execSeq_append_next ran]
    exact Meaning.execSeq_spill ranked length stack (by simpa [LowerState.scratchTypes] using room)
      offset width

theorem spilled_of_no_slots (other : ¬ l.IsRead composite) {e : BuildError}
    (failed : l.arena.slots composite = .error e) (depth : Nat) (s : LowerState) :
    l.exprWithin (depth + 1) id s = .error e := by
  rw [exprWithin_succ here, Layout.node]
  cases there : l.arena.node composite with
  | error e' =>
    have same : l.arena.slots composite = .error e' := by
      rw [Arena.slots, Arena.pathBound, Arena.slotsWithin, there]
      rfl
    cases failed.symm.trans same
    rw [Layout.extract, there]
    rfl
  | ok node =>
    rw [extract_of_not_read there other, failed]
    rfl

theorem spilled_of_past {node : Node} (there : l.arena.node composite = .ok node)
    (other : ¬ l.IsRead composite) {all : List NumType} (slots : l.arena.slots composite = .ok all)
    (past : all.length < offset + width) (depth : Nat) (s : LowerState) :
    l.exprWithin (depth + 1) id s = .error (.unknownExpression composite) := by
  rw [exprWithin_succ here, Layout.node, extract_of_not_read there other, slots]
  show (if all.length < offset + width then _ else _ : LowerM (List Instr)) s = _
  rw [if_pos past]
  rfl

theorem spilled_error_iff {node : Node} (there : l.arena.node composite = .ok node)
    (other : ¬ l.IsRead composite) {all : List NumType} (slots : l.arena.slots composite = .ok all)
    (fits : offset + width ≤ all.length) (depth : Nat) {s : LowerState} (free : s.Free)
    (e : BuildError) :
    l.exprWithin (depth + 1) id s = .error e ↔ l.exprWithin depth composite s = .error e := by
  cases run : l.exprWithin depth composite s with
  | error e' =>
    rw [exprWithin_spilled here there other slots fits]
    simp only [bind, StateT.bind, Except.bind, run]
  | ok result =>
    obtain ⟨is, t, _, lowered⟩ := exprWithin_spilled_of_ok here there other slots fits free run
    rw [lowered]
    constructor <;> intro failed <;> cases failed

/-- What becomes of the field of a composite. Machine indices of variables are words. -/
theorem field_lowers (words : ∀ slot shape base, l.arena.node composite = .ok (.localGet slot shape) →
    l.localBase slot = .ok base → base + shape.width ≤ indexBound)
    (globalWords : ∀ global shape base, l.arena.node composite = .ok (.globalGet global shape) →
      l.globalBase global = .ok base → base + shape.width ≤ indexBound)
    (word : offset + width < indexBound) : FieldLowers l id composite offset width where
  spilled other depth s free := by
    refine ⟨fun e failed => spilled_of_no_slots here other failed depth s, fun all slots => ?_⟩
    obtain ⟨node, there, _⟩ := Arena.slotsWithin_succ_eq_ok_iff.1 slots
    exact ⟨fun past => spilled_of_past here there other slots past depth s,
      fun fits e => spilled_error_iff here there other slots fits depth free e⟩
  readLocal slot shape there depth s := exprWithin_field_localGet here there depth s
  readGlobal global shape there depth s := exprWithin_field_globalGet here there depth s
  part all slots fits depth s t code free lowered := by
    obtain ⟨node, there, _⟩ := Arena.slotsWithin_succ_eq_ok_iff.1 slots
    by_cases read : l.IsRead composite
    · rcases read with ⟨slot, shape, there⟩ | ⟨global, shape, there⟩
      · cases Arena.nodeSlots_of_slots there slots
        rw [← Shape.width_eq] at fits ⊢
        exact part_of_reads (fun _ _ _ _ => execSeq_localReads_iff) fits
          (fun base at_ => words slot shape base there at_) word
          (exprWithin_field_localGet here there (depth + 1) s)
          (fun base at_ => exprWithin_localGet there at_ depth s) lowered
      · cases Arena.nodeSlots_of_slots there slots
        rw [← Shape.width_eq] at fits ⊢
        exact part_of_reads (fun _ _ _ _ => execSeq_globalReads_iff) fits
          (fun base at_ => globalWords global shape base there at_) word
          (exprWithin_field_globalGet here there (depth + 1) s)
          (fun base at_ => exprWithin_globalGet there at_ depth s) lowered
    · exact part_of_spilled here there read slots fits free lowered

end

def pairLayout : Layout where
  arena := ⟨#[
    ⟨.localGet 0 (.tuple [.num .i32, .num .i64]), none⟩,
    ⟨.extract 0 1 1 1, none⟩,
    ⟨.group [0], none⟩,
    ⟨.extract 2 1 1 1, none⟩]⟩
  localBases := #[0]
  globalBases := #[]
  funcIndices := #[]
  scratchBase := 2

theorem field_lowers_of_pair : (∃ whole u, pairLayout.exprWithin 2 0 {} = .ok (whole, u) ∧
      LeavesPart 2 0 2 1 1 whole [.localGet 1]) ∧
    ∃ whole u, pairLayout.exprWithin 2 2 {} = .ok (whole, u) ∧
      LeavesPart 2 2 2 1 1 whole
        [.localGet 0, .localGet 1, .localSet 3, .localSet 2, .localGet 3] := by
  have free : LowerState.Free {} := fun i x here => by simp at here
  have small : 2 < indexBound := by decide
  have read : FieldLowers pairLayout 1 0 1 1 := by
    have here : pairLayout.arena.node 1 = .ok (.extract 0 1 1 1) := rfl
    refine field_lowers here ?_ ?_ small
    · intro slot shape base there at_
      cases there
      cases at_
      decide
    · intro global shape base there
      cases there
  have spilled : FieldLowers pairLayout 3 2 1 1 := by
    have here : pairLayout.arena.node 3 = .ok (.extract 2 1 1 1) := rfl
    refine field_lowers here ?_ ?_ small <;> intro _ _ _ there <;> cases there
  have lowered : pairLayout.exprWithin 3 3 {} =
      .ok ([.localGet 0, .localGet 1, .localSet 3, .localSet 2, .localGet 3],
        { scratch := #[⟨.i32, false⟩, ⟨.i64, false⟩] }) := by
    cbv
  exact ⟨read.part [.i32, .i64] rfl (by decide) 1 {} {} _ free rfl,
    spilled.part [.i32, .i64] rfl (by decide) 1 {} _ _ free lowered⟩

end Lower

namespace Session

/-- A function that reads the second field of what it takes for a pair: its first parameter, which is
one number. -/
def readingBeside : Build where
  arena := ⟨#[
    ⟨.localGet 0 (.num .i32), some (.tuple [.num .i32, .num .i32])⟩,
    ⟨.extract 0 1 1 1, some (.num .i32)⟩,
    ⟨.ret (some 1), some .none⟩]⟩
  functions := #[⟨"f", [.num .i32, .num .i32], .num .i32,
    .defined ⟨#[⟨"x", .num .i32, .param⟩, ⟨"y", .num .i32, .param⟩]⟩ [2]⟩]
  callables := #[⟨"f", 0, .direct, [("x", .num .i32), ("y", .num .i32)], .num .i32⟩]
  exports := [("f", 0)]

def besideDraft : Build.Draft where
  isIndirect := false
  id := "f"
  decl := { id := some "f", params := [("x", .num .i32), ("y", .num .i32)], result := .num .i32 }

def besideBody : Body :=
  { Build.newBody {} besideDraft.scope .local (.num .i32) with
    arena := readingBeside.arena
    statements := [2] }

theorem reached_readingBeside :
    ∃ handed, Reached (fun _ _ => True) ⟨readingBeside, none, handed⟩ := by
  have opened : Reached (fun _ _ => True)
      ⟨{}, some (.function besideDraft, Build.newBody {} besideDraft.scope .local (.num .i32)), []⟩ :=
    Reached.start.next
      (.openFunction rfl (Build.openFunction_of_free rfl (by simp [Build.isTaken, fresh])))
  have read := opened.take rfl
    (.raw (.localGet 0 (.num .i32)) (.tuple [.num .i32, .num .i32])) trivial rfl
  have field := read.take rfl (.field (.view 0 (.tuple [.num .i32, .num .i32])) (.index 1)) trivial rfl
  have given : ∃ handed, Reached (fun _ _ => True)
      ⟨{}, some (.function besideDraft, besideBody), handed⟩ :=
    ⟨_, field.take rfl (.giveResult [1]) trivial rfl⟩
  obtain ⟨handed, given⟩ := given
  have left : Build.left (Opening.close (.function besideDraft) besideBody) {} =
      { readingBeside with exports := [], pending := [0] } := by
    rw [Build.left, Opening.close]
    simp only [bind, EStateM.bind, Build.closeFunction_run]
    rfl
  exact ⟨_, (given.close rfl left).chore rfl (.exportAs "f" 0) rfl⟩

/-- A field past its variable is not refused: it is what stands beside the variable. -/
theorem field_past_variable_read : ∃ (s : Session) (m : Wasm.Module) (c : Build),
    Reached (fun _ _ => True) s ∧ s.body = none ∧
    s.build.arena.node 1 = .ok (.extract 0 1 1 1) ∧ s.build.arena.slots 0 = .ok [.i32] ∧
    Build.assemble {} s.build = .ok m c ∧
    ∃ (i : Wasm.Instance) (journal : List HostCall), Wasm.instantiate m {} {} [] = .ok i journal ∧
      (i.answers {} [("f", [.i32 3, .i32 7])]).1 = [.ok [.i32 7]] := by
  obtain ⟨handed, reached⟩ := reached_readingBeside
  let m : Wasm.Module := {
    types := [⟨[.num .i32, .num .i32], [.num .i32]⟩]
    funcs := [⟨0, [], [.localGet 1, .ret]⟩]
    exports := [⟨"f", .func, 0⟩] }
  have done : Build.assemble {} readingBeside = .ok m readingBeside :=
    Build.assemble_of_lower rfl (by cbv) (by cbv) fun _ => by decide +kernel
  obtain ⟨i, journal, made, answers⟩ := exists_of_answersMade
    (show answersMade [("f", [.i32 3, .i32 7])] (Wasm.instantiate m {} {} []) = some [.ok [.i32 7]] by
      decide +kernel)
  exact ⟨_, m, _, reached, rfl, rfl, rfl, done, i, journal, made, answers⟩

end Session

end WasmBuilder
