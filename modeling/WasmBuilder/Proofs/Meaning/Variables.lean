import Mathlib.Data.List.Nodup
import WasmBuilder.Proofs.Meaning.Runs

/-!
Reading and writing variables, one number at a time.

A variable is a run of machine locals or globals. Reading it pushes the numbers in order, and writing
takes them off the stack, the last one first.
-/

set_option autoImplicit false

namespace WasmBuilder.Meaning

open Lower (Layout Tables Lies)
open Wasm (Datum Env Instr Machine Outcome)

theorem execSeq_gets {e : Env} {f : Nat → Instr} {is : List Nat} {values : List Value} {m : Machine}
    (reads : List.Forall₂ (fun i x => ∀ stack : List Datum,
      (f i).exec e { m with stack } = .next { m with stack := .num x :: stack }) is values) :
    ∀ stack : List Datum, Instr.execSeq (is.map f) e { m with stack } =
      .next { m with stack := (values.map .num).reverse ++ stack } := by
  induction reads with
  | nil => exact fun stack => rfl
  | @cons i x is values first _ ih =>
    intro stack
    simp only [List.map_cons, Instr.execSeq, first stack, ih]
    simp

def writeAll (a : Array Datum) : List Nat → List Value → Array Datum
  | i :: is, x :: values => (writeAll a is values).setIfInBounds i (.num x)
  | _, _ => a

@[simp] theorem size_writeAll (a : Array Datum) (is : List Nat) (values : List Value) :
    (writeAll a is values).size = a.size := by
  induction is generalizing values with
  | nil => rfl
  | cons i is ih =>
    cases values with
    | nil => rfl
    | cons x values => simp [writeAll, ih]

/-- Instructions that take one number each take several, the last one first. The array that they
write is part of a machine. -/
theorem execSeq_sets {e : Env} {f : Nat → Instr} {g : Array Datum → List Datum → Machine}
    (writes : ∀ (a : Array Datum) (i : Nat) (x : Value) (stack : List Datum), i < a.size →
      (f i).exec e (g a (.num x :: stack)) = .next (g (a.setIfInBounds i (.num x)) stack))
    {a : Array Datum} {is : List Nat} {values : List Value} (length : is.length = values.length)
    (inside : ∀ i ∈ is, i < a.size) (below : List Datum) :
    Instr.execSeq (is.reverse.map f) e (g a ((values.map .num).reverse ++ below)) =
      .next (g (writeAll a is values) below) := by
  induction is generalizing values below with
  | nil =>
    cases values with
    | nil => rfl
    | cons => simp at length
  | cons i is ih =>
    cases values with
    | nil => simp at length
    | cons x values =>
      have others := ih (Nat.succ.inj length) (fun j mem => inside j (List.mem_cons_of_mem i mem))
        (.num x :: below)
      have fits : i < (writeAll a is values).size := by
        rw [size_writeAll]
        exact inside i List.mem_cons_self
      rw [List.reverse_cons, List.map_append, Instr.execSeq_append]
      have order : ((x :: values).map Datum.num).reverse ++ below =
          (values.map Datum.num).reverse ++ Datum.num x :: below := by simp
      rw [order, others]
      simp only [List.map_cons, List.map_nil, Instr.execSeq_singleton]
      exact writes _ i x below fits

theorem toList_writeAll {a : Array Datum} {values : List Value} {before old behind : List Datum}
    (whole : a.toList = before ++ old ++ behind) (length : old.length = values.length) :
    (writeAll a ((List.range values.length).map (before.length + ·)) values).toList =
      before ++ values.map .num ++ behind := by
  induction values generalizing before old with
  | nil =>
    cases old with
    | nil => simpa [writeAll] using whole
    | cons => simp at length
  | cons x values ih =>
    cases old with
    | nil => simp at length
    | cons d old =>
      have shifted : a.toList = (before ++ [d]) ++ old ++ behind := by simpa using whole
      have rest := ih shifted (Nat.succ.inj length)
      have indices : (List.range (x :: values).length).map (before.length + ·) =
          before.length :: (List.range values.length).map ((before ++ [d]).length + ·) := by
        rw [List.length_cons, List.range_succ_eq_map, List.map_cons, List.map_map]
        refine congrArg (before.length :: ·) (List.map_congr_left fun i _ => ?_)
        simp only [Function.comp_apply, List.length_append, List.length_singleton]
        omega
      rw [indices, writeAll, Array.toList_setIfInBounds, rest]
      simp

theorem take_writeAll {a : Array Datum} {is : List Nat} (values : List Value) {n : Nat}
    (behind : ∀ i ∈ is, n ≤ i) : (writeAll a is values).toList.take n = a.toList.take n := by
  induction is generalizing values with
  | nil => rfl
  | cons i is ih =>
    cases values with
    | nil => rfl
    | cons x values =>
      rw [writeAll, Array.toList_setIfInBounds, List.take_set_of_le (behind i List.mem_cons_self)]
      exact ih values fun j mem => behind j (List.mem_cons_of_mem i mem)

theorem getElem?_writeAll {a : Array Datum} {is : List Nat} {values : List Value}
    (length : is.length = values.length) (nodup : is.Nodup) (inside : ∀ i ∈ is, i < a.size) :
    List.Forall₂ (fun i x => (writeAll a is values)[i]? = some (.num x)) is values := by
  induction is generalizing values with
  | nil =>
    cases values with
    | nil => exact .nil
    | cons => simp at length
  | cons i is ih =>
    cases values with
    | nil => simp at length
    | cons x values =>
      obtain ⟨new, nodup⟩ := List.nodup_cons.1 nodup
      have others := ih (Nat.succ.inj length) nodup fun j mem => inside j (List.mem_cons_of_mem i mem)
      refine .cons ?_ ?_
      · have fits := inside i List.mem_cons_self
        simp [writeAll, fits]
      · have apart : List.Forall₂ (fun j y => j ∈ is ∧
            (writeAll a is values)[j]? = some (Datum.num y)) is values :=
          (List.forall₂_and_left is values).2 ⟨fun j mem => mem, others⟩
        refine apart.imp fun j y ⟨mem, here⟩ => ?_
        have ne : i ≠ j := fun same => new (same ▸ mem)
        simp [writeAll, ne, here]

/-- Storing a run in scratch locals and loading a part of it leaves the part. -/
theorem execSeq_spill {e : Env} {types all : List NumType} {spilled : List Nat}
    (locals : Lower.Ranked types (fun _ => 0) all spilled) {scratchBase : Nat} {values : List Value}
    (length : values.length = all.length) {m : Machine} {below : List Datum}
    (stack : m.stack = (values.map .num).reverse ++ below)
    (room : scratchBase + types.length ≤ m.locals.size) (offset width : Nat) :
    Instr.execSeq ((spilled.map (scratchBase + ·)).reverse.map .localSet ++
        (((spilled.map (scratchBase + ·)).drop offset).take width).map .localGet) e m =
      .next ⟨m.store, writeAll m.locals (spilled.map (scratchBase + ·)) values,
        (((values.drop offset).take width).map .num).reverse ++ below⟩ := by
  have inside : ∀ i ∈ spilled.map (scratchBase + ·), i < m.locals.size := by
    intro i mem
    obtain ⟨j, among, rfl⟩ := List.mem_map.1 mem
    obtain ⟨t, rank, _, nth⟩ := locals.rank_of_mem among
    have := nth.lt_length
    omega
  have nodup : (spilled.map (scratchBase + ·)).Nodup :=
    List.Nodup.map (fun i j same => Nat.add_left_cancel same) locals.nodup
  have lengths : (spilled.map (scratchBase + ·)).length = values.length := by
    rw [List.length_map, locals.length_eq, length]
  have stores := execSeq_sets (e := e) (f := Instr.localSet)
    (g := fun locals stack => ({ m with locals, stack } : Machine))
    (fun a i x rest lt => by simp [Instr.exec, Machine.localSet, lt]) lengths inside below
  -- the part is read back from where it was just written
  have written := getElem?_writeAll lengths nodup inside
  have part := List.forall₂_take width (List.forall₂_drop offset written)
  have loads := execSeq_gets (e := e) (f := Instr.localGet)
    (m := { m with locals := writeAll m.locals (spilled.map (scratchBase + ·)) values })
    (part.imp fun i x here stack => by simp [Instr.exec, Machine.localGet, here, Machine.push]) below
  have same : m = { m with locals := m.locals, stack := (values.map .num).reverse ++ below } := by
    rw [← stack]
  rw [same, Instr.execSeq_append, stores]
  exact loads

namespace Fit

variable {shapes : List Shape} {values : List (List Value)} {index base : Nat} {shape : Shape}

/-- The numbers of a variable among those of all, before and after it changes. -/
theorem placedFrom (fit : Fit shapes values) {next : Nat}
    (found : (Lower.basesFrom next shapes)[index]? = some base) (here : shapes[index]? = some shape) :
    ∃ value before behind, values[index]? = some value ∧ value.length = shape.width ∧
      next + before.length = base ∧ values.flatten = before ++ value ++ behind ∧
      ∀ new, (values.set index new).flatten = before ++ new ++ behind := by
  induction fit generalizing next index with
  | nil => simp at here
  | @cons s value shapes values length _ ih =>
    cases index with
    | zero =>
      cases found
      cases here
      exact ⟨value, [], values.flatten, rfl, length, rfl, rfl, fun new => rfl⟩
    | succ index =>
      obtain ⟨other, before, behind, there, length', place, whole, changed⟩ := ih found here
      refine ⟨other, value ++ before, behind, there, length', ?_, ?_, fun new => ?_⟩
      · rw [List.length_append, length]
        omega
      · simp only [List.flatten_cons, whole, List.append_assoc]
      · simp only [List.set_cons_succ, List.flatten_cons, changed, List.append_assoc]

theorem set (fit : Fit shapes values) (here : shapes[index]? = some shape) {new : List Value}
    (length : new.length = shape.width) : Fit shapes (values.set index new) := by
  induction fit generalizing index with
  | nil => exact .nil
  | @cons s value shapes values first rest ih =>
    cases index with
    | zero =>
      cases here
      exact .cons length rest
    | succ index => exact .cons first (ih here)

theorem length_flatten (fit : Fit shapes values) :
    values.flatten.length = (shapes.flatMap Shape.flatten).length := by
  induction fit with
  | nil => rfl
  | @cons s value shapes values first _ ih =>
    rw [List.flatten_cons, List.flatMap_cons, List.length_append, List.length_append, ih, first,
      Shape.width_eq]

/-- A variable that holds what it should is placed. -/
theorem placed (fit : Fit shapes values) (found : (Lower.bases shapes)[index]? = some base)
    (holds : Setting.Holds shapes index shape) :
    ∃ value before behind, values[index]? = some value ∧ value.length = shape.width ∧
      before.length = base ∧ values.flatten = before ++ value ++ behind ∧
      ∀ new : List Value, new.length = shape.width → Fit shapes (values.set index new) ∧
        (values.set index new).flatten = before ++ new ++ behind := by
  obtain ⟨s, here, same⟩ := holds
  have width : s.width = shape.width := by rw [Shape.width_eq, same, Shape.width_eq]
  obtain ⟨value, before, behind, there, length, place, whole, changed⟩ := fit.placedFrom found here
  refine ⟨value, before, behind, there, length.trans width, ?_, whole, fun new length => ?_⟩
  · rw [← place, Nat.zero_add]
  · exact ⟨fit.set here (length.trans width.symm), changed new⟩

end Fit

section
variable {v : Setting} {l : Layout} {K : Tables} {Γ : Surroundings} {e : Env}
  (runnable : Runnable v l K Γ e) {index base : Nat} {shape : Shape}

/-- The numbers in a part of the variables are where they should be. -/
theorem Related.reads {s : State} {m : Machine} (related : Related v l K Γ s m) {part : List Value}
    (lies : Lies s.slots.flatten base part) (stack : List Datum) :
    Instr.execSeq (((List.range part.length).map (base + ·)).map .localGet) e { m with stack } =
      .next { m with stack := (part.map .num).reverse ++ stack } := by
  refine execSeq_gets (lies.forall₂.imp fun i x here stack => ?_) stack
  obtain ⟨scratch, _, locals⟩ := related.locals
  have inside := (List.getElem?_eq_some_iff.1 here).1
  have there : m.locals[i]? = some (.num x) := by
    rw [← Array.getElem?_toList, locals,
      List.getElem?_append_left (by rw [List.length_map]; exact inside), List.getElem?_map, here,
      Option.map_some]
  simp [Instr.exec, Machine.localGet, there, Machine.push]

theorem Related.readsGlobals {s : State} {m : Machine} (related : Related v l K Γ s m)
    {part : List Value} (lies : Lies s.world.globals.flatten base part) (stack : List Datum) :
    Instr.execSeq (((List.range part.length).map (base + ·)).map .globalGet) e { m with stack } =
      .next { m with stack := (part.map .num).reverse ++ stack } := by
  refine execSeq_gets (lies.forall₂.imp fun i x here stack => ?_) stack
  have there : m.store.globals[i]? = some (.num x) := by
    rw [related.store, World.store, List.getElem?_toArray, List.getElem?_map, here, Option.map_some]
  simp [Instr.exec, Machine.globalGet, there, Machine.push]

include runnable

theorem runs_localGets (at_ : l.localBase index = .ok base)
    (holds : Setting.Holds v.locals index shape) :
    Runs v l K Γ e [] (((List.range shape.width).map (base + ·)).map .localGet) (readSlot index)
      shape.width := by
  intro s m below related stack
  obtain ⟨value, before, behind, here, length, rfl, whole, _⟩ :=
    related.slots.placed (runnable.laid.local_found at_) holds
  have lies : Lies s.slots.flatten before.length value := ⟨before, behind, whole, rfl⟩
  have reads := related.reads (e := e) lies m.stack
  rw [length] at reads
  rw [reads, readSlot, here]
  exact ⟨length, { related with }, by rw [stack]; rfl⟩

theorem runs_globalGets (at_ : l.globalBase index = .ok base)
    (holds : Setting.Holds v.globals index shape) :
    Runs v l K Γ e [] (((List.range shape.width).map (base + ·)).map .globalGet) (readGlobal index)
      shape.width := by
  intro s m below related stack
  obtain ⟨value, before, behind, here, length, rfl, whole, _⟩ :=
    related.fits.globals.placed (runnable.laid.global_found at_) holds
  have lies : Lies s.world.globals.flatten before.length value := ⟨before, behind, whole, rfl⟩
  have reads := related.readsGlobals (e := e) lies m.stack
  rw [length] at reads
  rw [reads, readGlobal, here]
  exact ⟨length, { related with }, by rw [stack]; rfl⟩

/-- Reading some numbers of a variable is reading it and taking the part. -/
theorem runs_localSlice {offset width : Nat} (at_ : l.localBase index = .ok base)
    (holds : Setting.Holds v.locals index shape) (fits : offset + width ≤ shape.width) :
    Runs v l K Γ e [] ((Layout.slice base offset width).map .localGet)
      (readSlot index >>= fun value => pure ((value.drop offset).take width)) width := by
  intro s m below related stack
  obtain ⟨value, before, behind, here, length, rfl, whole, _⟩ :=
    related.slots.placed (runnable.laid.local_found at_) holds
  have lies : Lies s.slots.flatten before.length value := ⟨before, behind, whole, rfl⟩
  have inside : offset + width ≤ value.length := length ▸ fits
  have words : s.slots.flatten.length < Lower.indexBound :=
    related.slots.length_flatten ▸ runnable.laid.localWords
  rw [lies.slice_eq inside words, related.reads (e := e) (lies.slice inside) m.stack, bind_apply,
    readSlot, here]
  refine ⟨?_, { related with }, by rw [stack]; rfl⟩
  rw [List.length_take, List.length_drop]
  omega

theorem runs_globalSlice {offset width : Nat} (at_ : l.globalBase index = .ok base)
    (holds : Setting.Holds v.globals index shape) (fits : offset + width ≤ shape.width) :
    Runs v l K Γ e [] ((Layout.slice base offset width).map .globalGet)
      (readGlobal index >>= fun value => pure ((value.drop offset).take width)) width := by
  intro s m below related stack
  obtain ⟨value, before, behind, here, length, rfl, whole, _⟩ :=
    related.fits.globals.placed (runnable.laid.global_found at_) holds
  have lies : Lies s.world.globals.flatten before.length value := ⟨before, behind, whole, rfl⟩
  have inside : offset + width ≤ value.length := length ▸ fits
  have words : s.world.globals.flatten.length < Lower.indexBound :=
    related.fits.globals.length_flatten ▸ runnable.laid.globalWords
  rw [lies.slice_eq inside words, related.readsGlobals (e := e) (lies.slice inside) m.stack,
    bind_apply, readGlobal, here]
  refine ⟨?_, { related with }, by rw [stack]; rfl⟩
  rw [List.length_take, List.length_drop]
  omega

/-- Writing a variable takes its value off the stack and changes nothing else. -/
theorem runs_localSets {value : List Value} (at_ : l.localBase index = .ok base)
    (holds : Setting.Holds v.locals index shape) (length : value.length = shape.width) :
    Runs v l K Γ e value (((List.range shape.width).map (base + ·)).reverse.map .localSet)
      (writeSlot index value >>= fun _ => pure []) 0 := by
  intro s m below related stack
  obtain ⟨old, before, behind, here, length', rfl, whole, changed⟩ :=
    related.slots.placed (runnable.laid.local_found at_) holds
  obtain ⟨scratch, count, locals⟩ := related.locals
  obtain ⟨fit, whole'⟩ := changed value length
  have parts : m.locals.toList =
      before.map .num ++ old.map .num ++ (behind.map .num ++ scratch) := by
    rw [locals, whole]
    simp only [List.map_append, List.append_assoc]
  have inside : ∀ i ∈ (List.range shape.width).map (before.length + ·), i < m.locals.size := by
    intro i mem
    obtain ⟨j, lt, rfl⟩ := List.mem_map.1 mem
    have size := congrArg List.length parts
    simp only [List.length_append, List.length_map, Array.length_toList, length'] at size
    have := List.mem_range.1 lt
    omega
  have count' : ((List.range shape.width).map (before.length + ·)).length = value.length := by
    simp [length]
  have run := execSeq_sets (e := e) (f := Instr.localSet)
    (g := fun locals stack => ({ m with locals, stack } : Machine))
    (fun a i x rest lt => by simp [Instr.exec, Machine.localSet, lt]) count' inside below
  have same : m = { m with locals := m.locals, stack := (value.map .num).reverse ++ below } := by
    rw [← stack]
  rw [same, run, bind_apply]
  refine ⟨rfl, ⟨related.store, related.fits, fit, scratch, count, ?_⟩, rfl⟩
  have lengths : (old.map Datum.num).length = value.length := by simp [length, length']
  have written := toList_writeAll parts lengths
  rw [List.length_map, length] at written
  rw [written, whole']
  simp only [List.map_append, List.append_assoc]

theorem runs_globalSets {value : List Value} (at_ : l.globalBase index = .ok base)
    (holds : Setting.Holds v.globals index shape) (length : value.length = shape.width) :
    Runs v l K Γ e value (((List.range shape.width).map (base + ·)).reverse.map .globalSet)
      (writeGlobal index value >>= fun _ => pure []) 0 := by
  intro s m below related stack
  obtain ⟨old, before, behind, here, length', rfl, whole, changed⟩ :=
    related.fits.globals.placed (runnable.laid.global_found at_) holds
  obtain ⟨fit, whole'⟩ := changed value length
  have parts : m.store.globals.toList = before.map .num ++ old.map .num ++ behind.map .num := by
    rw [related.store, World.store, whole]
    simp only [List.map_append]
  have inside : ∀ i ∈ (List.range shape.width).map (before.length + ·), i < m.store.globals.size := by
    intro i mem
    obtain ⟨j, lt, rfl⟩ := List.mem_map.1 mem
    have size := congrArg List.length parts
    simp only [List.length_append, List.length_map, Array.length_toList, length'] at size
    have := List.mem_range.1 lt
    omega
  have count : ((List.range shape.width).map (before.length + ·)).length = value.length := by
    simp [length]
  have run := execSeq_sets (e := e) (f := Instr.globalSet)
    (g := fun globals stack => ({ m with store := { m.store with globals }, stack } : Machine))
    (fun a i x rest lt => by simp [Instr.exec, Machine.globalSet, lt]) count inside below
  have same : m = { m with
      store := { m.store with globals := m.store.globals }
      stack := (value.map .num).reverse ++ below } := by
    rw [← stack]
  rw [same, run, bind_apply]
  have lengths : (old.map Datum.num).length = value.length := by simp [length, length']
  -- the run of the variable is replaced, and nothing beside it
  have written := toList_writeAll parts lengths
  rw [List.length_map, length] at written
  refine ⟨rfl, ⟨?_, ⟨fit, related.fits.table⟩, related.slots, related.locals⟩, rfl⟩
  have flat : writeAll m.store.globals ((List.range shape.width).map (before.length + ·)) value =
      ((s.world.globals.set index value).flatten.map Datum.num).toArray := by
    rw [whole', ← Array.toList_inj, written]
    simp only [List.map_append]
  rw [flat, related.store]
  rfl

/-- A run that is spilled comes back in part. Scratch locals change, and no variable does. -/
theorem runs_spill {value : List Value} {all : List NumType} {spilled : List Nat}
    (locals : Lower.Ranked K.scratch (fun _ => 0) all spilled) (length : value.length = all.length)
    {offset width : Nat} (fits : offset + width ≤ all.length) :
    Runs v l K Γ e value ((spilled.map (l.scratchBase + ·)).reverse.map .localSet ++
      (((spilled.map (l.scratchBase + ·)).drop offset).take width).map .localGet)
      (pure ((value.drop offset).take width)) width := by
  intro s m below related stack
  obtain ⟨scratch, count, whole⟩ := related.locals
  have scratchBase : (s.slots.flatten.map Datum.num).length = l.scratchBase := by
    rw [List.length_map, related.slots.length_flatten, runnable.laid.scratchBase]
  have size : m.locals.size = l.scratchBase + K.scratch.length := by
    rw [← Array.length_toList, whole, List.length_append, scratchBase, count]
  -- scratch locals lie behind the variables, whose values stay
  have behind : ∀ i ∈ spilled.map (l.scratchBase + ·), l.scratchBase ≤ i := by
    intro i mem
    obtain ⟨j, _, rfl⟩ := List.mem_map.1 mem
    exact Nat.le_add_right _ _
  rw [execSeq_spill locals length stack (Nat.le_of_eq size.symm) offset width]
  refine ⟨?_, ⟨related.store, related.fits, related.slots,
    (writeAll m.locals (spilled.map (l.scratchBase + ·)) value).toList.drop l.scratchBase, ?_, ?_⟩,
    rfl⟩
  · rw [List.length_take, List.length_drop]
    omega
  · rw [List.length_drop, Array.length_toList, size_writeAll, size, Nat.add_sub_cancel_left]
  · have front := take_writeAll (a := m.locals) value behind
    rw [whole, ← scratchBase, List.take_left] at front
    rw [scratchBase] at front
    conv_lhs => rw [← List.take_append_drop l.scratchBase
      (writeAll m.locals (spilled.map (l.scratchBase + ·)) value).toList]
    rw [front]

end

end WasmBuilder.Meaning
