import WasmBuilder.Expr.Arena

/-!
What expressions leave on the stack, as the depth of the look at them grows.

A look that is deep enough to succeed is never contradicted by a deeper one, so the slots of an
expression do not depend on the depth at which they are found.
-/

set_option autoImplicit false

namespace WasmBuilder.Arena

def Refined (ids : List ExprId) (f g : ExprId → Except BuildError (List NumType)) : Prop :=
  ∀ id ∈ ids, ∀ ts : List NumType, f id = .ok ts → g id = .ok ts

section
variable {f g : ExprId → Except BuildError (List NumType)}

theorem Refined.subset {ids fewer : List ExprId} (refined : Refined ids f g)
    (sub : ∀ id ∈ fewer, id ∈ ids) : Refined fewer f g :=
  fun id mem ts found => refined id (sub id mem) ts found

theorem shapeSlots_refined {items : List ExprId} (refined : Refined items f g) {shape : Shape}
    {ts : List NumType} (found : shapeSlots items.getLast? f shape = .ok ts) :
    shapeSlots items.getLast? g shape = .ok ts := by
  cases shape with
  | auto =>
    cases last : items.getLast? with
    | none =>
      rw [last] at found
      exact found
    | some id =>
      rw [last] at found
      exact refined id (List.mem_of_getLast? last) ts found
  | none | num | tuple | record => exact found

/-- The slots of several expressions succeed exactly when those of the first and of the rest do. -/
theorem concatSlots_cons_eq_ok_iff {id : ExprId} {rest : List ExprId} {ts : List NumType} :
    concatSlots f (id :: rest) = .ok ts ↔
      ∃ first others, f id = .ok first ∧ concatSlots f rest = .ok others ∧ ts = first ++ others := by
  cases first : f id with
  | error e => simp [concatSlots, first, bind, Except.bind]
  | ok us =>
    cases others : concatSlots f rest with
    | error e => simp [concatSlots, first, others, bind, Except.bind]
    | ok vs => simp [concatSlots, first, others, bind, Except.bind, pure, Except.pure, eq_comm]

theorem concatSlots_refined {ids : List ExprId} (refined : Refined ids f g)
    {ts : List NumType} (found : concatSlots f ids = .ok ts) : concatSlots g ids = .ok ts := by
  induction ids generalizing ts with
  | nil => exact found
  | cons id rest ih =>
    obtain ⟨first, others, head, tail, rfl⟩ := concatSlots_cons_eq_ok_iff.1 found
    have below : Refined rest f g := refined.subset fun _ mem => List.mem_cons_of_mem id mem
    exact concatSlots_cons_eq_ok_iff.2
      ⟨first, others, refined id List.mem_cons_self first head, ih below tail, rfl⟩

/-- The slots of a field are found exactly when the composite is and has them. -/
theorem nodeSlots_extract_eq_ok_iff {id composite : ExprId} {index offset width : Nat}
    {ts : List NumType} :
    nodeSlots f id (.extract composite index offset width) = .ok ts ↔
      ∃ all, f composite = .ok all ∧ offset + width ≤ all.length ∧
        ts = (all.drop offset).take width := by
  simp only [nodeSlots]
  cases found : f composite with
  | error e => simp [bind, Except.bind]
  | ok all =>
    simp only [bind, Except.bind, pure, Except.pure]
    split
    next fits => simp [fits, eq_comm]
    next short => simp [short, throw, throwThe, MonadExceptOf.throw]

/-- What a node leaves is decided by what its operands leave. -/
theorem nodeSlots_refined {node : Node} (refined : Refined node.children f g) {id : ExprId}
    {ts : List NumType} (found : nodeSlots f id node = .ok ts) :
    nodeSlots g id node = .ok ts := by
  cases node with
  | block items shape => exact shapeSlots_refined refined found
  | choose cond thenItems elseItems shape =>
    refine shapeSlots_refined (refined.subset fun child mem => ?_) found
    exact List.mem_append_left elseItems (List.mem_cons_of_mem cond mem)
  | group items => exact concatSlots_refined refined found
  | extract composite index offset width =>
    obtain ⟨all, whole, fits, rfl⟩ := nodeSlots_extract_eq_ok_iff.1 found
    exact nodeSlots_extract_eq_ok_iff.2
      ⟨all, refined composite List.mem_cons_self all whole, fits, rfl⟩
  | const | localGet | localSet | globalGet | globalSet | binary | unary | call | callIndirect
  | loop | ret | load | store | memorySize | memoryGrow | nop => exact found

end

variable {a : Arena} {id : ExprId} {node : Node} {ts : List NumType}

/-- The node behind a handle is the one of its entry. -/
theorem node_eq_ok_iff : a.node id = .ok node ↔ ∃ label, a.entries[id]? = some ⟨node, label⟩ := by
  simp only [Arena.node, Functor.map, Except.map]
  cases found : a.get id with
  | error e =>
    obtain ⟨outside, _⟩ := get_eq_error_iff.1 found
    have missing : a.entries[id]? = none := Array.getElem?_eq_none outside
    simp [missing]
  | ok entry =>
    rw [get_eq_ok_iff] at found
    cases entry with
    | mk other label => simp [found]

theorem node_eq_of_entry {c : Arena} (same : c.entries[id]? = a.entries[id]?) :
    c.node id = a.node id := by
  simp only [Arena.node, Arena.get, same]

theorem node_of_changed {c : Arena} {f : Node → Node} (changed : c.entries[id]? =
    (a.entries[id]?).map fun entry => { entry with node := f entry.node })
    (here : a.node id = .ok node) : c.node id = .ok (f node) := by
  obtain ⟨label, entry⟩ := node_eq_ok_iff.1 here
  exact node_eq_ok_iff.2 ⟨label, by rw [changed, entry]; rfl⟩

theorem size_eq_of_entries {c : Arena}
    (same : ∀ id : ExprId, c.entries[id]? = none ↔ a.entries[id]? = none) : c.size = a.size := by
  have le (n : Nat) : c.size ≤ n ↔ a.size ≤ n := by
    simpa only [Array.getElem?_eq_none_iff, Arena.size] using same n
  exact Nat.le_antisymm ((le a.size).2 (Nat.le_refl _)) ((le c.size).1 (Nat.le_refl _))

/-- The nodes of an arena in which one entry is another. -/
theorem node_setIfInBounds {entry : Entry} (here : a.entries[id]? = some entry) (new : Entry)
    (other : ExprId) :
    (⟨a.entries.setIfInBounds id new⟩ : Arena).node other =
      if other = id then .ok new.node else a.node other := by
  have inside := (Array.getElem?_eq_some_iff.1 here).1
  by_cases is : other = id
  · subst is
    rw [if_pos rfl, node_eq_ok_iff]
    exact ⟨new.label, by simp [inside]⟩
  · rw [if_neg is]
    exact node_eq_of_entry (Array.getElem?_setIfInBounds_ne (Ne.symm is))

theorem replace_eq_ok {entry : Entry} (here : a.entries[id]? = some entry) (other : Node) :
    a.replace id other = .ok ⟨a.entries.setIfInBounds id { entry with node := other }⟩ := by
  simp only [replace, get_eq_ok_iff.2 here, bind, Except.bind, pure, Except.pure]

theorem node_replace {c : Arena} {other : Node} (here : a.node id = .ok node)
    (done : a.replace id other = .ok c) (at_id : ExprId) :
    c.node at_id = if at_id = id then .ok other else a.node at_id := by
  obtain ⟨label, entry⟩ := node_eq_ok_iff.1 here
  cases done.symm.trans (replace_eq_ok entry other)
  exact node_setIfInBounds entry _ at_id

theorem slotsWithin_succ_eq_ok_iff {depth : Nat} :
    a.slotsWithin (depth + 1) id = .ok ts ↔
      ∃ node, a.node id = .ok node ∧ nodeSlots (a.slotsWithin depth) id node = .ok ts := by
  simp only [slotsWithin, bind, Except.bind]
  cases found : a.node id with
  | error e => simp
  | ok node => simp

theorem slotsWithin_mono {shallow deep : Nat} (le : shallow ≤ deep)
    (found : a.slotsWithin shallow id = .ok ts) : a.slotsWithin deep id = .ok ts := by
  induction shallow generalizing deep id ts with
  | zero => simp [slotsWithin] at found
  | succ shallow ih =>
    obtain ⟨deeper, rfl⟩ : ∃ n, deep = n + 1 := ⟨deep - 1, by omega⟩
    obtain ⟨node, here, slots⟩ := slotsWithin_succ_eq_ok_iff.1 found
    have below : Refined node.children (a.slotsWithin shallow) (a.slotsWithin deeper) :=
      fun child _ us sub => ih (by omega) sub
    exact slotsWithin_succ_eq_ok_iff.2 ⟨node, here, nodeSlots_refined below slots⟩

theorem slotsWithin_agree {m n : Nat} {us : List NumType} (one : a.slotsWithin m id = .ok ts)
    (other : a.slotsWithin n id = .ok us) : ts = us := by
  have first := slotsWithin_mono (Nat.le_max_left m n) one
  have second := slotsWithin_mono (Nat.le_max_right m n) other
  exact Except.ok.inj (first.symm.trans second)

theorem nodeSlots_of_slots (here : a.node id = .ok node) (found : a.slots id = .ok ts) :
    nodeSlots a.slots id node = .ok ts := by
  obtain ⟨other, there, slots⟩ := slotsWithin_succ_eq_ok_iff.1 found
  cases here.symm.trans there
  exact nodeSlots_refined (fun child _ us sub => slotsWithin_mono (Nat.le_succ a.size) sub) slots

end WasmBuilder.Arena
