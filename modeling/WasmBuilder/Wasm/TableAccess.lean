import WasmBuilder.Wasm.Machine

/-!
Steps of the machine on tables. An access that does not lie inside as a whole traps before anything
is changed.
-/

set_option autoImplicit false

namespace WasmBuilder.Wasm.Machine

def tableGet (table : Nat) (m : Machine) : Outcome :=
  match m.stack with
  | d :: rest =>
    match d.unsigned?, m.store.tables[table]? with
    | some slot, some t =>
      match t.get? slot with
      | some r => .next { m with stack := r :: rest }
      | none => m.trap .outOfBounds
    | _, _ => m.stuck
  | _ => m.stuck

/-- Puts references into slots of a table and leaves a stack, or traps if the slots do not all lie
inside. -/
def putSlots (table slot : Nat) (refs : List Datum) (stack : List Datum) (m : Machine) : Outcome :=
  if m.store.holdsSlots table slot refs.length then
    .next { m with store := m.store.modifyTable table (·.poke slot refs), stack }
  else m.trap .outOfBounds

def tableSet (table : Nat) (m : Machine) : Outcome :=
  match m.stack with
  | r :: d :: rest =>
    match d.unsigned? with
    | some slot => m.putSlots table slot [r] rest
    | none => m.stuck
  | _ => m.stuck

def tableSize (table : Nat) (m : Machine) : Outcome :=
  match m.store.tables[table]? with
  | some t => .next (m.push (t.type.address.datum t.size))
  | none => m.stuck

/-- Leaves the size before growing, or minus one when the table cannot grow by so much. -/
def tableGrow (table : Nat) (m : Machine) : Outcome :=
  match m.stack with
  | d :: r :: rest =>
    match d.unsigned?, m.store.tables[table]? with
    | some delta, some t =>
      if t.size + delta ≤ t.sizeLimit then
        .next { m with
          store := m.store.modifyTable table (·.grow delta r)
          stack := t.type.address.datum t.size :: rest }
      else .next { m with stack := t.type.address.datum (-1) :: rest }
    | _, _ => m.stuck
  | _ => m.stuck

def tableFill (table : Nat) (m : Machine) : Outcome :=
  match m.stack with
  | n :: r :: d :: rest =>
    match n.unsigned?, d.unsigned? with
    | some count, some slot =>
      if m.store.holdsSlots table slot count then
        .next { m with store := m.store.modifyTable table (·.fill slot r count), stack := rest }
      else m.trap .outOfBounds
    | _, _ => m.stuck
  | _ => m.stuck

/-- Copies a range, as if it were read as a whole before it is written. -/
def tableCopy (target source : Nat) (m : Machine) : Outcome :=
  match m.stack with
  | n :: s :: d :: rest =>
    match n.unsigned?, s.unsigned?, d.unsigned?, m.store.tables[source]? with
    | some count, some start, some slot, some t =>
      match t.read start count with
      | some refs => m.putSlots target slot refs rest
      | none => m.trap .outOfBounds
    | _, _, _, _ => m.stuck
  | _ => m.stuck

def tableInit (element table : Nat) (m : Machine) : Outcome :=
  match m.stack with
  | .i32 count :: .i32 start :: d :: rest =>
    match d.unsigned?, m.store.elements[element]? with
    | some slot, some refs =>
      if start.toNat + count.toNat ≤ refs.length then
        m.putSlots table slot ((refs.drop start.toNat).take count.toNat) rest
      else m.trap .outOfBounds
    | _, _ => m.stuck
  | _ => m.stuck

def elemDrop (element : Nat) (m : Machine) : Outcome :=
  .next { m with
    store := { m.store with elements := m.store.elements.setIfInBounds element [] } }

end WasmBuilder.Wasm.Machine
