import WasmBuilder.Error

/-!
The table of functions that are called through their slot.
-/

set_option autoImplicit false

namespace WasmBuilder

structure IndirectInfo where
  index : Nat
  id : String
  params : Bindings
  result : Shape
  deriving DecidableEq

/-- Functions in the order of their slots. Slots are never reused or reordered. -/
structure IndirectTable where
  entries : Array (Nat × IndirectInfo) := #[]

namespace IndirectTable

def size (t : IndirectTable) : Nat := t.entries.size

/-- Appends a function that is not in the table yet; its slot is the size before. -/
def append (t : IndirectTable) (func : Nat) (id : String) (params : Bindings) (result : Shape) :
    Except BuildError IndirectTable :=
  if t.entries.any (·.1 = func) then .error (.duplicateTableEntry id)
  else .ok ⟨t.entries.push (func, ⟨t.size, id, params, result⟩)⟩

def info? (t : IndirectTable) (slot : Nat) : Option IndirectInfo := t.entries[slot]?.map (·.2)

/-- A function that is appended stands behind all others, and these keep their slots. -/
theorem entries_append {t next : IndirectTable} {func : Nat} {id : String} {params : Bindings}
    {result : Shape} (done : t.append func id params result = .ok next) :
    next.entries = t.entries.push (func, ⟨t.size, id, params, result⟩) := by
  unfold append at done
  split at done
  · contradiction
  · cases done
    rfl

def functions (t : IndirectTable) : List Nat := t.entries.toList.map (·.1)

end IndirectTable

end WasmBuilder
