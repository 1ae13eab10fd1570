import WasmBuilder.Shape

/-!
Variable scopes. A name stands for the last slot declared under it.
-/

set_option autoImplicit false

namespace WasmBuilder

inductive Storage where
  | param
  | local
  | global
  deriving DecidableEq, Repr

structure Slot where
  name : String
  shape : Shape
  storage : Storage
  deriving DecidableEq

/-- Slots in declaration order. Positions never change. -/
structure Scope where
  slots : Array Slot := #[]

namespace Scope

def size (s : Scope) : Nat := s.slots.size

def declare (s : Scope) (name : String) (shape : Shape) (storage : Storage) : Scope :=
  ⟨s.slots.push ⟨name, shape, storage⟩⟩

def declareAll (s : Scope) (bindings : Bindings) (storage : Storage) : Scope :=
  bindings.foldl (fun s b => s.declare b.1 b.2 storage) s

def lastNamed (s : Scope) (name : String) : Nat → Option (Nat × Slot)
  | 0 => none
  | n + 1 =>
    match s.slots[n]? with
    | some slot => if slot.name = name then some (n, slot) else s.lastNamed name n
    | none => s.lastNamed name n

def lookup (s : Scope) (name : String) : Option (Nat × Slot) := s.lastNamed name s.size

@[simp] theorem size_declare (s : Scope) (name : String) (shape : Shape) (storage : Storage) :
    (s.declare name shape storage).size = s.size + 1 := Array.size_push ..

theorem lastNamed_declare (s : Scope) (name other : String) (shape : Shape) (storage : Storage)
    {n : Nat} (old : n ≤ s.size) :
    (s.declare name shape storage).lastNamed other n = s.lastNamed other n := by
  induction n with
  | zero => rfl
  | succ n ih =>
    have ne : n ≠ s.slots.size := Nat.ne_of_lt old
    have same : (s.declare name shape storage).slots[n]? = s.slots[n]? := by
      simp [declare, Array.getElem?_push, ne]
    simp only [lastNamed, same, ih (Nat.le_of_lt old)]

theorem lookup_declare (s : Scope) (name other : String) (shape : Shape) (storage : Storage) :
    (s.declare name shape storage).lookup other =
      if name = other then some (s.size, ⟨name, shape, storage⟩) else s.lookup other := by
  have newest : (s.declare name shape storage).slots[s.size]? = some ⟨name, shape, storage⟩ :=
    Array.getElem?_push_size
  simp only [lookup, size_declare, lastNamed, newest,
    lastNamed_declare s name other shape storage (Nat.le_refl _)]

def fix (s : Scope) (index : Nat) (shape : Shape) : Scope :=
  ⟨s.slots.modify index fun slot => { slot with shape }⟩

def shapes (s : Scope) : List Shape := s.slots.toList.map (·.shape)

end Scope

end WasmBuilder
