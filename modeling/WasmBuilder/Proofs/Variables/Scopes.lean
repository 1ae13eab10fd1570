import Mathlib.Data.List.Basic
import Mathlib.Order.Defs.Unbundled
import WasmBuilder.Scope

/-!
What a name means in a scope, and what may become of a scope.

Slots are only added, and a slot that is there keeps its name and its storage class. Its shape
changes once at most: from open to one that is known.
-/

set_option autoImplicit false

namespace WasmBuilder

/-- A slot stays as it is, or takes a shape that it lacked. -/
inductive Slot.Becomes : Slot → Slot → Prop
  | same (slot : Slot) : Becomes slot slot
  | typed {name : String} {storage : Storage} {shape : Shape} (known : shape ≠ .auto) :
      Becomes ⟨name, .auto, storage⟩ ⟨name, shape, storage⟩

namespace Slot.Becomes

variable {a b c : Slot}

theorem name_eq (becomes : a.Becomes b) : b.name = a.name := by cases becomes <;> rfl

theorem eq_of_known (becomes : a.Becomes b) (known : a.shape ≠ .auto) : b = a := by
  cases becomes with
  | same => rfl
  | typed => exact absurd rfl known

theorem open_of_open (becomes : a.Becomes b) (isOpen : b.shape = .auto) : b = a := by
  cases becomes with
  | same => rfl
  | typed known => exact absurd isOpen known

theorem trans (first : a.Becomes b) (second : b.Becomes c) : a.Becomes c := by
  cases first with
  | same => exact second
  | typed known =>
    rw [second.eq_of_known known]
    exact .typed known

end Slot.Becomes

namespace Scope

theorem shapes_of_slot {s : Scope} {index : Nat} {slot : Slot} (here : s.slots[index]? = some slot) :
    s.shapes[index]? = some slot.shape := by
  simp [shapes, here]

structure IsLast (s : Scope) (name : String) (index : Nat) (slot : Slot) : Prop where
  here : s.slots[index]? = some slot
  named : slot.name = name
  last : ∀ later other, index < later → s.slots[later]? = some other → other.name ≠ name

def Lacks (s : Scope) (name : String) : Prop :=
  ∀ (index : Nat) (slot : Slot), s.slots[index]? = some slot → slot.name ≠ name

/-- A look at the first `n` slots finds the last one of them that is called so. -/
theorem lastNamed_eq_some_iff {s : Scope} {name : String} {n index : Nat} {slot : Slot} :
    s.lastNamed name n = some (index, slot) ↔
      index < n ∧ s.slots[index]? = some slot ∧ slot.name = name ∧
        ∀ later other, index < later → later < n → s.slots[later]? = some other →
          other.name ≠ name := by
  induction n with
  | zero => simp [lastNamed]
  | succ n ih =>
    -- the slot that was looked at last decides, if it is called so
    cases here : s.slots[n]? with
    | none =>
      simp only [lastNamed, here, ih]
      grind
    | some last =>
      by_cases named : last.name = name <;> simp only [lastNamed, here, named, if_true, if_false, ih]
      · grind
      · grind

theorem lookup_eq_some_iff {s : Scope} {name : String} {index : Nat} {slot : Slot} :
    s.lookup name = some (index, slot) ↔ s.IsLast name index slot := by
  rw [lookup, lastNamed_eq_some_iff]
  constructor
  · rintro ⟨_, here, named, last⟩
    refine ⟨here, named, fun later other behind there => ?_⟩
    exact last later other behind (Array.getElem?_eq_some_iff.1 there).1 there
  · rintro ⟨here, named, last⟩
    refine ⟨(Array.getElem?_eq_some_iff.1 here).1, here, named, ?_⟩
    exact fun later other behind _ there => last later other behind there

theorem lookup_eq_none_iff {s : Scope} {name : String} : s.lookup name = none ↔ s.Lacks name := by
  have upTo (n : Nat) : s.lastNamed name n = none ↔
      ∀ index slot, index < n → s.slots[index]? = some slot → slot.name ≠ name := by
    induction n with
    | zero => simp [lastNamed]
    | succ n ih =>
      cases here : s.slots[n]? with
      | none =>
        simp only [lastNamed, here, ih]
        grind
      | some last =>
        by_cases named : last.name = name <;>
          simp only [lastNamed, here, named, if_true, if_false, ih]
        · grind
        · grind
  rw [lookup, upTo]
  constructor
  · intro lacks index slot here
    exact lacks index slot (Array.getElem?_eq_some_iff.1 here).1 here
  · intro lacks index slot _ here
    exact lacks index slot here

/-- Slots stay where they are, and what becomes of one is that it is typed. -/
def Grows (s t : Scope) : Prop :=
  ∀ (index : Nat) (slot : Slot), s.slots[index]? = some slot →
    ∃ later, t.slots[index]? = some later ∧ slot.Becomes later

namespace Grows

theorem refl (s : Scope) : Grows s s := fun _ slot here => ⟨slot, here, .same slot⟩

theorem trans {s t u : Scope} (first : Grows s t) (second : Grows t u) : Grows s u := by
  intro index slot here
  have ⟨next, there, becomes⟩ := first index slot here
  have ⟨last, there, after⟩ := second index next there
  exact ⟨last, there, becomes.trans after⟩

instance : IsPreorder Scope Grows where
  refl := refl
  trans _ _ _ := trans

variable {s t : Scope}

theorem of_known (grows : Grows s t) {index : Nat} {slot : Slot}
    (here : s.slots[index]? = some slot) (known : slot.shape ≠ .auto) :
    t.slots[index]? = some slot := by
  have ⟨later, there, becomes⟩ := grows index slot here
  rw [there, becomes.eq_of_known known]

end Grows

theorem slots_declare {s : Scope} {index : Nat} {slot : Slot} (here : s.slots[index]? = some slot)
    (name : String) (shape : Shape) (storage : Storage) :
    (s.declare name shape storage).slots[index]? = some slot := by
  have old : index ≠ s.slots.size := Nat.ne_of_lt (Array.getElem?_eq_some_iff.1 here).1
  simp [declare, Array.getElem?_push, old, here]

theorem grows_declare (s : Scope) (name : String) (shape : Shape) (storage : Storage) :
    s.Grows (s.declare name shape storage) := by
  intro index slot here
  exact ⟨slot, slots_declare here name shape storage, .same slot⟩

theorem slots_declareAll {s : Scope} {index : Nat} {slot : Slot}
    (here : s.slots[index]? = some slot) (bindings : Bindings) (storage : Storage) :
    (s.declareAll bindings storage).slots[index]? = some slot := by
  induction bindings generalizing s with
  | nil => exact here
  | cons b rest ih => exact ih (slots_declare here b.1 b.2 storage)

theorem grows_declareAll (s : Scope) (bindings : Bindings) (storage : Storage) :
    s.Grows (s.declareAll bindings storage) := by
  intro index slot here
  exact ⟨slot, slots_declareAll here bindings storage, .same slot⟩

@[simp] theorem slots_fix (s : Scope) (index other : Nat) (shape : Shape) :
    (s.fix index shape).slots[other]? =
      (s.slots[other]?).map fun slot => if other = index then { slot with shape } else slot := by
  rw [fix, Array.getElem?_modify]
  by_cases is : index = other
  · simp [is]
  · simp [is, Ne.symm is]

@[simp] theorem size_fix (s : Scope) (index : Nat) (shape : Shape) :
    (s.fix index shape).size = s.size := Array.size_modify

theorem grows_fix {s : Scope} {index : Nat} {slot : Slot} {shape : Shape}
    (here : s.slots[index]? = some slot) (isOpen : slot.shape = .auto) (known : shape ≠ .auto) :
    s.Grows (s.fix index shape) := by
  intro other found there
  by_cases is : other = index
  · subst is
    cases here.symm.trans there
    obtain ⟨name, _, storage⟩ := slot
    cases isOpen
    exact ⟨_, by simp [there], .typed known⟩
  · exact ⟨found, by simp [there, is], .same found⟩

theorem changed_fix {s : Scope} {index other : Nat} {shape : Shape} {before after : Slot}
    (here : s.slots[other]? = some before) (there : (s.fix index shape).slots[other]? = some after)
    (changed : after ≠ before) : other = index ∧ after.shape = shape := by
  rw [slots_fix, here, Option.map_some, Option.some.injEq] at there
  by_cases is : other = index
  · rw [if_pos is] at there
    exact ⟨is, there ▸ rfl⟩
  · rw [if_neg is] at there
    exact absurd there.symm changed

namespace IsLast

variable {s : Scope} {name : String} {index : Nat} {slot : Slot}

theorem unique (first : s.IsLast name index slot) {other : Nat} {slot' : Slot}
    (second : s.IsLast name other slot') : index = other ∧ slot = slot' := by
  have found := (lookup_eq_some_iff.2 first).symm.trans (lookup_eq_some_iff.2 second)
  cases found
  exact ⟨rfl, rfl⟩

/-- Whatever shape it takes, the slot stays the last one of its name. -/
theorem fix (last : s.IsLast name index slot) (shape : Shape) :
    (s.fix index shape).IsLast name index { slot with shape } := by
  refine ⟨by simp [last.here], last.named, fun later other behind there => ?_⟩
  have ne : later ≠ index := (Nat.ne_of_lt behind).symm
  simp only [slots_fix, ne, if_false, Option.map_id'] at there
  exact last.last later other behind there

end IsLast

theorem isLast_declare (s : Scope) (name : String) (shape : Shape) (storage : Storage) :
    (s.declare name shape storage).IsLast name s.size ⟨name, shape, storage⟩ := by
  rw [← lookup_eq_some_iff, lookup_declare, if_pos rfl]

end Scope

end WasmBuilder
