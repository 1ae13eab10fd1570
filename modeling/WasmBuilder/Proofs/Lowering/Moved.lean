import WasmBuilder.Proofs.Course.Appends
import WasmBuilder.Proofs.Lowering.Abreast
import WasmBuilder.Proofs.Lowering.Descent
import WasmBuilder.Proofs.Variables.Delivered
import WasmBuilder.Proofs.Wasm.Relocation

/-!
Builds that go on where others end.

A build that has all that another one has may still number it differently: its imports come first, its
types stand in the order of their first use, and a global variable that got its shape late takes
numbers in front of those behind it. What declared functions and variables have in common tells which
numbers of the one stand for which of the other.
-/

set_option autoImplicit false

namespace WasmBuilder

open Lower (moduleLayout Shares Layout)
open Wasm (Relocation)

namespace Build

inductive SameGlobal (b c : Build) : Nat → Nat → Prop
  | mk {global base base' i : Nat} {shape : Shape} (here : b.globals.shapes[global]? = some shape)
      (there : c.globals.shapes[global]? = some shape)
      (at_ : (moduleLayout b).globalBases[global]? = some base)
      (at_' : (moduleLayout c).globalBases[global]? = some base') (inside : i < shape.width) :
      SameGlobal b c (base + i) (base' + i)

/-- Where the module of a build has the functions, types, globals and slots that the module of
another one has. -/
def relocation (b c : Build) (m n : Wasm.Module) : Relocation where
  func f g := ∃ k, b.indexOf? k = some f ∧ c.indexOf? k = some g
  type i j := ∃ type, m.types[i]? = some type ∧ n.types[j]? = some type
  global := SameGlobal b c
  slot slot i j := ∃ k f, b.table.functions[slot.toNat]? = some k ∧
    c.table.functions[slot.toNat]? = some k ∧ b.functions[k]? = some f ∧
    m.types[i]? = some f.signature.funcType ∧ n.types[j]? = some f.signature.funcType

variable {b c : Build} {m n : Wasm.Module}

theorem globalBase_eq_ok_iff {l : Layout} {global base : Nat} :
    l.globalBase global = .ok base ↔ l.globalBases[global]? = some base := by
  unfold Layout.globalBase
  cases l.globalBases[global]? with
  | none => simp
  | some i => simp

theorem getElem?_globalBases (global : Nat) :
    (moduleLayout b).globalBases[global]? = (Lower.bases b.globals.shapes)[global]? := by
  rw [moduleLayout, List.getElem?_toArray]

/-- A machine global of one build stands for one of another build, and for no other. -/
theorem SameGlobal.unique {x y x' y' : Nat} (first : SameGlobal b c x x') (second : SameGlobal b c y y') :
    y = x ↔ y' = x' := by
  cases first with
  | @mk g base base' i shape here there at_ at_' inside =>
    cases second with
    | @mk h other other' j shape₂ here₂ there₂ at₂ at₂' inside₂ =>
      rw [getElem?_globalBases] at at_ at_' at₂ at₂'
      rcases Nat.lt_trichotomy g h with lt | rfl | gt
      · have apart := Lower.bases_apart at_ here at₂ lt
        have apart' := Lower.bases_apart at_' there at₂' lt
        omega
      · cases at_.symm.trans at₂
        cases at_'.symm.trans at₂'
        omega
      · have apart := Lower.bases_apart at₂ here₂ at_ gt
        have apart' := Lower.bases_apart at₂' there₂ at_' gt
        omega

theorem SameGlobal.inside {x y : Nat} (same : SameGlobal b c x y) :
    x < (b.globals.shapes.flatMap Shape.flatten).length ∧
      y < (c.globals.shapes.flatMap Shape.flatten).length := by
  cases same with
  | mk here there at_ at_' inside =>
    rw [getElem?_globalBases] at at_ at_'
    have lies := (Lower.lies_of_bases at_ here).length_le
    have lies' := (Lower.lies_of_bases at_' there).length_le
    rw [Shape.width_eq] at inside
    omega

theorem SameGlobal.type {x y : Nat} (same : SameGlobal b c x y) :
    (c.globals.shapes.flatMap Shape.flatten)[y]? = (b.globals.shapes.flatMap Shape.flatten)[x]? := by
  cases same with
  | mk here there at_ at_' inside =>
    rw [getElem?_globalBases] at at_ at_'
    rw [Shape.width_eq] at inside
    rw [(Lower.lies_of_bases at_ here).getElem? inside, (Lower.lies_of_bases at_' there).getElem? inside]

theorem Continues.sameGlobal (continues : b.Continues c) {global base base' i : Nat} {slot : Slot}
    (here : b.globals.slots[global]? = some slot) (known : slot.shape ≠ .auto)
    (at_ : (moduleLayout b).globalBase global = .ok base)
    (at_' : (moduleLayout c).globalBase global = .ok base') (inside : i < slot.shape.width) :
    SameGlobal b c (base + i) (base' + i) :=
  .mk (Scope.shapes_of_slot here) (Scope.shapes_of_slot (continues.globals.of_known here known))
    (globalBase_eq_ok_iff.1 at_) (globalBase_eq_ok_iff.1 at_') inside

/-- A build that goes on has all machine globals of the one it goes on from. -/
theorem Continues.exists_sameGlobal (continues : b.Continues c) {x : Nat}
    (inside : x < (b.globals.shapes.flatMap Shape.flatten).length) : ∃ y, SameGlobal b c x y := by
  obtain ⟨global, shape, base, i, here, at_, within, rfl⟩ := Lower.exists_base inside
  have slots := here
  rw [Scope.shapes, List.getElem?_map, Array.getElem?_toList] at slots
  obtain ⟨slot, declared, rfl⟩ := Option.map_eq_some_iff.1 slots
  -- a variable without a shape takes no machine globals
  have known : slot.shape ≠ .auto := by
    intro unknown
    rw [unknown] at within
    exact absurd within (Nat.not_lt_zero i)
  have there := Scope.shapes_of_slot (continues.globals.of_known declared known)
  have counted := (List.getElem?_eq_some_iff.1 there).1
  rw [← Lower.length_bases] at counted
  refine ⟨(Lower.bases c.globals.shapes)[global] + i, .mk here there ?_ ?_ within⟩
  · rw [getElem?_globalBases, at_]
  · rw [getElem?_globalBases, List.getElem?_eq_getElem counted]

theorem Coherent.field_fits (coherent : b.Coherent) {id composite : ExprId}
    {index offset width global : Nat} {shape : Shape}
    (here : b.arena.node id = .ok (.extract composite index offset width))
    (read : b.arena.node composite = .ok (.globalGet global shape)) :
    offset + width ≤ shape.flatten.length := by
  have old : id < b.arena.size := Arena.lt_size_of_node here
  obtain ⟨ts, told⟩ := coherent.labelled.labelSlots_of_lt old
  rw [← coherent.labelled.slots_eq old] at told
  obtain ⟨all, whole, fits, _⟩ :=
    Arena.nodeSlots_extract_eq_ok_iff.1 (Arena.nodeSlots_of_slots here told)
  cases Arena.nodeSlots_of_slots read whole
  exact fits

/-- A build that goes on where another one ends shares all that code of the other one names. -/
theorem Continues.shares (continues : b.Continues c) (coherent : b.Coherent) {K L : List Signature}
    (listed : m.types = K.map Signature.funcType) (listed' : n.types = L.map Signature.funcType)
    (words : (b.globals.shapes.flatMap Shape.flatten).length < 2 ^ 32)
    (words' : (c.globals.shapes.flatMap Shape.flatten).length < 2 ^ 32)
    (slots : b.table.functions.length < 2 ^ 32) :
    Shares (moduleLayout b) (moduleLayout c) K L (b.relocation c m n) where
  continues := continues.arena
  localBases := rfl
  scratchBase := rfl
  types i j signature here there := by
    refine ⟨signature.funcType, ?_, ?_⟩
    · rw [listed, List.getElem?_map, here, Option.map_some]
    · rw [listed', List.getElem?_map, there, Option.map_some]
  funcs func f g here there :=
    ⟨func, Lower.indexOf?_of_funcIndex here, Lower.indexOf?_of_funcIndex there⟩
  -- globals only get more behind those that were there, so each keeps its place
  globals id node global shape x y here accesses at_ at_' i inside := by
    obtain ⟨known, slot, declared, rfl⟩ := coherent.accesses id node global shape here accesses
    exact continues.sameGlobal declared known at_ at_' inside
  fields id composite index offset width global shape x y here read at_ at_' := by
    obtain ⟨known, slot, declared, rfl⟩ := coherent.accesses composite _ global shape read rfl
    have fits := coherent.field_fits here read
    have declared' := continues.globals.of_known declared known
    have base := globalBase_eq_ok_iff.1 at_
    have base' := globalBase_eq_ok_iff.1 at_'
    rw [getElem?_globalBases] at base base'
    have lies := Lower.lies_of_bases base (Scope.shapes_of_slot declared)
    have lies' := Lower.lies_of_bases base' (Scope.shapes_of_slot declared')
    rw [lies.slice_eq fits words, lies'.slice_eq fits words', List.forall₂_map_left_iff,
      List.forall₂_map_right_iff, List.forall₂_same]
    intro i mem
    have inside := List.mem_range.1 mem
    rw [List.length_take, List.length_drop] at inside
    rw [Nat.add_assoc, Nat.add_assoc]
    apply continues.sameGlobal declared known at_ at_'
    rw [Shape.width_eq]
    omega
  slots id index args signature i j here listedAt listedAt' := by
    obtain ⟨k, d, args', known, called⟩ := coherent.calls id _ here rfl
    obtain ⟨f, declared, tells⟩ := coherent.matched.tells k d known
    cases called with
    | direct _ there => cases here.symm.trans there
    | @indirect slot _ kind constant there =>
      cases Except.ok.inj (here.symm.trans there)
      have held := (coherent.matched.slot_iff known).1 kind
      have inside := (List.getElem?_eq_some_iff.1 held).1
      -- slots are written as words, which tables of this size do not exceed
      have word : (BitVec.ofNat 32 slot).toNat = slot := by
        rw [BitVec.toNat_ofNat, Nat.mod_eq_of_lt (Nat.lt_trans inside slots)]
      refine ⟨BitVec.ofNat 32 slot, constant, k, f, ?_, ?_, declared, ?_, ?_⟩
      · rw [word, held]
      · rw [word, Lower.getElem?_of_prefix continues.table held]
      · rw [listed, List.getElem?_map, listedAt, Option.map_some, tells.signature_eq]
      · rw [listed', List.getElem?_map, listedAt', Option.map_some, tells.signature_eq]

end Build

end WasmBuilder
