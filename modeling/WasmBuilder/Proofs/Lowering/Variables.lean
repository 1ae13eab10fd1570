import Mathlib.Data.List.Forall2
import WasmBuilder.Lower.Code

/-!
Where the numbers of variables are among machine locals and globals.

Variables stand in a row, so the numbers of one of them are a run of those of all.
-/

set_option autoImplicit false

namespace WasmBuilder.Lower

def Lies {α : Type} (all : List α) (base : Nat) (part : List α) : Prop :=
  ∃ before behind, all = before ++ part ++ behind ∧ before.length = base

namespace Lies

variable {α : Type} {all part : List α} {base : Nat}

theorem length_le (lies : Lies all base part) : base + part.length ≤ all.length := by
  obtain ⟨before, behind, rfl, rfl⟩ := lies
  simp only [List.length_append]
  omega

theorem getElem? (lies : Lies all base part) {i : Nat} (inside : i < part.length) :
    all[base + i]? = part[i]? := by
  obtain ⟨before, behind, rfl, rfl⟩ := lies
  rw [List.append_assoc, List.getElem?_append_right (Nat.le_add_right _ _), Nat.add_sub_cancel_left,
    List.getElem?_append_left inside]

/-- A slice of a part is a part. -/
theorem slice (lies : Lies all base part) {offset width : Nat}
    (fits : offset + width ≤ part.length) :
    Lies all (base + offset) ((part.drop offset).take width) := by
  obtain ⟨before, behind, rfl, rfl⟩ := lies
  refine ⟨before ++ part.take offset, (part.drop offset).drop width ++ behind, ?_, ?_⟩
  · have whole : part = part.take offset ++ ((part.drop offset).take width ++
        (part.drop offset).drop width) := by
      rw [List.take_append_drop, List.take_append_drop]
    conv_lhs => rw [whole]
    simp only [List.append_assoc]
  · rw [List.length_append, List.length_take]
    omega

theorem forall₂ (lies : Lies all base part) :
    List.Forall₂ (fun i x => all[i]? = some x) ((List.range part.length).map (base + ·)) part := by
  obtain ⟨before, behind, rfl, rfl⟩ := lies
  induction part generalizing before with
  | nil => exact .nil
  | cons x rest ih =>
    rw [List.length_cons, List.range_succ_eq_map, List.map_cons, List.map_map]
    refine .cons (by simp) ?_
    have later := ih (before ++ [x])
    simp only [List.append_assoc, List.singleton_append, List.length_append, List.length_singleton]
      at later ⊢
    have shifted : (fun i => before.length + i) ∘ Nat.succ = fun i => before.length + 1 + i := by
      funext i
      simp only [Function.comp_apply]
      omega
    rw [shifted]
    exact later

end Lies

theorem lies_of_basesFrom {shapes : List Shape} {next index base : Nat} {s : Shape}
    (found : (basesFrom next shapes)[index]? = some base) (here : shapes[index]? = some s) :
    next ≤ base ∧ Lies (shapes.flatMap Shape.flatten) (base - next) s.flatten := by
  induction shapes generalizing next index with
  | nil => simp at here
  | cons first rest ih =>
    cases index with
    | zero =>
      cases found
      cases here
      refine ⟨Nat.le_refl _, [], rest.flatMap Shape.flatten, rfl, ?_⟩
      rw [Nat.sub_self]
      rfl
    | succ index =>
      obtain ⟨le, before, behind, whole, length⟩ := ih found here
      refine ⟨by omega, first.flatten ++ before, behind, ?_, ?_⟩
      · rw [List.flatMap_cons, whole]
        simp only [List.append_assoc]
      · rw [List.length_append, length, Shape.width_eq] at *
        omega

theorem lies_of_bases {shapes : List Shape} {index base : Nat} {s : Shape}
    (found : (bases shapes)[index]? = some base) (here : shapes[index]? = some s) :
    Lies (shapes.flatMap Shape.flatten) base s.flatten :=
  (lies_of_basesFrom found here).2

theorem length_basesFrom (next : Nat) (shapes : List Shape) :
    (basesFrom next shapes).length = shapes.length := by
  induction shapes generalizing next with
  | nil => rfl
  | cons s rest ih => rw [basesFrom, List.length_cons, List.length_cons, ih]

theorem length_bases (shapes : List Shape) : (bases shapes).length = shapes.length :=
  length_basesFrom 0 shapes

theorem exists_basesFrom {shapes : List Shape} {x : Nat} (next : Nat)
    (inside : x < (shapes.flatMap Shape.flatten).length) :
    ∃ (index : Nat) (shape : Shape) (base i : Nat), shapes[index]? = some shape ∧
      (basesFrom next shapes)[index]? = some base ∧ i < shape.width ∧ next + x = base + i := by
  induction shapes generalizing next x with
  | nil => exact absurd inside (Nat.not_lt_zero x)
  | cons shape rest ih =>
    rw [List.flatMap_cons, List.length_append] at inside
    rw [basesFrom]
    rcases Nat.lt_or_ge x shape.width with first | later
    · exact ⟨0, shape, next, x, rfl, rfl, first, rfl⟩
    · have behind : x - shape.width < (rest.flatMap Shape.flatten).length := by
        rw [Shape.width_eq] at later ⊢
        omega
      obtain ⟨index, other, base, i, here, at_, within, same⟩ := ih (next + shape.width) behind
      exact ⟨index + 1, other, base, i, here, at_, within, by omega⟩

theorem exists_base {shapes : List Shape} {x : Nat}
    (inside : x < (shapes.flatMap Shape.flatten).length) :
    ∃ (index : Nat) (shape : Shape) (base i : Nat), shapes[index]? = some shape ∧
      (bases shapes)[index]? = some base ∧ i < shape.width ∧ x = base + i := by
  obtain ⟨index, shape, base, i, here, at_, within, same⟩ := exists_basesFrom 0 inside
  exact ⟨index, shape, base, i, here, at_, within, by omega⟩

/-- While indices are words, a slice of a part is the run that it says. -/
theorem Lies.slice_eq {α : Type} {all part : List α} {base offset width : Nat}
    (lies : Lies all base part) (fits : offset + width ≤ part.length)
    (words : all.length < indexBound) :
    Layout.slice base offset width =
      (List.range ((part.drop offset).take width).length).map (base + offset + ·) := by
  have le := lies.length_le
  have first : offset % indexBound = offset := Nat.mod_eq_of_lt (by omega)
  have last : (offset + width) % indexBound = offset + width := Nat.mod_eq_of_lt (by omega)
  have length : ((part.drop offset).take width).length = width := by
    rw [List.length_take, List.length_drop]
    omega
  simp only [Layout.slice, first, last, Nat.add_sub_cancel_left, length]
  refine List.map_congr_left fun i mem => Nat.mod_eq_of_lt ?_
  have := List.mem_range.1 mem
  omega

end WasmBuilder.Lower
