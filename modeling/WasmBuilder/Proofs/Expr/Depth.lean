import Mathlib.Data.List.Nodup
import Mathlib.Data.List.Perm.Subperm
import Mathlib.Tactic.ByContra
import WasmBuilder.Proofs.Expr.Slots

/-!
How deep expressions are nested.

An expression without cycles is a finite tree of handles. No path through it meets a handle twice,
so it is at most as deep as the arena is long.
-/

set_option autoImplicit false

namespace WasmBuilder.Arena

def Shallow (a : Arena) : (depth : Nat) → ExprId → Prop
  | 0, _ => False
  | depth + 1, id => ∃ node, a.node id = .ok node ∧ ∀ child ∈ node.children, Shallow a depth child

namespace Shallow

variable {a : Arena} {id : ExprId}

theorem lt_size {depth : Nat} (shallow : a.Shallow depth id) : id < a.size := by
  cases depth with
  | zero => exact shallow.elim
  | succ depth =>
    obtain ⟨node, here, _⟩ := shallow
    obtain ⟨_, found⟩ := node_eq_ok_iff.1 here
    exact (Array.getElem?_eq_some_iff.1 found).1

theorem succ {depth : Nat} (shallow : a.Shallow depth id) : a.Shallow (depth + 1) id := by
  induction depth generalizing id with
  | zero => exact shallow.elim
  | succ depth ih =>
    obtain ⟨node, here, below⟩ := shallow
    exact ⟨node, here, fun child mem => ih (below child mem)⟩

theorem mono {m n : Nat} (le : m ≤ n) (shallow : a.Shallow m id) : a.Shallow n id := by
  induction le with
  | refl => exact shallow
  | step _ ih => exact ih.succ

/-- An expression that is just so deep has a path of so many different handles. -/
theorem path {depth : Nat} (deep : a.Shallow (depth + 1) id) (least : ¬ a.Shallow depth id) :
    ∃ ids : List ExprId, ids.length = depth + 1 ∧ ids.Nodup ∧
      ∀ x ∈ ids, a.Shallow (depth + 1) x := by
  induction depth generalizing id with
  | zero => exact ⟨[id], rfl, List.nodup_singleton id, fun x mem => List.mem_singleton.1 mem ▸ deep⟩
  | succ depth ih =>
    obtain ⟨node, here, below⟩ := deep
    -- some operand is as deep as that allows
    obtain ⟨child, mem, more⟩ : ∃ child ∈ node.children, ¬ a.Shallow depth child := by
      by_contra none
      refine least ⟨node, here, fun child mem => ?_⟩
      by_contra more
      exact none ⟨child, mem, more⟩
    obtain ⟨ids, length, nodup, all⟩ := ih (below child mem) more
    refine ⟨id :: ids, by rw [List.length_cons, length], List.nodup_cons.2 ⟨?_, nodup⟩, ?_⟩
    · exact fun again => least (all id again)
    · intro x mem
      rcases List.mem_cons.1 mem with rfl | mem
      · exact ⟨node, here, below⟩
      · exact (all x mem).succ

theorem within_size {depth : Nat} (shallow : a.Shallow depth id) : a.Shallow a.size id := by
  induction depth with
  | zero => exact shallow.elim
  | succ depth ih =>
    by_cases less : a.Shallow depth id
    · exact ih less
    · obtain ⟨ids, length, nodup, all⟩ := path shallow less
      have inside : ids ⊆ List.range a.size :=
        fun x mem => List.mem_range.2 (all x mem).lt_size
      have few := (nodup.subperm inside).length_le
      rw [List.length_range, length] at few
      exact shallow.mono few

/-- Several expressions are nested at most as deep as the deepest of them. -/
theorem exists_common {ids : List ExprId} (each : ∀ id ∈ ids, ∃ depth, a.Shallow depth id) :
    ∃ depth, ∀ id ∈ ids, a.Shallow depth id := by
  induction ids with
  | nil => exact ⟨0, fun id mem => absurd mem List.not_mem_nil⟩
  | cons first rest ih =>
    obtain ⟨m, here⟩ := each first List.mem_cons_self
    obtain ⟨n, others⟩ := ih fun id mem => each id (List.mem_cons_of_mem first mem)
    refine ⟨max m n, fun id mem => ?_⟩
    rcases List.mem_cons.1 mem with rfl | mem
    · exact here.mono (Nat.le_max_left m n)
    · exact (others id mem).mono (Nat.le_max_right m n)

end Shallow

end WasmBuilder.Arena
