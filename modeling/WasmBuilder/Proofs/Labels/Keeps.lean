import Mathlib.Data.List.Forall2
import WasmBuilder.Proofs.Labels.Arena

/-!
Computations that keep the labels of an arena true.

A computation may fail, and what it did before stays done, so `Keeps` speaks of the arena on both
ways out and of the answer on one.
-/

set_option autoImplicit false

namespace WasmBuilder

class HasArena (σ : Type) where
  arena : σ → Arena

open Arena (Extends)

def Keeps {σ α : Type} [HasArena σ] (s : σ) (m : EStateM BuildError σ α) (Q : α → σ → Prop) :
    Prop :=
  match m s with
  | .ok x t => Extends (HasArena.arena s) (HasArena.arena t) ∧ Q x t
  | .error _ t => Extends (HasArena.arena s) (HasArena.arena t)

namespace Keeps

variable {σ α β : Type} [HasArena σ] {s : σ} {Q : α → σ → Prop} {R : β → σ → Prop}

theorem pure (labelled : (HasArena.arena s).Labelled) {x : α} (holds : Q x s) :
    Keeps s (Pure.pure x) Q :=
  ⟨labelled.extends_self, holds⟩

theorem throw (labelled : (HasArena.arena s).Labelled) {e : BuildError} :
    Keeps s (MonadExcept.throw e) Q :=
  labelled.extends_self

theorem get_bind {f : σ → EStateM BuildError σ α} (keeps : Keeps s (f s) Q) :
    Keeps s (get >>= f) Q :=
  keeps

theorem modify {f : σ → σ} {Q : PUnit → σ → Prop}
    (grown : Extends (HasArena.arena s) (HasArena.arena (f s))) (holds : Q ⟨⟩ (f s)) :
    Keeps s (MonadState.modifyGet fun t => (PUnit.unit, f t)) Q :=
  ⟨grown, holds⟩

theorem weaken {Q' : α → σ → Prop} {m : EStateM BuildError σ α} (keeps : Keeps s m Q)
    (implies : ∀ x t, Extends (HasArena.arena s) (HasArena.arena t) → Q x t → Q' x t) :
    Keeps s m Q' := by
  unfold Keeps at keeps ⊢
  split at keeps
  next x t run => exact ⟨keeps.1, implies x t keeps.1 keeps.2⟩
  next => exact keeps

theorem of_ok {m : EStateM BuildError σ α} (keeps : Keeps s m Q) {x : α} {t : σ}
    (done : m s = .ok x t) : Extends (HasArena.arena s) (HasArena.arena t) ∧ Q x t := by
  unfold Keeps at keeps
  rw [done] at keeps
  exact keeps

theorem of_error {m : EStateM BuildError σ α} (keeps : Keeps s m Q) {e : BuildError} {t : σ}
    (failed : m s = .error e t) : Extends (HasArena.arena s) (HasArena.arena t) := by
  unfold Keeps at keeps
  rw [failed] at keeps
  exact keeps

theorem bind {m : EStateM BuildError σ α} {f : α → EStateM BuildError σ β} (first : Keeps s m Q)
    (second : ∀ x t, Extends (HasArena.arena s) (HasArena.arena t) → Q x t → Keeps t (f x) R) :
    Keeps s (m >>= f) R := by
  unfold Keeps at first
  cases run : m s with
  | error e t =>
    rw [run] at first
    have failed : (m >>= f) s = .error e t := by simp [Bind.bind, EStateM.bind, run]
    simpa only [Keeps, failed] using first
  | ok x t =>
    rw [run] at first
    obtain ⟨grown, holds⟩ := first
    have next : (m >>= f) s = f x t := by simp [Bind.bind, EStateM.bind, run]
    have after := second x t grown holds
    unfold Keeps at after ⊢
    rw [next]
    cases rest : f x t with
    | ok y u =>
      rw [rest] at after
      exact ⟨grown.trans after.1, after.2⟩
    | error e u =>
      rw [rest] at after
      exact grown.trans after

/-- A computation for each of several items. What is found of an item must outlast the
computations for the others. -/
theorem mapM {f : α → EStateM BuildError σ β} {P : α → β → Arena → Prop}
    (stable : ∀ x y a b, Extends a b → P x y a → P x y b) {xs : List α}
    (labelled : (HasArena.arena s).Labelled)
    (each : ∀ x ∈ xs, ∀ t, Extends (HasArena.arena s) (HasArena.arena t) →
      Keeps t (f x) fun y u => P x y (HasArena.arena u)) :
    Keeps s (xs.mapM f) fun ys t => List.Forall₂ (fun x y => P x y (HasArena.arena t)) xs ys := by
  induction xs generalizing s with
  | nil => exact Keeps.pure labelled .nil
  | cons x rest ih =>
    rw [List.mapM_cons]
    refine (each x List.mem_cons_self s labelled.extends_self).bind fun y t grown found => ?_
    have later : ∀ z ∈ rest, ∀ u, Extends (HasArena.arena t) (HasArena.arena u) →
        Keeps u (f z) fun y v => P z y (HasArena.arena v) :=
      fun z mem u more => each z (List.mem_cons_of_mem x mem) u (grown.trans more)
    refine (ih grown.labelled later).bind fun ys u more others => ?_
    exact Keeps.pure more.labelled (.cons (stable x y _ _ more found) others)

theorem forM {f : α → EStateM BuildError σ PUnit} {xs : List α}
    (labelled : (HasArena.arena s).Labelled)
    (each : ∀ x ∈ xs, ∀ t, Extends (HasArena.arena s) (HasArena.arena t) →
      Keeps t (f x) fun _ _ => True) : Keeps s (xs.forM f) fun _ _ => True := by
  induction xs generalizing s with
  | nil => exact Keeps.pure labelled trivial
  | cons x rest ih =>
    refine (each x List.mem_cons_self s labelled.extends_self).bind fun _ t grown _ => ?_
    exact ih grown.labelled fun z mem u more => each z (List.mem_cons_of_mem x mem) u
      (grown.trans more)

end Keeps

end WasmBuilder
