import Mathlib.Data.List.Forall2
import Mathlib.Order.Defs.Unbundled
import WasmBuilder.Error

/-!
Steps that may fail, and computations that move their state along a preorder.

A computation may fail, and what it did before stays done, so `Moves` speaks of the state on both
ways out and of the answer on one.
-/

set_option autoImplicit false

namespace WasmBuilder

section
variable {ε α β : Type}

/-- Two steps succeed when the second succeeds on what the first answers. -/
theorem bind_eq_ok_iff {e : Except ε α} {f : α → Except ε β} {y : β} :
    (e >>= f) = .ok y ↔ ∃ x, e = .ok x ∧ f x = .ok y := by
  cases e with
  | error e => simp [bind, Except.bind]
  | ok x => simp [bind, Except.bind]

theorem mapM_eq_ok_iff {f : α → Except ε β} {xs : List α} {ys : List β} :
    xs.mapM f = .ok ys ↔ List.Forall₂ (fun x y => f x = .ok y) xs ys := by
  induction xs generalizing ys with
  | nil => simp [pure, Except.pure, eq_comm]
  | cons x xs ih =>
    rw [List.mapM_cons, bind_eq_ok_iff, List.forall₂_cons_left_iff]
    refine exists_congr fun y => ?_
    rw [exists_and_left, bind_eq_ok_iff]
    refine and_congr_right fun _ => ?_
    refine exists_congr fun rest => ?_
    rw [ih]
    simp [pure, Except.pure, eq_comm]

theorem mapM_eq_some_iff {f : α → Option β} {xs : List α} {ys : List β} :
    xs.mapM f = some ys ↔ List.Forall₂ (fun x y => f x = some y) xs ys := by
  induction xs generalizing ys with
  | nil => simp [eq_comm]
  | cons x xs ih =>
    rw [List.mapM_cons, List.forall₂_cons_left_iff, Option.bind_eq_bind,
      Option.bind_eq_some_iff]
    refine exists_congr fun y => ?_
    rw [exists_and_left, Option.bind_eq_bind, Option.bind_eq_some_iff]
    refine and_congr_right fun _ => ?_
    refine exists_congr fun rest => ?_
    rw [ih]
    simp [eq_comm]

theorem exists_mapM_eq_some {f : α → Option β} {xs : List α} (each : ∀ x ∈ xs, ∃ y, f x = some y) :
    ∃ ys, xs.mapM f = some ys := by
  induction xs with
  | nil => exact ⟨[], rfl⟩
  | cons x xs ih =>
    obtain ⟨y, first⟩ := each x List.mem_cons_self
    obtain ⟨ys, others⟩ := ih fun z mem => each z (List.mem_cons_of_mem x mem)
    exact ⟨y :: ys, by rw [List.mapM_cons, first, others]; rfl⟩

theorem exists_getElem?_of_forall₂ {R : α → β → Prop} {xs : List α} {ys : List β} {i : Nat} {x : α}
    (related : List.Forall₂ R xs ys) (here : xs[i]? = some x) : ∃ y, ys[i]? = some y ∧ R x y := by
  induction related generalizing i with
  | nil => simp at here
  | @cons a b as bs first _ ih =>
    cases i with
    | zero =>
      cases here
      exact ⟨b, rfl, first⟩
    | succ i => exact ih here

end

variable {σ α β : Type}

theorem exists_of_bind_eq_ok {m : EStateM BuildError σ α} {f : α → EStateM BuildError σ β} {s u : σ}
    {y : β} (done : (m >>= f) s = .ok y u) : ∃ x t, m s = .ok x t ∧ f x t = .ok y u := by
  cases run : m s with
  | error e t =>
    have failed : (m >>= f) s = .error e t := by simp [bind, EStateM.bind, run]
    cases failed.symm.trans done
  | ok x t =>
    have next : (m >>= f) s = f x t := by simp [bind, EStateM.bind, run]
    exact ⟨x, t, rfl, next.symm.trans done⟩

def Moves (R : σ → σ → Prop) (s : σ) (m : EStateM BuildError σ α) (Q : α → σ → Prop) : Prop :=
  match m s with
  | .ok x t => R s t ∧ Q x t
  | .error _ t => R s t

namespace Moves

variable {R : σ → σ → Prop} {s : σ} {m : EStateM BuildError σ α} {Q : α → σ → Prop}

theorem of_ok (moves : Moves R s m Q) {x : α} {t : σ} (done : m s = .ok x t) : R s t ∧ Q x t := by
  unfold Moves at moves
  rw [done] at moves
  exact moves

theorem of_error (moves : Moves R s m Q) {e : BuildError} {t : σ} (failed : m s = .error e t) :
    R s t := by
  unfold Moves at moves
  rw [failed] at moves
  exact moves

theorem intro (ok : ∀ x t, m s = .ok x t → R s t ∧ Q x t) (error : ∀ e t, m s = .error e t → R s t) :
    Moves R s m Q := by
  unfold Moves
  cases run : m s with
  | ok x t => exact ok x t run
  | error e t => exact error e t run

theorem weaken {P : α → σ → Prop} (moves : Moves R s m Q) (implies : ∀ x t, R s t → Q x t → P x t) :
    Moves R s m P := by
  apply intro
  · intro x t done
    have ⟨moved, holds⟩ := moves.of_ok done
    exact ⟨moved, implies x t moved holds⟩
  · intro e t failed
    exact moves.of_error failed

theorem mono {S : σ → σ → Prop} (moves : Moves R s m Q) (implies : ∀ t, R s t → S s t) :
    Moves S s m Q := by
  apply intro
  · intro x t done
    have ⟨moved, holds⟩ := moves.of_ok done
    exact ⟨implies t moved, holds⟩
  · intro e t failed
    exact implies t (moves.of_error failed)

variable [IsPreorder σ R]

theorem pure {x : α} (holds : Q x s) : Moves R s (Pure.pure x) Q := ⟨refl_of R s, holds⟩

theorem throw {e : BuildError} : Moves R s (MonadExcept.throw e) Q := refl_of R s

omit [IsPreorder σ R] in
theorem get_bind {f : σ → EStateM BuildError σ α} (moves : Moves R s (f s) Q) :
    Moves R s (get >>= f) Q := moves

omit [IsPreorder σ R] in
theorem modify {f : σ → σ} {P : PUnit → σ → Prop} (moved : R s (f s)) (holds : P ⟨⟩ (f s)) :
    Moves R s (MonadState.modifyGet fun t => (PUnit.unit, f t)) P := ⟨moved, holds⟩

theorem bind {f : α → EStateM BuildError σ β} {P : β → σ → Prop} (first : Moves R s m Q)
    (second : ∀ x t, R s t → Q x t → Moves R t (f x) P) : Moves R s (m >>= f) P := by
  cases run : m s with
  | error e t =>
    have failed : (m >>= f) s = .error e t := by simp [Bind.bind, EStateM.bind, run]
    simpa only [Moves, failed] using first.of_error run
  | ok x t =>
    have ⟨moved, holds⟩ := first.of_ok run
    have next : (m >>= f) s = f x t := by simp [Bind.bind, EStateM.bind, run]
    have after := second x t moved holds
    apply intro
    · intro y u done
      have ⟨further, answer⟩ := after.of_ok (next.symm.trans done)
      exact ⟨trans_of R moved further, answer⟩
    · intro e u failed
      exact trans_of R moved (after.of_error (next.symm.trans failed))

theorem mapM {f : α → EStateM BuildError σ β} {xs : List α}
    (each : ∀ x ∈ xs, ∀ t, R s t → Moves R t (f x) fun _ _ => True) :
    Moves R s (xs.mapM f) fun _ _ => True := by
  induction xs generalizing s with
  | nil => exact pure trivial
  | cons x rest ih =>
    rw [List.mapM_cons]
    apply (each x List.mem_cons_self s (refl_of R s)).bind
    intro y t moved _
    refine (ih fun z mem u more => ?_).bind fun _ _ _ _ => pure trivial
    exact each z (List.mem_cons_of_mem x mem) u (trans_of R moved more)

theorem forM {f : α → EStateM BuildError σ PUnit} {xs : List α}
    (each : ∀ x ∈ xs, ∀ t, R s t → Moves R t (f x) fun _ _ => True) :
    Moves R s (xs.forM f) fun _ _ => True := by
  induction xs generalizing s with
  | nil => exact pure trivial
  | cons x rest ih =>
    apply (each x List.mem_cons_self s (refl_of R s)).bind
    intro _ t moved _
    apply ih
    intro z mem u more
    exact each z (List.mem_cons_of_mem x mem) u (trans_of R moved more)

theorem foldlM {f : β → α → EStateM BuildError σ β} {xs : List α}
    (each : ∀ t y, ∀ x ∈ xs, Moves R t (f y x) fun _ _ => True) (y : β) :
    Moves R s (xs.foldlM f y) fun _ _ => True := by
  induction xs generalizing s y with
  | nil => exact pure trivial
  | cons x rest ih =>
    rw [List.foldlM_cons]
    apply (each s y x List.mem_cons_self).bind
    intro z t _ _
    exact ih (fun u w v mem => each u w v (List.mem_cons_of_mem x mem)) z

end Moves

end WasmBuilder
