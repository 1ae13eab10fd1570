import WasmBuilder.Proofs.Lowering.Depth
import WasmBuilder.Proofs.Lowering.Streams
import WasmBuilder.Proofs.Lowering.Variables

/-!
Scratch locals from spill to spill.

The composite of a field is lowered before scratch locals are taken for it, and these are given back
before anything else is lowered. So spills of nested composites stand one behind the other in the
stream, each takes its locals when all are free, and nothing is written between its first store and its
last reload but what it stores.
-/

set_option autoImplicit false

namespace WasmBuilder

namespace Lower

open Wasm (Instr Word)
open Wasm.Instr (wordsSeq wordsSeq_append wordsSeq_map)

/-- What happens to the scratch locals when a run of numbers is spilled: free ones of their types are
taken, these and no others are in use, and then all are free again. -/
structure Spill.Takes (x : Spill) (s u : LowerState) : Prop where
  free : s.Free
  taken : ∃ t, x.types.mapM acquire s = .ok (x.numbers, t) ∧
    (∀ i y, t.scratch[i]? = some y → (y.busy = true ↔ i ∈ x.numbers)) ∧
    x.numbers.forM release t = .ok ((), u)
  freed : u.Free
  kept : s.scratchTypes <+: u.scratchTypes
  typed : List.Forall₂ (fun i type => u.scratchTypes[i]? = some type) x.numbers x.types
  distinct : x.numbers.Nodup

/-- The scratch locals from spill to spill. -/
inductive Runs : LowerState → List Spill → LowerState → Prop
  | done {s t : LowerState} (same : t.scratch = s.scratch) : Runs s [] t
  | spill {s t u v : LowerState} {x : Spill} {rest : List Spill} (same : t.scratch = s.scratch)
      (takes : x.Takes t u) (others : Runs u rest v) : Runs s (x :: rest) v

namespace Runs

variable {s t u : LowerState} {xs ys : List Spill} {x : Spill}

theorem of_scratch (same : t.scratch = s.scratch) (runs : Runs t xs u) : Runs s xs u := by
  cases runs with
  | done last => exact .done (last.trans same)
  | spill first takes others => exact .spill (first.trans same) takes others

theorem append (first : Runs s xs t) (second : Runs t ys u) : Runs s (xs ++ ys) u := by
  induction first with
  | done same => exact second.of_scratch same
  | spill same takes _ ih => exact .spill same takes (ih second)

theorem split (runs : Runs s (xs ++ x :: ys) u) :
    ∃ a b, Runs s xs a ∧ x.Takes a b ∧ Runs b ys u := by
  induction xs generalizing s with
  | nil =>
    cases runs with
    | spill same takes others => exact ⟨_, _, .done same, takes, others⟩
  | cons y rest ih =>
    cases runs with
    | spill same takes others =>
      obtain ⟨a, b, before, here, behind⟩ := ih others
      exact ⟨a, b, .spill same takes before, here, behind⟩

theorem free (runs : Runs s xs t) (start : s.Free) : t.Free := by
  induction runs with
  | done same =>
    intro i y here
    rw [same] at here
    exact start i y here
  | spill _ takes _ ih => exact ih takes.freed

theorem kept (runs : Runs s xs t) : s.scratchTypes <+: t.scratchTypes := by
  induction runs with
  | done same =>
    unfold LowerState.scratchTypes
    rw [same]
  | spill same takes _ ih =>
    refine .trans ?_ (takes.kept.trans ih)
    unfold LowerState.scratchTypes
    rw [same]

end Runs

def Logs {α : Type} (m : LowerM α) (P : List Spill → α → Prop) : Prop :=
  ∀ (s : LowerState) (a : α) (t : LowerState), s.Free → m s = .ok (a, t) →
    ∃ xs, Runs s xs t ∧ P xs a

namespace Logs

variable {α β : Type} {P : List Spill → α → Prop} {Q : List Spill → β → Prop}

theorem pure {a : α} (holds : P [] a) : Logs (Pure.pure a) P := by
  rintro s _ _ _ ⟨⟩
  exact ⟨[], .done rfl, holds⟩

theorem throw_bind {e : BuildError} {f : α → LowerM β} : Logs (MonadExcept.throw e >>= f) Q := by
  intro s x t _ done
  cases done

theorem lift (e : Except BuildError α) : Logs (liftM e) fun xs a => xs = [] ∧ e = .ok a := by
  intro s a t _ done
  cases e with
  | error e => cases done
  | ok b =>
    cases done
    exact ⟨[], .done rfl, rfl, rfl⟩

theorem of_same {m : LowerM α} (same : ∀ s a t, m s = .ok (a, t) → t.scratch = s.scratch) :
    Logs m fun xs _ => xs = [] :=
  fun s a t _ done => ⟨[], .done (same s a t done), rfl⟩

theorem weaken {P' : List Spill → α → Prop} {m : LowerM α} (logs : Logs m P)
    (implies : ∀ xs a, P xs a → P' xs a) : Logs m P' := by
  intro s a t free done
  obtain ⟨xs, runs, holds⟩ := logs s a t free done
  exact ⟨xs, runs, implies xs a holds⟩

theorem bind {m : LowerM α} {f : α → LowerM β} (first : Logs m P)
    (second : ∀ a xs, P xs a → Logs (f a) fun ys b => Q (xs ++ ys) b) : Logs (m >>= f) Q := by
  intro s b u free done
  obtain ⟨a, t, run, rest⟩ := bind_eq_ok.1 done
  obtain ⟨xs, runs, holds⟩ := first s a t free run
  obtain ⟨ys, others, result⟩ := second a xs holds t b u (runs.free free) rest
  exact ⟨xs ++ ys, runs.append others, result⟩

theorem bind_pure {m : LowerM α} {f : α → β} (first : Logs m P)
    (implies : ∀ a xs, P xs a → Q xs (f a)) : Logs (m >>= fun a => Pure.pure (f a)) Q :=
  first.bind fun a xs holds => .pure ((List.append_nil xs).symm ▸ implies a xs holds)

end Logs

theorem logs_intern (signature : Signature) : Logs (intern signature) fun xs _ => xs = [] := by
  refine .of_same fun s i t done => ?_
  unfold intern at done
  split at done <;> cases done <;> rfl

section
variable {l : Layout} {lower : ExprId → LowerM (List Instr)}
  (each : ∀ id, Logs (lower id) (Coded l))

include each

end

variable (l : Layout)

/-- Stores write the locals of a spill, the last one first, and reloads write nothing. -/
theorem Spill.targets (x : Spill) (base : Nat) :
    (x.stores base ++ x.reloads base).filterMap Word.target? = (x.locals base).reverse := by
  have stored (ks : List Nat) :
      (ks.map fun k => Word.single (.localSet k)).filterMap Word.target? = ks := by
    rw [List.filterMap_map]
    exact List.filterMap_some
  have loaded (ks : List Nat) :
      (ks.map fun k => Word.single (.localGet k)).filterMap Word.target? = [] := by
    rw [List.filterMap_map]
    exact List.filterMap_eq_nil_iff.2 fun _ _ => rfl
  rw [List.filterMap_append, stores, reloads, stored, loaded, List.append_nil]

section
variable (l : Layout) (shapes : List Shape)

theorem scratchBase_withVariables :
    (l.withVariables shapes).scratchBase = (shapes.flatMap Shape.flatten).length :=
  Shape.sum_width shapes

end

end Lower

end WasmBuilder
