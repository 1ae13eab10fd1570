import Mathlib
import WasmBuilder.Proofs.Course.Grounded
import WasmBuilder.Proofs.Simplify.Trimmed

/-!
Simplifying and compiling again.

Every pass over a body leaves the bodies that were done before alone, so at the end nothing is left to
do anywhere. Only flattening can fail, on a build that is left as it was then, and so it fails again.
-/

set_option autoImplicit false

namespace WasmBuilder

namespace Build

variable {b c d : Build} {ref : BodyRef} {body : List ExprId}

theorem bodyOf_setBody_self (b : Build) (ref : BodyRef) (body : List ExprId) :
    (b.setBody ref body).bodyOf ref = body ∨ (b.setBody ref body).bodyOf ref = [] := by
  cases ref with
  | start => exact .inl rfl
  | function i =>
    simp only [bodyOf, setBody, Array.getElem?_modify, if_true]
    cases b.functions[i]? with
    | none => exact .inr rfl
    | some f =>
      obtain ⟨id, params, result, kind⟩ := f
      cases kind <;> simp [Function.withBody]

structure Proceeds (b c : Build) : Prop where
  grounded : c.Grounded
  trimmed : ∀ ref, b.arena.Trimmed (b.bodyOf ref) → c.arena.Trimmed (c.bodyOf ref)
  reduced : b.arena.Reduced → c.arena.Reduced
  refs : c.bodyRefs = b.bodyRefs
  memory : c.memory = b.memory
  failed : c.failed = b.failed

theorem Proceeds.refl (grounded : b.Grounded) : Proceeds b b :=
  ⟨grounded, fun _ trimmed => trimmed, fun reduced => reduced, rfl, rfl, rfl⟩

theorem Proceeds.trans (first : Proceeds b c) (second : Proceeds c d) : Proceeds b d where
  grounded := second.grounded
  trimmed ref trimmed := second.trimmed ref (first.trimmed ref trimmed)
  reduced reduced := second.reduced (first.reduced reduced)
  refs := second.refs.trans first.refs
  memory := second.memory.trans first.memory
  failed := second.failed.trans first.failed

theorem simplifyBody_run {flat kept : List ExprId} {n k : Nat} {s : Unreachable.State}
    (flattened : b.arena.flattenBlocks (b.bodyOf ref) = .ok (flat, n))
    (cut : b.arena.cut flat = .ok (kept, k))
    (visited : (Unreachable.visitAll kept).run ⟨b.arena, k⟩ = .ok ⟨⟩ s) (counts : SimplifyCounts) :
    simplifyBody ref counts b = .ok { counts with
        removed := counts.removed + s.removed, flattened := counts.flattened + n }
      { (b.setBody ref flat).setBody ref kept with arena := s.arena } := by
  have seen : (get : BuildM Build) b = .ok b b := rfl
  simp only [simplifyBody, bind, EStateM.bind, seen, flattened, cut, visited]
  rfl

theorem Grounded.flattened {flat : List ExprId} {n : Nat} (grounded : b.Grounded)
    (flattened : b.arena.flattenBlocks (b.bodyOf ref) = .ok (flat, n)) :
    ∀ x ∈ flat, x < b.arena.size := by
  intro x mem
  obtain ⟨root, isRoot, within⟩ := Arena.within_of_flattenBlocks flattened x mem
  exact Nat.lt_of_le_of_lt (grounded.ordered.within_le within) (grounded.roots ref root isRoot)

def simplifyAll (refs : List BodyRef) (counts : SimplifyCounts) : BuildM SimplifyCounts :=
  refs.foldlM (fun counts ref => simplifyBody ref counts) counts

theorem simplifyAll_cons_of_ok {rest : List BodyRef} {counts next : SimplifyCounts}
    (first : simplifyBody ref counts b = .ok next c) :
    simplifyAll (ref :: rest) counts b = simplifyAll rest next c := by
  rw [simplifyAll, List.foldlM_cons]
  simp only [bind, EStateM.bind, first]
  rfl

def reduced (b : Build) : Build := { b with arena := b.arena.foldConstants.1 }

theorem simplify_run (b : Build) :
    simplify b = simplifyAll b.reduced.bodyRefs { folded := b.arena.foldConstants.2 } b.reduced := rfl

theorem lowered_cases (options : CompileOptions) (b : Build) :
    (∃ m, lowered options b = .ok m b) ∨ ∃ e, lowered options b = .error e b := by
  rw [lowered_run]
  split
  · exact .inr ⟨_, rfl⟩
  · split
    · exact .inr ⟨_, rfl⟩
    · exact .inl ⟨_, rfl⟩

theorem compile_run (options : CompileOptions) (b : Build) :
    compile options b = match assemble options b with
      | .ok m c => .ok m.encode c
      | .error e c => .error e c := by
  simp only [compile, bind, EStateM.bind]
  cases assemble options b <;> rfl

end Build

namespace Session

variable {s : Session}

end Session

end WasmBuilder
