import WasmBuilder.Build.Basic
import WasmBuilder.Simplify.Constants
import WasmBuilder.Simplify.Blocks
import WasmBuilder.Simplify.Unreachable

/-!
Simplifying a whole build: constants first, then for each body in declaration order, and last for
the start statements, grouping blocks and unreachable statements.
-/

set_option autoImplicit false

namespace WasmBuilder

structure SimplifyCounts where
  folded : Nat := 0
  removed : Nat := 0
  flattened : Nat := 0
  deriving DecidableEq, Repr

namespace Build

/-- A statement list of the build: the body of a function, or the start statements. -/
inductive BodyRef where
  | function (index : Nat)
  | start

def bodyOf (b : Build) : BodyRef → List ExprId
  | .function i =>
    match b.functions[i]? with
    | some ⟨_, _, _, .defined _ body⟩ => body
    | _ => []
  | .start => b.startBody

def Function.withBody (f : Function) (body : List ExprId) : Function :=
  match f.kind with
  | .defined scope _ => { f with kind := .defined scope body }
  | .imported _ => f

def setBody (b : Build) (ref : BodyRef) (body : List ExprId) : Build :=
  match ref with
  | .function i => { b with functions := b.functions.modify i fun f => Function.withBody f body }
  | .start => { b with startBody := body }

def bodyRefs (b : Build) : List BodyRef :=
  ((List.range b.functions.size).filter fun i =>
    (b.functions[i]?.map (!·.isImported)).getD false).map .function ++ [BodyRef.start]

/-- Simplifies one body. What was done before a failure stays done. -/
def simplifyBody (ref : BodyRef) (counts : SimplifyCounts) : BuildM SimplifyCounts := do
  let b ← get
  match b.arena.flattenBlocks (b.bodyOf ref) with
  | .error e => throw e
  | .ok (flat, flattened) =>
    modify (·.setBody ref flat)
    match b.arena.cut flat with
    | .error e => throw e
    | .ok (body, cut) =>
      modify (·.setBody ref body)
      match (Unreachable.visitAll body).run ⟨b.arena, cut⟩ with
      | .error e s =>
        modify fun b => { b with arena := s.arena }
        throw e
      | .ok _ s =>
        modify fun b => { b with arena := s.arena }
        return { counts with
          removed := counts.removed + s.removed
          flattened := counts.flattened + flattened }

def simplify : BuildM SimplifyCounts := do
  let (arena, folded) := (← get).arena.foldConstants
  modify fun b => { b with arena }
  let refs := (← get).bodyRefs
  refs.foldlM (fun counts ref => simplifyBody ref counts) { folded }

end Build

end WasmBuilder
