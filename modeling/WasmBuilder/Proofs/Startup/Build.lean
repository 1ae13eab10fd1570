import WasmBuilder.Proofs.Course.Session
import WasmBuilder.Proofs.Labels.Session
import WasmBuilder.Proofs.Startup.Body

/-!
How the start statements of a build fare.

Whatever happens to a build between two bodies, its start statements go on standing for what was
contributed, with and without simplification.
-/

set_option autoImplicit false

namespace WasmBuilder

open Arena (Extends)

namespace Build

variable {b c : Build}

structure IsCalm (b : Build) : Prop where
  labelled : b.arena.Labelled
  calm : b.arena.Calm

/-- A build that came of a calm one: operations may have been carried out, and the start statements
stand for what they stood for. -/
def Retains (b c : Build) : Prop :=
  b.IsCalm → c.IsCalm ∧ b.arena.Folds c.arena ∧
    ∀ cs, b.arena.Stands cs b.startBody → c.arena.Stands cs c.startBody

namespace Retains

theorem refl (b : Build) : Retains b b := fun calm => ⟨calm, .refl _, fun _ stands => stands⟩

theorem trans {d : Build} (first : Retains b c) (second : Retains c d) : Retains b d := by
  intro calm
  obtain ⟨calm, folds, stands⟩ := first calm
  obtain ⟨calm, folds', stands'⟩ := second calm
  exact ⟨calm, folds.trans folds', fun cs before => stands' cs (stands cs before)⟩

instance : IsPreorder Build Retains where
  refl := refl
  trans _ _ _ := trans

theorem of_same (arena : c.arena = b.arena) (startBody : c.startBody = b.startBody) :
    Retains b c := by
  intro calm
  refine ⟨?_, ?_, ?_⟩
  · exact ⟨arena ▸ calm.labelled, arena ▸ calm.calm⟩
  · exact arena ▸ .refl _
  · rw [arena, startBody]
    exact fun _ stands => stands

theorem of_extends {arena : Arena} (made : b.IsCalm → Extends b.arena arena ∧ b.arena.Folds arena ∧
    arena.Calm) : Retains b { b with arena } := by
  intro calm
  obtain ⟨grown, folds, after⟩ := made calm
  exact ⟨⟨grown.labelled, after⟩, folds,
    fun cs stands => stands.of_extends calm.labelled grown folds⟩

end Retains

theorem retains_guarded {α : Type} {step : BuildM α} {Q : α → Build → Prop}
    (moves : Moves Retains b step Q) : Moves Retains b (guarded step) Q :=
  moves_guarded (fun _ => .of_same rfl rfl) moves

theorem retains_openFunction (isIndirect : Bool) (decl : FunctionDecl) :
    Moves Retains b (openFunction isIndirect decl) fun _ _ => True := by
  apply retains_guarded
  apply (moves_freshId _ _).bind
  rintro id b _ rfl
  exact Moves.get_bind (Moves.pure trivial)

theorem retains_literal (value : Number) (shape : Shape) :
    Moves Retains b (literal value shape) fun id c => c.arena.Passes id := by
  cases shape with
  | num t =>
    refine ⟨.of_extends fun calm => ⟨?_, ?_, ?_⟩, _, Arena.node_push_size _ _ _, rfl⟩
    · exact ((keeps_literal calm.labelled value (.num t)).of_ok rfl).1
    · exact (Arena.continues_push _ _ _).folds
    · exact calm.calm.push (fun _ mem => absurd mem List.not_mem_nil) _
  | none | auto | tuple | record => exact Moves.throw

theorem retains_exportAs (name : String) (callable : Nat) :
    Moves Retains b (exportAs name callable) fun _ _ => True := by
  apply Moves.get_bind
  split
  · dsimp only
    cases b.callables[callable]? with
    | none => exact ⟨.of_same rfl rfl, trivial⟩
    | some c => exact ⟨.of_same rfl rfl, trivial⟩
  · exact Moves.pure trivial

theorem retains_adopt (key : String) (library : Library) :
    Moves Retains b (adopt key library) fun _ _ => True := by
  have exported : Moves Retains b (library.entries.forM fun e => do let _ ← exportAs e.1 e.2)
      fun _ _ => True :=
    Moves.forM fun e _ _ _ => (retains_exportAs e.1 e.2).bind fun _ _ _ _ => Moves.pure trivial
  apply exported.bind
  intro _ c _ _
  exact Moves.modify (.of_same rfl rfl) trivial

theorem retains_external (decl : ExternalDecl) (host : Signature → HostFunction) :
    Moves Retains b (external decl host) fun _ _ => True := by
  unfold Moves
  rcases external_cases decl host b with ⟨e, run⟩ | ⟨id, run⟩
  · rw [run]
    exact .of_same rfl rfl
  · rw [run]
    exact ⟨.of_same rfl rfl, trivial⟩

theorem retains_setBody (ref : BodyRef) (body : List ExprId)
    (start : ref = .start → b.IsCalm → ∀ cs, b.arena.Stands cs b.startBody → b.arena.Stands cs body) :
    Retains b (b.setBody ref body) := by
  cases ref with
  | function i => exact .of_same rfl rfl
  | start => exact fun calm => ⟨⟨calm.labelled, calm.calm⟩, .refl _, start rfl calm⟩

theorem retains_simplifyBody (ref : BodyRef) (counts : SimplifyCounts) :
    Moves Retains b (simplifyBody ref counts) fun _ _ => True := by
  apply Moves.get_bind
  split
  · exact Moves.throw
  next flat flattened flattens =>
    have first : Retains b (b.setBody ref flat) := by
      apply retains_setBody
      rintro rfl _ cs stands
      exact stands.flattenBlocks flattens
    apply (Moves.modify first rfl : Moves Retains b (modify (·.setBody ref flat)) fun _ c =>
      c = b.setBody ref flat).bind
    rintro _ c _ rfl
    split
    · exact Moves.throw
    next body cut cuts =>
      have second : Retains (b.setBody ref flat) ((b.setBody ref flat).setBody ref body) := by
        apply retains_setBody
        rintro rfl calm cs stands
        exact stands.cut calm.calm cuts
      apply (Moves.modify second rfl : Moves Retains _ (modify (·.setBody ref body)) fun _ c =>
        c = (b.setBody ref flat).setBody ref body).bind
      rintro _ d _ rfl
      -- nothing is cut inside expressions, so they are written back as they were
      have adopt (s : Unreachable.State) (same : b.arena.Calm → s.arena = b.arena) :
          Moves Retains ((b.setBody ref flat).setBody ref body)
            (modify fun b => { b with arena := s.arena }) fun _ _ => True := by
        refine Moves.modify (fun calm => ?_) trivial
        have before : b.arena.Calm := by simpa using calm.calm
        refine Retains.of_same ?_ rfl calm
        simp [same before]
      have visited (calm : b.arena.Calm) := Unreachable.same_visitAll (s := ⟨b.arena, cut⟩) calm body
      split
      next e s run =>
        apply (adopt s fun calm => ?_).bind fun _ _ _ _ => Moves.throw
        rw [← (visited calm).of_error run]
      next s run =>
        apply (adopt s fun calm => ?_).bind fun _ _ _ _ => Moves.pure trivial
        rw [← ((visited calm).of_ok run).1]

theorem retains_simplify : Moves Retains b simplify fun _ _ => True := by
  apply Moves.get_bind
  have folded : Moves Retains b (modify fun c => { c with arena := b.arena.foldConstants.1 })
      fun _ _ => True := by
    refine Moves.modify (.of_extends fun calm => ?_) trivial
    obtain ⟨folds, after⟩ := calm.calm.foldConstants
    exact ⟨calm.labelled.foldConstants, folds, after⟩
  apply folded.bind
  intro _ c _ _
  exact Moves.get_bind (Moves.foldlM (fun _ counts ref _ => retains_simplifyBody ref counts) _)

theorem retains_lowered (options : CompileOptions) :
    Moves Retains b (lowered options) fun _ _ => True := by
  apply Moves.get_bind
  split
  · exact Moves.throw
  · split
    · exact Moves.throw
    · exact Moves.pure trivial

theorem retains_importing (memory : Option MemoryDecl) : Retains b (b.importing memory) := by
  rcases importing_cases b memory with same | ⟨decl, other⟩
  · rw [same]
    exact .refl b
  · rw [other]
    exact .of_same rfl rfl

theorem retains_assemble (options : CompileOptions) :
    Moves Retains b (assemble options) fun _ _ => True := by
  have finish (c : Build) : Moves Retains c (do simplifyIf options.optimize; lowered options)
      fun _ _ => True := by
    have simplified : Moves Retains c (simplifyIf options.optimize) fun _ _ => True := by
      unfold simplifyIf
      split
      · exact retains_simplify.bind fun _ _ _ _ => Moves.pure trivial
      · exact Moves.pure trivial
    exact simplified.bind fun _ _ _ _ => retains_lowered options
  unfold Moves
  rw [assemble_run]
  by_cases failed : b.failed = true
  · rw [if_pos failed]
    exact .refl b
  · rw [if_neg failed]
    have after := finish (b.importing options.memory)
    have before : Retains b (b.importing options.memory) := retains_importing options.memory
    cases run : (do simplifyIf options.optimize; lowered options : BuildM Wasm.Module)
        (b.importing options.memory) with
    | ok m c => exact ⟨before.trans (after.of_ok run).1, trivial⟩
    | error e c => exact before.trans (after.of_error run)

theorem retains_chore (chore : Chore) : Moves Retains b chore.run fun _ _ => True := by
  cases chore with
  | external decl host =>
    exact (retains_external decl host).bind fun _ _ _ _ => Moves.pure trivial
  | exportAs name callable =>
    exact (retains_exportAs name callable).bind fun _ _ _ _ => Moves.pure trivial
  | useMemory decl => exact Moves.modify (.of_same rfl rfl) trivial
  | adopt key library => exact retains_adopt key library
  | fail => exact Moves.modify (.of_same rfl rfl) trivial
  | simplify => exact retains_simplify.bind fun _ _ _ _ => Moves.pure trivial
  | assemble options => exact (retains_assemble options).bind fun _ _ _ _ => Moves.pure trivial

theorem close_function (draft : Draft) (body : Body) (b : Build) :
    (left (Opening.close (.function draft) body) b).arena = body.arena ∧
      (left (Opening.close (.function draft) body) b).startBody = b.startBody := by
  have same : left (Opening.close (.function draft) body) b = left (closeFunction draft body) b :=
    left_discard (closeFunction draft body) b
  rw [same, left, closeFunction_run]
  dsimp only
  split
  next x c run =>
    split at run
    · split at run <;> cases run
      exact ⟨rfl, rfl⟩
    · cases run
      exact ⟨rfl, rfl⟩
  next e c run =>
    split at run
    · split at run <;> cases run
      exact ⟨rfl, rfl⟩
    · cases run

end Build

end WasmBuilder
