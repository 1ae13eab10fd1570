import WasmBuilder.Build.Compile
import WasmBuilder.Proofs.Declarations.Ledger
import WasmBuilder.Proofs.Lowering.Causes

/-!
Failed declarations along whole runs.

A declaration that fails leaves the lists of the build alone, wherever in it the failure is found, and
the build is marked from then on: nothing is compiled of it any more, and only of such a build is
nothing compiled for that reason.
-/

set_option autoImplicit false

namespace WasmBuilder.Build

def Contained (b c : Build) : Prop :=
  ∃ arena globals, c = { b with arena, globals, failed := true }

variable {b c : Build} {α : Type} {e : BuildError}

theorem contained_define {isIndirect : Bool} {decl : FunctionDecl} {init : BodyM α}
    (failed : define isIndirect decl init b = .error e c) : Contained b c := by
  rw [define_run] at failed
  rcases openFunction_cases isIndirect decl b with ⟨e', refused⟩ | ⟨id, _, _, opened⟩
  · rw [refused] at failed
    cases failed
    exact ⟨b.arena, b.globals, rfl⟩
  · rw [opened] at failed
    dsimp only at failed
    split at failed
    next e' body _ =>
      cases failed
      exact ⟨body.arena, body.globals, rfl⟩
    next a body _ =>
      -- the table refuses a function that is there already
      rw [closeFunction_run] at failed
      cases isIndirect with
      | false => cases failed
      | true =>
        dsimp only at failed
        rw [if_pos rfl] at failed
        cases appended : (b.withBody body).table.append (b.withBody body).functions.size id
            decl.params body.finalResult with
        | ok table =>
          rw [appended] at failed
          cases failed
        | error e' =>
          rw [appended] at failed
          cases failed
          exact ⟨body.arena, body.globals, rfl⟩

theorem contained_external {decl : ExternalDecl} {host : Signature → HostFunction}
    (failed : external decl host b = .error e c) : Contained b c := by
  rcases external_cases decl host b with ⟨e', refused⟩ | ⟨id, declared⟩
  · rw [refused] at failed
    cases failed
    exact ⟨b.arena, b.globals, rfl⟩
  · rw [declared] at failed
    cases failed

theorem contained_declareGlobals {defs : Bindings} {init : BodyM α}
    (failed : declareGlobals defs init b = .error e c) : Contained b c := by
  rw [declareGlobals_run] at failed
  dsimp only at failed
  split at failed
  · cases failed
  next e' body _ =>
    cases failed
    exact ⟨body.arena, body.globals, rfl⟩

theorem eq_of_mount_error {key : String} {inside : List Operation}
    {outcome : Except BuildError Library}
    (failed : (Operation.mount key inside outcome).run b = .error e c) :
    b.mounted? key = none ∧ c = { runAll inside b with failed := true } := by
  rw [mount_run] at failed
  cases known : b.mounted? key with
  | some library =>
    rw [known] at failed
    cases failed
  | none =>
    rw [known] at failed
    cases outcome with
    | error e' =>
      cases failed
      exact ⟨rfl, rfl⟩
    | ok library =>
      obtain ⟨d, run, -⟩ := turns_adopt key library (runAll inside b)
      cases run.symm.trans failed

theorem Turn.failed_iff {now : List Event} (turn : Turn b now c) :
    c.failed = true ↔ b.failed = true ∨ ∃ e, .failed e ∈ now := by
  cases turn with
  | steady _ steady => simp [steady.failed]
  | fail => simp
  | direct | indirect | external => simp [added]
  | exported | dropped => simp

theorem Turns.failed_iff {now : List Event} (turns : Turns b now c) :
    c.failed = true ↔ b.failed = true ∨ ∃ e, .failed e ∈ now := by
  induction turns with
  | refl => simp
  | tail _ turn ih =>
    rw [turn.failed_iff, ih]
    simp only [List.mem_append, exists_or, or_assoc]

theorem compile_of_failed (failed : b.failed = true) (options : CompileOptions) :
    compile options b = .error .aborted b := by
  simp only [compile, bind, EStateM.bind, assemble_run, failed]
  rfl

theorem start_of_failed (failed : b.failed = true) (options : CompileOptions)
    (bounds : Wasm.Bounds) (journal : List HostCall) :
    start options bounds (b, journal) = .error (.build .aborted) (b, journal) := by
  rw [start, compile_of_failed failed]

theorem compile_ne_aborted (usable : b.failed = false) (options : CompileOptions) :
    compile options b ≠ .error .aborted c := by
  intro aborted
  have failed : assemble options b = .error .aborted c := by
    simp only [compile, bind, EStateM.bind] at aborted
    cases run : assemble options b with
    | ok m d =>
      rw [run] at aborted
      cases aborted
    | error e d =>
      rw [run] at aborted
      cases aborted
      rfl
  cases blames_assemble usable failed

/-- What a failure of each kind of declaration leaves of a build. -/
structure FailsSafely (b : Build) : Prop where
  define : ∀ (isIndirect : Bool) (decl : FunctionDecl) (init : Initializer) (e : BuildError)
    (c : Build), define isIndirect decl init.run b = .error e c → Contained b c
  external : ∀ (decl : ExternalDecl) (host : Signature → HostFunction) (e : BuildError) (c : Build),
    external decl host b = .error e c → Contained b c
  globals : ∀ (defs : Bindings) (init : Initializer) (e : BuildError) (c : Build),
    declareGlobals defs init.run b = .error e c → Contained b c
  mount : ∀ (key : String) (inside : List Operation) (outcome : Except BuildError Library)
    (e : BuildError) (c : Build), (Operation.mount key inside outcome).run b = .error e c →
      c = { runAll inside b with failed := true }

/-- Failed declarations are contained and final: in every run they add nothing to the lists of the
build, the build is marked exactly when a declaration or a library has failed, and only then and from
then on it compiles no more for that. -/
theorem failures_contained_and_final (ops more : List Operation) :
    FailsSafely (runAll ops {}) ∧
      ((runAll ops {}).failed = true ↔ ∃ e, .failed e ∈ eventsAll ops {}) ∧
      ((runAll ops {}).failed = true → (runAll (ops ++ more) {}).failed = true) ∧
      ((runAll ops {}).failed = true → ∀ (options : CompileOptions) (bounds : Wasm.Bounds)
        (journal : List HostCall), compile options (runAll ops {}) = .error .aborted (runAll ops {}) ∧
          start options bounds (runAll ops {}, journal) =
            .error (.build .aborted) (runAll ops {}, journal)) ∧
      ((runAll ops {}).failed = false → ∀ (options : CompileOptions) (c : Build),
        compile options (runAll ops {}) ≠ .error .aborted c) := by
  refine ⟨⟨?_, ?_, ?_, ?_⟩, ?_, ?_, ?_, ?_⟩
  · exact fun _ _ _ _ _ failed => contained_define failed
  · exact fun _ _ _ _ failed => contained_external failed
  · exact fun _ _ _ _ failed => contained_declareGlobals failed
  · exact fun _ _ _ _ _ failed => (eq_of_mount_error failed).2
  · rw [(turns_runAll ops {}).failed_iff]
    simp
  · rw [runAll_append]
    exact (turns_runAll more _).later.failed
  · intro failed options bounds journal
    exact ⟨compile_of_failed failed options, start_of_failed failed options bounds journal⟩
  · exact fun usable options c => compile_ne_aborted usable options

end WasmBuilder.Build
