import WasmBuilder.Proofs.Startup.Build

/-!
What sessions contribute to the start of a module.

Each declaration of globals contributes what its initializer was handed to run, and the start
statements of the build stand for all of that in the order of declarations.
-/

set_option autoImplicit false

namespace WasmBuilder.Session

open Arena (Extends)

variable {s t : Session}

/-- Sessions that were reached with these contributions: those of the declarations of globals that
are done, in order, and those of the body that is open. -/
inductive Contributed : Session → List (List Contribution) → List Contribution → Prop
  | start : Contributed fresh [] []
  /-- A body is opened, or something is done between bodies. -/
  | between {s t : Session} {declared : List (List Contribution)} {own : List Contribution}
      (before : Contributed s declared own) (idle : s.body = none) (step : Next Lawful s t) :
      Contributed t declared []
  | take {s : Session} {declared : List (List Contribution)} {own : List Contribution}
      {opening : Opening} {body next : Body} {step : Body.Step} {handed : Option Operand}
      (before : Contributed s declared own) (busy : s.body = some (opening, body))
      (may : s.Lawful step) (done : step.run body = .ok handed next) :
      Contributed { s with body := some (opening, next), handed := handed.toList ++ s.handed }
        declared (own ++ step.contributions)
  | stumble {s : Session} {declared : List (List Contribution)} {own : List Contribution}
      {opening : Opening} {body next : Body} {step : Body.Step} {e : BuildError}
      (before : Contributed s declared own) (busy : s.body = some (opening, body))
      (may : s.Lawful step) (failed : step.run body = .error e next) :
      Contributed { s with body := some (opening, next) } declared own
  | closeFunction {s : Session} {declared : List (List Contribution)} {own : List Contribution}
      {draft : Build.Draft} {body : Body} (before : Contributed s declared own)
      (busy : s.body = some (.function draft, body)) :
      Contributed { s with
        build := Build.left (Opening.close (.function draft) body) s.build, body := none } declared []
  | closeGlobals {s : Session} {declared : List (List Contribution)} {own : List Contribution}
      {body : Body} (before : Contributed s declared own) (busy : s.body = some (.globals, body)) :
      Contributed { s with build := Build.left (Opening.close .globals body) s.build, body := none }
        (declared ++ [own]) []
  | abandon {s : Session} {declared : List (List Contribution)} {own : List Contribution}
      {opening : Opening} {body : Body} {e : BuildError} (before : Contributed s declared own)
      (busy : s.body = some (opening, body)) :
      Contributed { s with
        build := Build.left (Build.abandon (α := Unit) body e) s.build, body := none } declared []

theorem Contributed.reached {declared : List (List Contribution)} {own : List Contribution}
    (contributed : Contributed s declared own) : Reached Lawful s := by
  induction contributed with
  | start => exact .start
  | between _ _ step ih => exact ih.next step
  | take _ busy may done ih => exact ih.next (.take busy may done)
  | stumble _ busy may failed ih => exact ih.next (.stumble busy may failed)
  | closeFunction _ busy ih => exact ih.next (.close busy)
  | closeGlobals _ busy ih => exact ih.next (.close busy)
  | abandon _ busy ih => exact ih.next (.abandon busy)

theorem Contributed.next {declared : List (List Contribution)} {own : List Contribution}
    (before : Contributed s declared own) (step : Next Lawful s t) :
    ∃ declared own, Contributed t declared own := by
  have between (idle : s.body = none) : ∃ declared own, Contributed t declared own :=
    ⟨_, _, before.between idle step⟩
  cases step with
  | openFunction idle | refuse idle | openGlobals idle | literal idle | chore idle =>
    exact between idle
  | take busy may done => exact ⟨_, _, before.take busy may done⟩
  | stumble busy may failed => exact ⟨_, _, before.stumble busy may failed⟩
  | @close opening body busy =>
    cases opening with
    | function draft => exact ⟨_, _, before.closeFunction busy⟩
    | globals => exact ⟨_, _, before.closeGlobals busy⟩
  | abandon busy => exact ⟨_, _, before.abandon busy⟩

theorem exists_contributed (reached : Reached Lawful s) :
    ∃ declared own, Contributed s declared own := by
  induction reached with
  | start => exact ⟨[], [], .start⟩
  | next _ step ih =>
    obtain ⟨_, _, before⟩ := ih
    exact before.next step

structure Awaits (s : Session) (declared : List (List Contribution)) (own : List Contribution) :
    Prop where
  calm : s.arena.Calm
  passing : ∀ o ∈ s.handed, s.arena.Passes o.id
  startBody : s.arena.Stands declared.flatten s.build.startBody
  statements : ∀ (opening : Opening) (body : Body), s.body = some (opening, body) →
    s.arena.Stands own body.statements

theorem passes_of_handedOut (passing : ∀ o ∈ s.handed, s.arena.Passes o.id) {o : Operand}
    (out : s.HandedOut o) : s.arena.Passes o.id := by
  rcases out with given | ⟨p, given, rfl⟩
  · exact passing o given
  · exact passing p given

section
variable {declared : List (List Contribution)} {own : List Contribution}

variable (awaits : s.Awaits declared own) (sound : s.Sound)

include awaits sound

theorem Awaits.of_retains (idle : s.body = none) {b : Build} (retains : s.build.Retains b)
    {body : Option (Opening × Body)} {handed : List Operand}
    (arena : Session.arena ⟨b, body, handed⟩ = b.arena)
    (more : ∀ o ∈ handed, o ∈ s.handed ∨ b.arena.Passes o.id)
    (empty : ∀ (opening : Opening) (body' : Body), body = some (opening, body') →
      body'.statements = []) :
    Awaits ⟨b, body, handed⟩ declared [] ∧ s.arena.Folds (Session.arena ⟨b, body, handed⟩) := by
  have here := arena_of_idle idle
  obtain ⟨after, folds, stands⟩ := retains ⟨here ▸ sound.labelled, here ▸ awaits.calm⟩
  rw [← here] at folds
  refine ⟨⟨?_, ?_, ?_, ?_⟩, arena ▸ folds⟩
  · exact arena ▸ after.calm
  · intro o mem
    rw [arena]
    rcases more o mem with old | new
    · exact (awaits.passing o old).folds folds
    · exact new
  · rw [arena]
    exact stands _ (here ▸ awaits.startBody)
  · intro opening body' busy
    rw [empty opening body' busy]
    exact .nil

theorem Awaits.between (idle : s.body = none) (step : Next Lawful s t) :
    t.Awaits declared [] ∧ s.arena.Folds t.arena := by
  have closed : ∀ (opening : Opening) (body : Body), s.body = some (opening, body) →
      body.statements = [] := by
    intro opening body busy
    cases idle.symm.trans busy
  have kept (b : Build) : ∀ o ∈ s.handed, o ∈ s.handed ∨ b.arena.Passes o.id :=
    fun _ mem => .inl mem
  -- no body is open, so all that may be added is a literal
  cases step with
  | @openFunction isIndirect decl draft body b _ opened =>
    have retains := ((Build.retains_openFunction isIndirect decl).of_ok opened).1
    obtain ⟨-, rfl, id, ⟨⟩⟩ := (Build.quiets_openFunction _ _).of_ok opened
    apply awaits.of_retains sound idle retains rfl (kept _)
    rintro _ _ ⟨⟩
    rfl
  | @refuse isIndirect decl e b _ refused =>
    have retains := (Build.retains_openFunction isIndirect decl).of_error refused
    exact awaits.of_retains sound idle retains (arena_rebuilt idle b) (kept b) closed
  | @openGlobals defs body b _ opened =>
    cases opened
    have retains : s.build.Retains
        { s.build with globals := s.build.globals.declareAll defs .global } := .of_same rfl rfl
    apply awaits.of_retains sound idle retains rfl (kept _)
    rintro _ _ ⟨⟩
    rfl
  | @literal value shape id b _ made =>
    have ⟨retains, passes⟩ := (Build.retains_literal value shape).of_ok made
    apply awaits.of_retains sound idle retains
      (arena_of_idle (s := { s with build := b, handed := .plain id :: s.handed }) idle) _ closed
    intro o mem
    rcases List.mem_cons.1 mem with rfl | old
    · exact .inr passes
    · exact .inl old
  | chore _ chore =>
    have retains := Build.left_of_moves (Build.retains_chore (b := s.build) chore)
    exact awaits.of_retains sound idle retains (arena_rebuilt idle _) (kept _) closed
  | take busy | stumble busy | close busy | abandon busy => cases idle.symm.trans busy

section
variable {opening : Opening} {body next : Body} {step : Body.Step}
  (busy : s.body = some (opening, body)) (may : s.Lawful step)

include busy

theorem Awaits.of_contributes {cs : List Contribution} (contributes : body.Contributes cs next)
    (grown : Extends body.arena next.arena) {handed : List Operand}
    (more : ∀ o ∈ handed, o ∈ s.handed ∨ next.arena.Passes o.id) :
    Awaits { s with body := some (opening, next), handed } declared (own ++ cs) ∧
      s.arena.Folds next.arena := by
  have here := arena_of_busy busy
  have folds : s.arena.Folds next.arena := here ▸ contributes.continues.folds
  refine ⟨⟨contributes.calm (here ▸ awaits.calm), fun o mem => ?_, ?_, ?_⟩, folds⟩
  · rcases more o mem with old | new
    · exact (awaits.passing o old).folds folds
    · exact new
  · exact awaits.startBody.of_extends sound.labelled (here ▸ grown) folds
  · -- what stood for the contributions so far still does, and the step adds to it
    rintro _ _ ⟨⟩
    obtain ⟨added, is, stands⟩ := contributes.added
    rw [is]
    have before := awaits.statements opening body busy
    exact (before.of_extends sound.labelled (here ▸ grown) folds).append stands

include may

theorem Awaits.known : (∀ o ∈ step.operands, body.arena.Knows o) ∧
    ∀ o ∈ step.operands, body.arena.Passes o.id := by
  rw [← arena_of_busy busy]
  exact ⟨fun o mem => sound.knows_of_handedOut (may.2 o mem),
    fun o mem => passes_of_handedOut awaits.passing (may.2 o mem)⟩

theorem Awaits.take {handed : Option Operand} (done : step.run body = .ok handed next) :
    Awaits { s with body := some (opening, next), handed := handed.toList ++ s.handed } declared
      (own ++ step.contributions) ∧ s.arena.Folds next.arena := by
  have labelled : body.arena.Labelled := arena_of_busy busy ▸ sound.labelled
  have ⟨known, passing⟩ := awaits.known sound busy may
  have ⟨grown, _⟩ := (Body.Step.keeps_run labelled may.1 known).of_ok done
  have ⟨contributes, gives⟩ := Body.Step.contributes_of_ok may.1 passing done
  apply awaits.of_contributes sound busy contributes grown
  intro o mem
  rcases List.mem_append.1 mem with new | old
  · exact .inr (gives o (Option.mem_toList.1 new))
  · exact .inl old

theorem Awaits.stumble {e : BuildError} (failed : step.run body = .error e next) :
    Awaits { s with body := some (opening, next) } declared own ∧ s.arena.Folds next.arena := by
  have labelled : body.arena.Labelled := arena_of_busy busy ▸ sound.labelled
  have ⟨known, passing⟩ := awaits.known sound busy may
  have grown := (Body.Step.keeps_run labelled may.1 known).of_error failed
  have contributes := (Body.Step.tame_of_error may.1 passing failed).contributes
  have after := awaits.of_contributes sound busy contributes grown fun _ mem => .inl mem
  rwa [List.append_nil] at after

end

omit sound in
theorem Awaits.of_arena {opening : Opening} {body : Body} (busy : s.body = some (opening, body))
    {b : Build} (arena : b.arena = body.arena) {declared' : List (List Contribution)}
    (startBody : s.arena.Stands declared'.flatten b.startBody) :
    Awaits { s with build := b, body := none } declared' [] ∧ s.arena.Folds b.arena := by
  have same : b.arena = s.arena := arena.trans (arena_of_busy busy).symm
  refine ⟨⟨?_, ?_, ?_, nofun⟩, same ▸ .refl _⟩
  · exact (same ▸ awaits.calm : b.arena.Calm)
  · exact (same ▸ awaits.passing : ∀ o ∈ s.handed, b.arena.Passes o.id)
  · exact (same ▸ startBody : b.arena.Stands _ _)

end

/-- Throughout a session, the start statements stand for what was contributed. -/
theorem awaits_of_contributed {declared : List (List Contribution)} {own : List Contribution}
    (contributed : Contributed s declared own) : s.Awaits declared own := by
  induction contributed with
  | start => exact ⟨Arena.calm_empty, fun _ mem => absurd mem List.not_mem_nil, .nil, nofun⟩
  | between before idle step ih => exact (ih.between (sound_of_reached before.reached) idle step).1
  | take before busy may done ih =>
    exact (ih.take (sound_of_reached before.reached) busy may done).1
  | stumble before busy may failed ih =>
    exact (ih.stumble (sound_of_reached before.reached) busy may failed).1
  | @closeFunction s _ _ draft body before busy ih =>
    obtain ⟨arena, startBody⟩ := Build.close_function draft body s.build
    exact (ih.of_arena busy arena (startBody ▸ ih.startBody)).1
  | @closeGlobals s declared own body before busy ih =>
    apply (ih.of_arena busy rfl _).1
    rw [List.flatten_append, List.flatten_singleton]
    exact ih.startBody.append (ih.statements .globals body busy)
  | @abandon s _ _ _ body e before busy ih =>
    have arena : (Build.left (Build.abandon (α := Unit) body e) s.build).arena = body.arena := rfl
    exact (ih.of_arena busy arena ih.startBody).1

/-- No expression is replaced, but operations may be carried out. -/
theorem Next.folds (reached : Reached Lawful s) (step : Next Lawful s t) :
    s.arena.Folds t.arena := by
  obtain ⟨declared, own, contributed⟩ := exists_contributed reached
  have awaits := awaits_of_contributed contributed
  have sound := sound_of_reached reached
  cases step with
  | openFunction idle opened => exact (awaits.between sound idle (.openFunction idle opened)).2
  | refuse idle refused => exact (awaits.between sound idle (.refuse idle refused)).2
  | openGlobals idle opened => exact (awaits.between sound idle (.openGlobals idle opened)).2
  | literal idle made => exact (awaits.between sound idle (.literal idle made)).2
  | chore idle chore => exact (awaits.between sound idle (.chore idle chore)).2
  | take busy may done => exact (awaits.take sound busy may done).2
  | stumble busy may failed => exact (awaits.stumble sound busy may failed).2
  | @close opening body busy =>
    cases opening with
    | function draft =>
      obtain ⟨arena, startBody⟩ := Build.close_function draft body s.build
      exact (awaits.of_arena busy arena (startBody ▸ awaits.startBody)).2
    | globals =>
      rw [arena_of_busy busy]
      exact Arena.Folds.refl body.arena
  | @abandon _ body e busy =>
    rw [arena_of_busy busy]
    exact Arena.Folds.refl body.arena

theorem Leads.folds (reached : Reached Lawful s) (leads : Leads Lawful s t) :
    s.arena.Folds t.arena := by
  induction leads with
  | refl => exact .refl _
  | tail leads step ih => exact ih.trans (step.folds (reached.leads leads))

end WasmBuilder.Session
