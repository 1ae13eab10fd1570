import WasmBuilder.Proofs.Course.Later

/-!
The course of a session.

Each step of a session edits the build, seen together with what the open body made so far. An open
body is in order: it sees the functions that are declared, and binds new names where bodies of its
kind do. A function is declared when its body is closed, or when it is one of the host. All other steps
work on an open body or tidy up.
-/

set_option autoImplicit false

namespace WasmBuilder

def Opening.Suits : Opening → Body → Prop
  | .function _, body => body.fresh = .local
  | .globals, body => body.fresh = .global ∧ body.locals.size = 0

theorem Opening.Suits.later {opening : Opening} {body next : Body} (suits : opening.Suits body)
    (later : body.Later next) : opening.Suits next := by
  cases opening with
  | function => exact later.fresh.trans suits
  | globals => exact ⟨later.fresh.trans suits.1, (later.ownLocals suits.1).trans suits.2⟩

namespace Session

variable {permits : Session → Body.Step → Prop} {s t u : Session}

/-- The sessions that steps lead to from another one. -/
def Leads (permits : Session → Body.Step → Prop) : Session → Session → Prop :=
  Relation.ReflTransGen (Next permits)

def Works (permits : Session → Body.Step → Prop) : Session → Session → Prop :=
  Relation.ReflTransGen fun s t => Next permits s t ∧ s.body ≠ none ∧ t.body ≠ none

def current (s : Session) : Build :=
  match s.body with
  | none => s.build
  | some (_, body) => s.build.withBody body

theorem current_of_idle (idle : s.body = none) : s.current = s.build := by rw [current, idle]

theorem current_rebuilt (idle : s.body = none) (b : Build) (handed : List Operand) :
    Session.current ⟨b, s.body, handed⟩ = b := by rw [current, idle]

theorem current_of_busy {opening : Opening} {body : Body} (busy : s.body = some (opening, body)) :
    s.current = s.build.withBody body := by rw [current, busy]

theorem Works.leads (works : Works permits s t) : Leads permits s t := by
  induction works with
  | refl => exact .refl
  | tail _ step ih => exact ih.tail step.1

theorem Leads.mono {allows : Session → Body.Step → Prop}
    (more : ∀ s step, permits s step → allows s step) (leads : Leads permits s t) : Leads allows s t :=
  Relation.ReflTransGen.mono (fun _ _ step => step.mono more) _ _ leads

theorem Reached.leads (reached : Reached permits s) (leads : Leads permits s t) :
    Reached permits t := by
  induction leads with
  | refl => exact reached
  | tail _ step ih => exact ih.next step

theorem work_withBody (b : Build) {body next : Body} (later : body.Later next) :
    (b.withBody body).Work (b.withBody next) :=
  .mk later.continues.lasts later.globals

inductive Link (s t : Session) : Prop
  | body {opening : Opening} {body next : Body} (busy : s.body = some (opening, body))
      (still : t.body = some (opening, next)) (same : t.build = s.build) (step : Body.Step)
      (leaves : step.Leaves body next)
  | globals {defs : Bindings} (idle : s.body = none)
      (opened : t.current = { s.build with globals := s.build.globals.declareAll defs .global })
  | edits (course : s.current.Course t.current)

theorem Next.link (step : Next permits s t) : Link s t := by
  cases step with
  | openFunction idle opened =>
    obtain ⟨-, rfl, id, ⟨⟩⟩ := (Build.quiets_openFunction _ _).of_ok opened
    apply Link.edits
    rw [current_of_idle idle]
    exact .refl
  | refuse idle refused =>
    apply Link.edits
    rw [current_of_idle idle, current_rebuilt idle]
    exact ((Build.quiets_openFunction _ _).of_error refused).tidies.course
  | openGlobals idle opened =>
    cases opened
    exact .globals idle rfl
  | take busy may done => exact .body busy rfl rfl _ (.inl ⟨_, done⟩)
  | stumble busy may failed => exact .body busy rfl rfl _ (.inr ⟨_, failed⟩)
  | close busy =>
    apply Link.edits
    rw [current_of_busy busy]
    exact Build.course_close _ _
  | @abandon _ body e busy =>
    apply Link.edits
    rw [current_of_busy busy]
    exact (Build.quiets_abandon body e).tidies.course
  | literal idle made =>
    apply Link.edits
    rw [current_of_idle idle, current_rebuilt idle]
    exact ((Build.quiets_literal _ _).of_ok made).1.tidies.course
  | chore idle chore =>
    apply Link.edits
    rw [current_of_idle idle, current_rebuilt idle]
    exact Build.left_of_moves (Build.course_chore chore)

theorem Link.work_or_course (link : Link s t) :
    s.current.Work t.current ∨ s.current.Course t.current := by
  cases link with
  | body busy still same step leaves =>
    rw [current_of_busy busy, current_of_busy still, same]
    exact .inl (work_withBody _ (step.later_of_leaves leaves))
  | globals idle opened =>
    rw [current_of_idle idle, opened]
    exact .inl (.mk (.refl _) (Scope.grows_declareAll _ _ _))
  | edits course => exact .inr course

theorem Link.later (link : Link s t) : s.current.Later t.current := by
  rcases link.work_or_course with work | course
  · exact work.later
  · exact course.later

theorem Leads.later (leads : Leads permits s t) : s.current.Later t.current := by
  induction leads with
  | refl => exact .refl _
  | tail _ step ih => exact ih.trans step.link.later

/-- What belongs together in a build belongs together throughout a session. -/
theorem matched_of_reached (reached : Reached permits s) : s.current.Matched := by
  induction reached with
  | start => exact Build.matched_empty
  | next _ step matched =>
    rcases step.link.work_or_course with work | course
    · exact matched.work work
    · exact matched.course course

/-- While a body is open, it only goes on. -/
theorem Works.later (works : Works permits s t) {opening : Opening} {body : Body}
    (busy : s.body = some (opening, body)) :
    ∃ next, t.body = some (opening, next) ∧ body.Later next ∧ t.build = s.build := by
  induction works with
  | refl => exact ⟨body, busy, .refl _, rfl⟩
  | tail _ step ih =>
    obtain ⟨next, busy, later, same⟩ := ih
    obtain ⟨step, open_, still⟩ := step
    cases step with
    | openFunction idle | refuse idle | openGlobals idle | literal idle | chore idle =>
      exact absurd idle open_
    | close | abandon => exact absurd rfl still
    | take busy' may done =>
      cases busy.symm.trans busy'
      exact ⟨_, rfl, later.trans ((Body.Step.later_run _).of_ok done).1, same⟩
    | stumble busy' may failed =>
      cases busy.symm.trans busy'
      exact ⟨_, rfl, later.trans ((Body.Step.later_run _).of_error failed), same⟩

structure Orderly (s : Session) : Prop where
  callables : ∀ (opening : Opening) (body : Body), s.body = some (opening, body) →
    body.callables = s.build.callables
  suits : ∀ (opening : Opening) (body : Body), s.body = some (opening, body) → opening.Suits body

theorem orderly_of_idle (idle : s.body = none) : s.Orderly := by
  constructor <;> intro opening body busy <;> cases idle.symm.trans busy

theorem orderly_of_busy {opening : Opening} {body : Body} (busy : s.body = some (opening, body))
    (callables : body.callables = s.build.callables) (suits : opening.Suits body) : s.Orderly := by
  constructor <;> intro opening' body' busy' <;> cases busy.symm.trans busy'
  · exact callables
  · exact suits

theorem Orderly.next (orderly : s.Orderly) (step : Next permits s t) : t.Orderly := by
  have go {opening : Opening} {body next : Body} (busy : s.body = some (opening, body))
      (later : body.Later next) (handed : List Operand) :
      Orderly ⟨s.build, some (opening, next), handed⟩ :=
    orderly_of_busy rfl (later.callables.trans (orderly.callables opening body busy))
      ((orderly.suits opening body busy).later later)
  cases step with
  | openFunction idle opened =>
    obtain ⟨-, rfl, id, ⟨⟩⟩ := (Build.quiets_openFunction _ _).of_ok opened
    exact orderly_of_busy rfl rfl rfl
  | openGlobals idle opened =>
    cases opened
    exact orderly_of_busy rfl rfl ⟨rfl, rfl⟩
  | take busy may done => exact go busy ((Body.Step.later_run _).of_ok done).1 _
  | stumble busy may failed => exact go busy ((Body.Step.later_run _).of_error failed) _
  | refuse idle | literal idle | chore idle => exact orderly_of_idle idle
  | close | abandon => exact orderly_of_idle rfl

theorem orderly_of_reached (reached : Reached permits s) : s.Orderly :=
  reached.invariant (orderly_of_idle rfl) fun _ _ orderly step => orderly.next step

end Session

namespace Session

variable {permits : Session → Body.Step → Prop} {s t : Session}

inductive Deed (permits : Session → Body.Step → Prop) (s t : Session) : Prop
  | body {opening : Opening} {body next : Body} {step : Body.Step}
      (busy : s.body = some (opening, body)) (still : t.body = some (opening, next))
      (same : t.build = s.build) (may : permits s step) (leaves : step.Leaves body next)
  | globals {defs : Bindings} (idle : s.body = none)
      (opened : t.current = { s.build with globals := s.build.globals.declareAll defs .global })
  | tidy (tidies : s.current.Tidies t.current)
  | function {draft : Build.Draft} {body : Body} {kind : CallKind} {table : IndirectTable}
      {isExported : Bool} (busy : s.body = some (.function draft, body)) (idle : t.body = none)
      (closed : t.build = s.current.added (draft.function body) kind draft.decl.params table
        s.build.imports isExported)
  | external {decl : ExternalDecl} {id : String} {host : Signature → HostFunction}
      (idle : s.body = none) (idle' : t.body = none)
      (declared : t.build = s.build.added (Build.externalFunction decl id) .external decl.params
        s.build.table (s.build.imports.insert decl.key (.func (host decl.signature))) false)

theorem deed_chore (idle : s.body = none) (chore : Build.Chore) :
    Deed permits s { s with build := Build.left chore.run s.build } := by
  have tidy {c : Build} (tidies : s.build.Tidies c) : Deed permits s { s with build := c } := by
    apply Deed.tidy
    rwa [current_of_idle idle, current_rebuilt idle]
  have quiet (quiet : chore.isQuiet = true) :
      Deed permits s { s with build := Build.left chore.run s.build } :=
    tidy (Build.Quiets.tidies (Build.left_of_moves (Build.quiets_chore quiet)))
  cases chore with
  | exportAs | adopt | fail | simplify => exact quiet rfl
  | useMemory decl => exact tidy (.single (.memory decl))
  | external decl host =>
    rw [Build.Chore.run, Build.left_discard, Build.left]
    rcases Build.external_cases decl host s.build with ⟨e, failed⟩ | ⟨id, declared⟩
    · rw [failed]
      exact tidy (.single (.quiet .fail))
    · rw [declared]
      exact .external idle idle rfl
  | assemble options =>
    rw [Build.Chore.run, Build.left_discard]
    exact tidy (Build.left_of_moves (Build.tidies_assemble options))

theorem Next.deed (matched : s.current.Matched) (step : Next permits s t) : Deed permits s t := by
  have still {c : Build} {o : List Operand} (idle : s.body = none) (tidies : s.build.Tidies c) :
      Deed permits s ⟨c, s.body, o⟩ := by
    apply Deed.tidy
    rwa [current_of_idle idle, current_rebuilt idle]
  cases step with
  | openFunction idle opened =>
    obtain ⟨-, rfl, id, ⟨⟩⟩ := (Build.quiets_openFunction _ _).of_ok opened
    apply Deed.tidy
    rw [current_of_idle idle]
    exact .refl
  | refuse idle refused =>
    exact still idle ((Build.quiets_openFunction _ _).of_error refused).tidies
  | openGlobals idle opened =>
    cases opened
    exact .globals idle rfl
  | take busy may done => exact .body busy rfl rfl may (.inl ⟨_, done⟩)
  | stumble busy may failed => exact .body busy rfl rfl may (.inr ⟨_, failed⟩)
  | @close opening body busy =>
    rw [current_of_busy busy] at matched
    cases opening with
    -- a body of globals leaves start statements
    | globals =>
      apply Deed.tidy
      rw [current_of_busy busy]
      exact .single (.quiet (.startBody body.statements))
    | function draft =>
      have matched : s.build.Matched := { matched with }
      obtain ⟨kind, table, isExported, run⟩ := Build.closeFunction_eq_ok matched draft body
      apply Deed.function busy rfl
      show Build.left (do let _ ← Build.closeFunction draft body) s.build = _
      rw [Build.left_discard, Build.left, run, current_of_busy busy]
  | @abandon _ body e busy =>
    apply Deed.tidy
    rw [current_of_busy busy]
    exact (Build.quiets_abandon body e).tidies
  | literal idle made => exact still idle ((Build.quiets_literal _ _).of_ok made).1.tidies
  | chore idle chore => exact deed_chore idle chore

theorem Reached.deed (reached : Reached permits s) (step : Next permits s t) : Deed permits s t :=
  step.deed (matched_of_reached reached)

end Session

namespace Build

variable {b c : Build}

theorem Tidies.function_before (tidies : Tidies b c) {k : Nat} {g : Function}
    (there : c.functions[k]? = some g) : ∃ f, b.functions[k]? = some f ∧ f.Becomes g := by
  have inside : k < b.functions.size := by
    rw [← tidies.same.size]
    exact (Array.getElem?_eq_some_iff.1 there).1
  have here : b.functions[k]? = some b.functions[k] := Array.getElem?_eq_getElem inside
  obtain ⟨g', there', becomes⟩ := tidies.course.later.functions k _ here
  cases there.symm.trans there'
  exact ⟨_, here, becomes⟩

end Build

end WasmBuilder
