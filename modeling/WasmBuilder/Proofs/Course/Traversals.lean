import WasmBuilder.Proofs.Lowering.Coincide
import WasmBuilder.Proofs.Simplify.Repeated
import WasmBuilder.Proofs.Simplify.WorkLists

/-!
All ways through the expressions of a build end.

A session that only names what was handed out keeps operands in front of the expressions that use them.
So what expressions leave and what their code is can be told by recursion on operands, and both loops
of simplification run out of work, however expressions are shared.
-/

set_option autoImplicit false

namespace WasmBuilder

namespace Arena

open Lower (Layout CodeCoincide)

/-- All ways through the expressions of a body end, at what the bounded ways answer, and meet only
expressions that are there. -/
structure Traverses (a : Arena) (body : List ExprId) : Prop where
  inside : ∀ root ∈ body, ∀ id, a.Within root id → id < a.size
  slots : ∀ root ∈ body, ∀ id, a.Within root id →
    a.slots id = (do nodeSlots a.slots id (← a.node id)) ∧
    ∀ depth, id < depth → Coincide a.size (a.slotsWithin depth id) (a.slots id)
  code : ∀ l : Layout, l.arena = a → CodeCoincide a.size (l.body body) (l.body body) ∧
    ∀ root ∈ body, ∀ id, a.Within root id →
      l.expr id = (do l.node l.expr id (← l.arena.node id)) ∧
      ∀ depth, id < depth → CodeCoincide a.size (l.exprWithin depth id) (l.expr id)
  flattens : a.Flattens body ∧ ∀ e, a.flattenBlocks body = .error e → e.Inside a.size
  visits : ∀ n, Unreachable.Visits a n body

variable {a : Arena} {body : List ExprId}

theorem Ordered.inside_of_flattenBlocks (ordered : a.Ordered) (known : ∀ id ∈ body, id < a.size)
    {e : BuildError} (failed : a.flattenBlocks body = .error e) : e.Inside a.size := by
  obtain ⟨s, run, id, rest, is, unknown⟩ := exists_stuck_of_flattenBlocks ordered known failed
  have there := (ordered.flattens known).works.inside s run
  rw [is] at there
  exact (coincide_slots ordered (there id List.mem_cons_self)).inside e unknown

theorem Ordered.traverses (ordered : a.Ordered) (known : ∀ id ∈ body, id < a.size) :
    a.Traverses body := by
  have inside : ∀ root ∈ body, ∀ id, a.Within root id → id < a.size := fun root isRoot id within =>
    Nat.lt_of_le_of_lt (ordered.within_le within) (known root isRoot)
  refine ⟨inside, fun root isRoot id within => ?_, ?_, ⟨ordered.flattens known, fun e =>
    ordered.inside_of_flattenBlocks known⟩, Unreachable.visits_of_ordered ordered known⟩
  · have there := inside root isRoot id within
    exact ⟨slots_eq ordered there, fun depth enough =>
      coincide_slotsWithin ordered there enough (Nat.lt_succ_of_lt there)⟩
  · rintro l rfl
    refine ⟨Lower.coincide_body ordered known, fun root isRoot id within => ?_⟩
    have there := inside root isRoot id within
    exact ⟨Lower.expr_eq ordered there, fun depth enough =>
      Lower.coincide_exprWithin ordered there enough (Nat.lt_succ_of_lt there)⟩

end Arena

namespace Build

variable {α β : Type} {b c : Build}

/-- A step on builds whose bodies are there. It leaves such a build with as many expressions, and fails
for nothing outside of them. -/
def Confined (m : BuildM α) : Prop := ∀ b : Build, b.Grounded →
  (∀ x c, m b = .ok x c → c.Grounded ∧ c.arena.size = b.arena.size) ∧
  ∀ e c, m b = .error e c → e.Inside b.arena.size

theorem Confined.bind {m : BuildM α} {f : α → BuildM β} (first : Confined m)
    (second : ∀ x, Confined (f x)) : Confined (m >>= f) := by
  intro b grounded
  simp only [Bind.bind, EStateM.bind]
  cases run : m b with
  | error e c =>
    refine ⟨nofun, ?_⟩
    rintro _ _ ⟨⟩
    exact (first b grounded).2 e c run
  | ok x c =>
    obtain ⟨later, size⟩ := (first b grounded).1 x c run
    rw [← size]
    exact second x c later

theorem Confined.pure (x : α) : Confined (Pure.pure x) := by
  refine fun b grounded => ⟨?_, nofun⟩
  rintro _ _ ⟨⟩
  exact ⟨grounded, rfl⟩

theorem Confined.foldlM {f : β → α → BuildM β} (each : ∀ y x, Confined (f y x)) (y : β)
    (xs : List α) : Confined (xs.foldlM f y) := by
  induction xs generalizing y with
  | nil => exact .pure y
  | cons x xs ih =>
    rw [List.foldlM_cons]
    exact (each y x).bind ih

theorem confined_of_trims {m : BuildM α} (trims : ∀ b, Moves Trims b m fun _ _ => True)
    (inside : ∀ b : Build, b.Grounded → ∀ e c, m b = .error e c → e.Inside b.arena.size) :
    Confined m := by
  refine fun b grounded => ⟨fun x c done => ?_, inside b grounded⟩
  have wanes : Wanes b c := .of_trims ((trims b).of_ok done).1
  exact ⟨grounded.wanes wanes, wanes.sheds.size⟩

theorem confined_simplifyBody (ref : BodyRef) (counts : SimplifyCounts) :
    Confined (simplifyBody ref counts) := by
  refine confined_of_trims (fun b => trims_simplifyBody ref counts) fun b grounded e c failed => ?_
  have ordered := grounded.ordered
  cases flattened : b.arena.flattenBlocks (b.bodyOf ref) with
  | error e' =>
    have seen : (get : BuildM Build) b = .ok b b := rfl
    simp only [simplifyBody, bind, EStateM.bind, seen, flattened] at failed
    cases failed
    exact ordered.inside_of_flattenBlocks (grounded.roots ref) flattened
  | ok answer =>
    -- nothing fails behind flattening
    obtain ⟨flat, n⟩ := answer
    have kept : ∀ x ∈ b.arena.upToReturn flat, x < b.arena.size :=
      fun x mem => grounded.flattened flattened x ((b.arena.upToReturn_prefix flat).subset mem)
    obtain ⟨t, visited⟩ := (ordered.traverses kept).visits (b.arena.lost flat) |>.answers
    cases failed.symm.trans (simplifyBody_run flattened (Arena.cut_eq kept) visited counts)

theorem Grounded.reduced (grounded : b.Grounded) : b.reduced.Grounded := by
  have sheds := Arena.sheds_foldConstants b.arena
  exact grounded.grows (grounded.ordered.sheds sheds) (Nat.le_of_eq sheds.size.symm)
    fun ref => by cases ref <;> rfl

theorem confined_simplify : Confined simplify := by
  refine confined_of_trims (fun b => trims_simplify) fun b grounded e c failed => ?_
  have size : b.reduced.arena.size = b.arena.size := (Arena.sheds_foldConstants b.arena).size
  rw [← size]
  exact (Confined.foldlM (fun counts ref => confined_simplifyBody ref counts) _ _
    b.reduced grounded.reduced).2 e c failed

theorem confined_lowered (options : CompileOptions) : Confined (lowered options) := by
  refine confined_of_trims (fun b => (trims_lowered options).weaken fun _ _ _ _ => trivial)
    fun b grounded e c failed => ?_
  rw [lowered_run] at failed
  cases run : b.lower options.tableExport with
  | error e' =>
    rw [run] at failed
    cases failed
    exact (grounded.coincide_lower options.tableExport).inside e run
  | ok m =>
    rw [run] at failed
    dsimp only at failed
    split at failed <;> cases failed
    trivial

theorem confined_finish (options : CompileOptions) :
    Confined (do simplifyIf options.optimize; lowered options) := by
  refine .bind ?_ fun _ => confined_lowered options
  unfold simplifyIf
  split
  · exact confined_simplify.bind fun _ => .pure _
  · exact .pure _

theorem Grounded.inside_of_compile (grounded : b.Grounded) {options : CompileOptions} {e : BuildError}
    (failed : compile options b = .error e c) : e.Inside b.arena.size := by
  rw [compile_run] at failed
  have failed : assemble options b = .error e c := by
    cases run : assemble options b with
    | error e' d =>
      rw [run] at failed
      cases failed
      rfl
    | ok m d =>
      rw [run] at failed
      cases failed
  rw [assemble_run] at failed
  split at failed
  · cases failed
    trivial
  · have same : (b.importing options.memory).arena = b.arena ∧ (b.importing options.memory).Grounded := by
      rcases importing_cases b options.memory with is | ⟨decl, is⟩ <;> rw [is]
      · exact ⟨rfl, grounded⟩
      · exact ⟨rfl, grounded.grows grounded.ordered (Nat.le_refl _) fun ref => by cases ref <;> rfl⟩
    rw [← same.1]
    exact (confined_finish options _ same.2).2 e c failed

end Build

namespace Session

variable {s : Session}

/-- Operands always come before the expressions that use them, what is handed out and what bodies are
made of is there, and all ways through such expressions end. Simplifying and compiling never fail for
an expression without an end, or for one that is not there. -/
theorem traversals_end (reached : Reached Handing s) :
    s.arena.Ordered ∧
    (∀ o, s.HandedOut o → o.id < s.arena.size) ∧
    (∀ ref, ∀ id ∈ s.current.bodyOf ref, id < s.arena.size) ∧
    (∀ opening body, s.body = some (opening, body) → ∀ id ∈ body.statements, id < s.arena.size) ∧
    (∀ body, (∀ id ∈ body, id < s.arena.size) → s.arena.Traverses body) ∧
    (s.body = none → ∀ e c, (Build.simplify s.build = .error e c → e.Inside s.arena.size) ∧
      ∀ options, Build.compile options s.build = .error e c → e.Inside s.arena.size) := by
  have grounded := grounded_of_reached reached
  have ordered : s.arena.Ordered := arena_current s ▸ grounded.current.ordered
  refine ⟨ordered, fun o => grounded.lt_size, ?_, ?_, fun body known => ordered.traverses known, ?_⟩
  · rw [← arena_current]
    exact grounded.current.roots
  · intro opening body busy
    rw [arena_of_busy busy]
    exact (grounded.body busy).statements
  · intro idle e c
    have build := grounded.build idle
    rw [arena_of_idle idle]
    exact ⟨(Build.confined_simplify s.build build).2 e c, fun options => build.inside_of_compile⟩

def doubled : Build where
  arena := ⟨#[⟨.nop, some .none⟩, ⟨.block [0, 0] .none, some .none⟩, ⟨.block [1, 1] .none, some .none⟩]⟩
  startBody := [2, 2]

theorem reached_doubled : ∃ handed, Reached Handing ⟨doubled, none, handed⟩ := by
  let body (n : Nat) (statements : List ExprId) : Body :=
    { arena := ⟨doubled.arena.entries.take n⟩, globals := {}, callables := #[], locals := {},
      fresh := .global, result := .none, statements }
  have opened : Reached Handing ⟨{}, some (.globals, body 0 []), []⟩ :=
    Reached.start.next (.openGlobals rfl (rfl : Build.openGlobals [] _ = _))
  have first : Reached Handing ⟨{}, some (.globals, body 1 []), [.plain 0]⟩ :=
    opened.take rfl (.raw .nop .none) (by simp [Handing, Body.Step.operands, Node.children]) rfl
  have second : Reached Handing ⟨{}, some (.globals, body 2 []), [.plain 1, .plain 0]⟩ :=
    first.take rfl (.raw (.block [0, 0] .none) .none)
      (by simp [Handing, Body.Step.operands, HandedOut, Node.children]) rfl
  have third : Reached Handing ⟨{}, some (.globals, body 3 []), [.plain 2, .plain 1, .plain 0]⟩ :=
    second.take rfl (.raw (.block [1, 1] .none) .none)
      (by simp [Handing, Body.Step.operands, HandedOut, Node.children]) rfl
  have filled : Reached Handing
      ⟨{}, some (.globals, body 3 [2, 2]), [.plain 2, .plain 1, .plain 0]⟩ :=
    third.take rfl (.exec [2, 2]) (by simp [Handing, Body.Step.operands, HandedOut]) rfl
  exact ⟨_, filled.close rfl rfl⟩

/-- Three expressions, and a loop that takes the first one off its stack eight times. -/
theorem traversals_end_of_doubled : ∃ s : Session, Reached Handing s ∧ s.build = doubled ∧
    s.arena.Ordered ∧ Acc (fun t u => s.arena.Turn u t) ([2, 2], [], 0) ∧
    Relation.ReflTransGen s.arena.Turn ([2, 2], [], 0) ([], List.replicate 8 0, 6) ∧
    Acc (fun p q => Unreachable.Turn q p) ([2, 2], ⟨s.arena, 0⟩) ∧
    Relation.ReflTransGen Unreachable.Turn ([2, 2], ⟨s.arena, 0⟩) ([], ⟨s.arena, 0⟩) := by
  obtain ⟨handed, reached⟩ := reached_doubled
  obtain ⟨ordered, -, bodies, -, traverses, -⟩ := traversals_end reached
  obtain ⟨-, -, -, ⟨flattens, -⟩, visits⟩ := traverses [2, 2] (bodies .start)
  exact ⟨_, reached, rfl, ordered, flattens.works.ends, (flattens.done _ _).1 rfl,
    (visits 0).works.ends, ((visits 0).done _).1 rfl⟩

end Session

end WasmBuilder
