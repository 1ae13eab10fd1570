import WasmBuilder.Proofs.Course.Pieces
import WasmBuilder.Proofs.Course.Session
import WasmBuilder.Proofs.Labels.Session

/-!
Labels throughout a session, or a part of it, without raw nodes.

A step may name any expressions from some point on, also ones that are not there, but looks at fields
only through views that were handed out. From this point on labels stay true then. What an expression
leaves it leaves for good, whatever steps a session takes.
-/

set_option autoImplicit false

namespace WasmBuilder

namespace Arena

variable {a : Arena}

/-- What a view is handed out through is what the expression leaves. -/
theorem Hands.slots {o : Operand} (hands : a.Hands o) (tells : a.Tells o.id) {shape : Shape}
    (view : o.shape? = some shape) : a.slots o.id = .ok shape.flatten := by
  obtain ⟨other, label, slots⟩ := tells
  cases label.symm.trans (hands.view shape view)
  exact slots

end Arena

namespace Body

variable {step : Step} {b c : Body} {first : ExprId}

theorem Step.plain_of_returned {last : ExprId} (returned : last ∈ step.returned) :
    .plain last ∈ step.operands := by
  cases step with
  | giveResult values =>
    exact List.mem_map_of_mem (List.mem_of_getLast? (Option.mem_toList.1 returned))
  | _ => cases returned

/-- A step that adds no node with a label of its own making, names no expression before this one, and
looks at fields only through shapes of the numbers that expressions leave. -/
structure Trusts (first : ExprId) (step : Step) (b : Body) : Prop where
  notRaw : step.isRaw = false
  behind : ∀ o ∈ step.operands, first ≤ o.id
  views : ∀ (id : ExprId) (shape : Shape), .view id shape ∈ step.operands →
    b.arena.slots id = .ok shape.flatten

theorem Trusts.retains (trusts : Trusts first step b) (retains : b.arena.Retains c.arena) :
    Trusts first step c :=
  ⟨trusts.notRaw, trusts.behind, fun id shape mem => retains.slots id _ (trusts.views id shape mem)⟩

namespace Piece

theorem retains (piece : Piece step b c) : b.arena.Retains c.arena := by
  cases piece with
  | push => exact (Arena.continues_push _ _ _).retains
  | scopes | append => exact .refl _
  | result _ _ _ done => exact (Arena.continues_relabel done).1.retains

theorem truthful (piece : Piece step b c) (trusts : Trusts first step b)
    (truthful : b.arena.Truthful first) : c.arena.Truthful first := by
  cases piece with
  | push _ told =>
    have tells (o : Operand) (mem : o ∈ step.operands) (old : o.id < b.arena.size) :=
      truthful o.id old (trusts.behind o mem)
    exact truthful.push (told trusts.notRaw ⟨tells, trusts.views⟩)
  | scopes | append => exact truthful
  | result returns _ settled done =>
    have named := Step.plain_of_returned (returns ▸ List.mem_singleton_self _)
    exact Arena.Truthful.relabel done truthful
      (truthful.slots_of_settle (trusts.behind _ named) settled)

end Piece

namespace Pieces

theorem retains (pieces : Pieces step b c) : b.arena.Retains c.arena := by
  induction pieces with
  | refl => exact .refl _
  | tail _ piece ih => exact ih.trans piece.retains

theorem truthful (pieces : Pieces step b c) (trusts : Trusts first step b)
    (truthful : b.arena.Truthful first) : c.arena.Truthful first := by
  induction pieces with
  | refl => exact truthful
  | tail before piece ih => exact piece.truthful (trusts.retains (Pieces.retains before)) ih

end Pieces

end Body

namespace Build

variable {b : Build}

def Alike (b c : Build) : Prop := b.arena.Alike c.arena

instance : IsPreorder Build Alike where
  refl b := .refl b.arena
  trans _ _ _ first second := Arena.Alike.trans first second

theorem alike_of_arena_eq {c : Build} (same : c.arena = b.arena) : b.Alike c := by
  rw [Alike, same]
  exact .refl _

theorem alike_simplifyBody (ref : BodyRef) (counts : SimplifyCounts) :
    Moves Alike b (simplifyBody ref counts) fun _ _ => True := by
  have set (b : Build) (body : List ExprId) :
      Moves Alike b (modify (·.setBody ref body)) fun _ c => c.arena = b.arena :=
    Moves.modify (alike_of_arena_eq (arena_setBody ref body)) (arena_setBody ref body)
  apply Moves.get_bind
  split
  · exact Moves.throw
  next flat flattened _ =>
    apply (set b flat).bind
    intro _ c _ same
    split
    · exact Moves.throw
    next body cut _ =>
      apply (set c body).bind
      intro _ d _ same'
      have visited := Unreachable.alike_visitAll (s := ⟨b.arena, cut⟩) body
      have adopt (s : Unreachable.State) (alike : b.arena.Alike s.arena) :
          Moves Alike d (modify fun b => { b with arena := s.arena }) fun _ _ => True := by
        refine Moves.modify ?_ trivial
        show d.arena.Alike s.arena
        rw [same'.trans same]
        exact alike
      split
      next e s run => exact (adopt s (visited.of_error run)).bind fun _ _ _ _ => Moves.throw
      next s run => exact (adopt s (visited.of_ok run).1).bind fun _ _ _ _ => Moves.pure trivial

theorem alike_simplify : Moves Alike b simplify fun _ _ => True := by
  apply Moves.get_bind
  have folded : Moves Alike b (modify fun c => { c with arena := b.arena.foldConstants.1 })
      fun _ _ => True := Moves.modify (Arena.alike_foldConstants b.arena) trivial
  apply folded.bind
  intro _ c _ _
  exact Moves.get_bind (Moves.foldlM (fun _ counts ref _ => alike_simplifyBody ref counts) _)

theorem alike_assemble (options : CompileOptions) :
    Moves Alike b (assemble options) fun _ _ => True := by
  have imported : b.Alike (b.importing options.memory) := by
    apply alike_of_arena_eq
    rcases importing_cases b options.memory with is | ⟨decl, is⟩ <;> rw [is]
    rfl
  have simplified : Moves Alike (b.importing options.memory) (simplifyIf options.optimize)
      fun _ _ => True := by
    unfold simplifyIf
    split
    · exact alike_simplify.bind fun _ _ _ _ => Moves.pure trivial
    · exact Moves.pure trivial
  have made (c : Build) : Moves Alike c (lowered options) fun _ _ => True := by
    unfold Moves
    rw [lowered_run]
    cases c.lower options.tableExport with
    | error e => exact refl_of Alike c
    | ok m =>
      dsimp only
      split
      next run => split at run <;> cases run; exact ⟨refl_of Alike c, trivial⟩
      next run => split at run <;> cases run; exact refl_of Alike c
  have finish := simplified.bind fun _ c _ _ => made c
  apply Moves.intro
  · intro m c done
    rw [assemble_run] at done
    split at done
    · cases done
    · exact ⟨imported.trans (finish.of_ok done).1, trivial⟩
  · intro e c failed
    rw [assemble_run] at failed
    split at failed
    · cases failed
      exact refl_of Alike b
    · exact imported.trans (finish.of_error failed)

theorem alike_exportAs (name : String) (callable : Nat) :
    Moves Alike b (exportAs name callable) fun _ _ => True := by
  apply Moves.get_bind
  split
  · dsimp only
    split <;> exact ⟨alike_of_arena_eq rfl, trivial⟩
  · exact Moves.pure trivial

theorem alike_chore (chore : Chore) : b.Alike (left chore.run b) := by
  cases chore with
  | external decl host =>
    rw [Chore.run, left_discard, left]
    rcases external_cases decl host b with ⟨e, run⟩ | ⟨id, run⟩ <;> rw [run] <;>
      exact alike_of_arena_eq rfl
  | exportAs name callable =>
    rw [Chore.run, left_discard]
    exact left_of_moves (alike_exportAs name callable)
  | useMemory | fail => exact alike_of_arena_eq rfl
  | adopt key library =>
    have exported : Moves Alike b (library.entries.forM fun e => do let _ ← exportAs e.1 e.2)
        fun _ _ => True :=
      Moves.forM fun e _ _ _ => (alike_exportAs e.1 e.2).bind fun _ _ _ _ => Moves.pure trivial
    have adopted : Moves Alike b (adopt key library) fun _ _ => True :=
      exported.bind fun _ _ _ _ => Moves.modify (alike_of_arena_eq rfl) trivial
    exact left_of_moves adopted
  | simplify =>
    rw [Chore.run, left_discard]
    exact left_of_moves alike_simplify
  | assemble options =>
    rw [Chore.run, left_discard]
    exact left_of_moves (alike_assemble options)

/-- Closing or giving up a body takes over its expressions, and adds none. -/
theorem arena_close (opening : Opening) (body : Body) (b : Build) :
    (left (opening.close body) b).arena = body.arena := by
  cases opening with
  | globals => rfl
  | function draft =>
    have same : left (Opening.close (.function draft) body) b = left (closeFunction draft body) b :=
      left_discard (closeFunction draft body) b
    rw [same, left, closeFunction_run]
    dsimp only
    cases draft.isIndirect with
    | false => rfl
    | true =>
      simp only [if_true]
      split
      next run => split at run <;> cases run; rfl
      next run => split at run <;> cases run; rfl

theorem arena_openFunction {isIndirect : Bool} {decl : FunctionDecl} {draft : Draft} {body : Body}
    {c : Build} (opened : openFunction isIndirect decl b = .ok (draft, body) c) :
    c = b ∧ body.arena = b.arena ∧ body.result = decl.result ∧ draft.decl = decl ∧
      draft.isIndirect = isIndirect := by
  obtain ⟨-, rfl, id, is⟩ := (quiets_openFunction isIndirect decl).of_ok opened
  cases is
  exact ⟨rfl, rfl, rfl, rfl, rfl⟩

theorem alike_openFunction (isIndirect : Bool) (decl : FunctionDecl) :
    Moves Alike b (openFunction isIndirect decl) fun _ _ => True := by
  have failed (c : Build) : c.Alike { c with failed := true } := alike_of_arena_eq rfl
  apply moves_guarded failed
  apply (moves_freshId _ _).bind
  rintro id b _ rfl
  exact Moves.get_bind (Moves.pure trivial)

theorem literal_eq_ok {value : Number} {shape : Shape} {id : ExprId} {c : Build}
    (made : literal value shape b = .ok id c) : ∃ type, shape = .num type ∧ id = b.arena.size ∧
      c = { b with arena := b.arena.push (.const (.ofNumber value type)) (some (.num type)) } := by
  cases shape with
  | num type =>
    cases made
    exact ⟨type, rfl, rfl, rfl⟩
  | none | auto | tuple | record => cases made

end Build

namespace Session

/-- A step that adds no node with a label of its own making, names no expression before this one, and
looks at fields only through views that were handed out. It may name expressions that are not there. -/
structure Candid (first : ExprId) (s : Session) (step : Body.Step) : Prop where
  notRaw : step.isRaw = false
  behind : ∀ o ∈ step.operands, first ≤ o.id
  views : ∀ (id : ExprId) (shape : Shape), .view id shape ∈ step.operands →
    .view id shape ∈ s.handed

/-- From this expression on, labels are true and views are through what their expressions leave. -/
structure Truthful (s : Session) (first : ExprId) : Prop where
  arena : s.arena.Truthful first
  views : ∀ (id : ExprId) (shape : Shape), .view id shape ∈ s.handed → first ≤ id →
    s.arena.slots id = .ok shape.flatten

variable {permits : Session → Body.Step → Prop} {s t : Session} {first : ExprId}

theorem arena_handing (idle : s.body = none) (b : Build) (handed : List Operand) :
    Session.arena ⟨b, s.body, handed⟩ = b.arena :=
  arena_of_idle (s := ⟨b, s.body, handed⟩) idle

/-- What expressions leave they leave after every step of a session. -/
theorem Next.retains (step : Next permits s t) : s.arena.Retains t.arena := by
  cases step with
  | openFunction idle opened =>
    obtain ⟨-, same, -⟩ := Build.arena_openFunction opened
    rw [arena_of_idle idle, ← same]
    exact .refl _
  | refuse idle refused =>
    rw [arena_of_idle idle, arena_rebuilt idle]
    exact ((Build.alike_openFunction _ _).of_error refused).retains
  | openGlobals idle opened =>
    cases opened
    rw [arena_of_idle idle]
    exact .refl _
  | @take _ body _ step _ busy may done =>
    rw [arena_of_busy busy]
    exact ((step.pieces_run body).of_ok done).1.retains
  | @stumble _ body _ step _ busy may failed =>
    rw [arena_of_busy busy]
    exact ((step.pieces_run body).of_error failed).retains
  | @close opening body busy =>
    rw [arena_of_busy busy, ← Build.arena_close opening body s.build]
    exact .refl _
  | abandon busy =>
    rw [arena_of_busy busy]
    exact .refl _
  | literal idle made =>
    obtain ⟨type, rfl, rfl, rfl⟩ := Build.literal_eq_ok made
    rw [arena_of_idle idle, arena_handing idle]
    exact (Arena.continues_push _ _ _).retains
  | chore idle chore =>
    rw [arena_of_idle idle, arena_rebuilt idle]
    exact (Build.alike_chore chore).retains

theorem Leads.retains (leads : Leads permits s t) : s.arena.Retains t.arena := by
  induction leads with
  | refl => exact .refl _
  | tail _ step ih => exact ih.trans step.retains

theorem Next.handed_old (step : Next permits s t) (old : ∀ o ∈ s.handed, o.id < s.arena.size) :
    ∀ o ∈ t.handed, o.id < t.arena.size := by
  have still {o : Operand} (mem : o ∈ s.handed) : o.id < t.arena.size :=
    Nat.lt_of_lt_of_le (old o mem) step.retains.size_le
  intro o mem
  cases step with
  | take busy may done =>
    obtain ⟨-, hands⟩ := (Body.Step.pieces_run _ _).of_ok done
    rcases List.mem_append.1 mem with new | before
    · exact (hands o (Option.mem_toList.1 new)).old
    · exact still before
  | literal idle made =>
    obtain ⟨type, rfl, rfl, rfl⟩ := Build.literal_eq_ok made
    rcases List.mem_cons.1 mem with rfl | before
    · rw [arena_handing idle, Arena.size_push]
      exact Nat.lt_succ_self _
    · exact still before
  | openFunction | refuse | openGlobals | stumble | close | abandon | chore => exact still mem

theorem handed_old_of_reached (reached : Reached permits s) : ∀ o ∈ s.handed, o.id < s.arena.size :=
  reached.invariant (fun _ mem => nomatch mem) fun _ _ old step => step.handed_old old

theorem Truthful.hand (truthful : t.arena.Truthful first) (before : s.Truthful first)
    (kept : s.arena.Retains t.arena) {handed : Option Operand} (hands : ∀ o ∈ handed, t.arena.Hands o)
    (is : t.handed = handed.toList ++ s.handed) : t.Truthful first := by
  refine ⟨truthful, fun id shape mem from_ => ?_⟩
  rcases List.mem_append.1 (is ▸ mem) with new | old
  · have hands := hands _ (Option.mem_toList.1 new)
    exact hands.slots (truthful id hands.old from_) rfl
  · exact kept.slots id _ (before.views id shape old from_)

theorem Truthful.build (truthful : s.Truthful first) (idle : s.body = none) :
    s.build.arena.Truthful first := by
  rw [← arena_of_idle idle]
  exact truthful.arena

theorem Truthful.body (truthful : s.Truthful first) {opening : Opening} {body : Body}
    (busy : s.body = some (opening, body)) : body.arena.Truthful first := by
  rw [← arena_of_busy busy]
  exact truthful.arena

theorem Truthful.trusts (truthful : s.Truthful first) {opening : Opening} {body : Body}
    (busy : s.body = some (opening, body)) {step : Body.Step} (may : s.Candid first step) :
    Body.Trusts first step body := by
  refine ⟨may.notRaw, may.behind, fun id shape mem => ?_⟩
  rw [← arena_of_busy busy]
  exact truthful.views id shape (may.views id shape mem) (may.behind _ mem)

theorem Truthful.next (truthful : s.Truthful first) (step : Next (Candid first) s t) :
    t.Truthful first := by
  have kept := step.retains
  have still (labels : t.arena.Truthful first) (same : t.handed = s.handed) : t.Truthful first :=
    ⟨labels, fun id shape mem from_ => kept.slots id _ (truthful.views id shape (same ▸ mem) from_)⟩
  cases step with
  | openFunction idle opened =>
    obtain ⟨-, same, -⟩ := Build.arena_openFunction opened
    have labels := truthful.build idle
    rw [← same] at labels
    exact still labels rfl
  | refuse idle refused =>
    refine still ?_ rfl
    rw [arena_rebuilt idle]
    exact ((Build.alike_openFunction _ _).of_error refused).truthful (truthful.build idle)
  | openGlobals idle opened =>
    cases opened
    exact still (truthful.build idle) rfl
  -- the only steps that add expressions, apart from literals
  | @take _ body _ step _ busy may done =>
    obtain ⟨pieces, hands⟩ := (step.pieces_run body).of_ok done
    exact .hand (pieces.truthful (truthful.trusts busy may) (truthful.body busy)) truthful kept hands rfl
  | @stumble _ body _ step _ busy may failed =>
    have pieces := (step.pieces_run body).of_error failed
    exact still (pieces.truthful (truthful.trusts busy may) (truthful.body busy)) rfl
  | @close opening body busy =>
    have labels := truthful.body busy
    rw [← Build.arena_close opening body s.build] at labels
    exact still labels rfl
  | abandon busy => exact still (truthful.body busy) rfl
  | @literal value _ _ _ idle made =>
    obtain ⟨type, rfl, rfl, rfl⟩ := Build.literal_eq_ok made
    have leaves : Arena.nodeSlots s.build.arena.slots s.build.arena.size
        (.const (.ofNumber value type)) = .ok (Shape.num type).flatten := by
      simp [Arena.nodeSlots, pure, Except.pure]
    refine ⟨?_, fun id shape mem from_ => kept.slots id _ (truthful.views id shape ?_ from_)⟩
    · rw [arena_handing idle]
      exact (truthful.build idle).push leaves
    · rcases List.mem_cons.1 mem with is | old
      · cases is
      · exact old
  | chore idle chore =>
    refine still ?_ rfl
    rw [arena_rebuilt idle]
    exact (Build.alike_chore chore).truthful (truthful.build idle)

/-- What steps name no expression before, and add no raw nodes behind, is labelled truly. -/
theorem Truthful.leads (truthful : s.Truthful first) (leads : Leads (Candid first) s t) :
    t.Truthful first := by
  induction leads with
  | refl => exact truthful
  | tail _ step ih => exact ih.next step

theorem truthful_of_size_le (reached : Reached permits s) (le : s.arena.size ≤ first) :
    s.Truthful first := by
  constructor
  · exact fun id old from_ => absurd old (Nat.not_lt.2 (Nat.le_trans le from_))
  · intro id shape mem from_
    exact absurd (handed_old_of_reached reached _ mem) (Nat.not_lt.2 (Nat.le_trans le from_))

theorem truthful_of_reached (reached : Reached (Candid first) s) : s.Truthful first := by
  induction reached with
  | start => exact truthful_of_size_le (@Reached.start (Candid first)) (Nat.zero_le first)
  | next _ step ih => exact ih.next step

end Session

end WasmBuilder
