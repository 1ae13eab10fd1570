import WasmBuilder.Proofs.Course.Candid
import WasmBuilder.Proofs.Simplify.Expansion
import WasmBuilder.Proofs.Startup.Returns

/-!
What simplification spares.

Constants take the place of operations on constants, and only nodes with statement lists get shorter.
So an operation stays as it is when its left operand is neither an operation nor a constant, and so does
a body that is one return. What the rest of a session does adds to a build. A function that is made of
such expressions keeps its code whatever else is declared, simplified and compiled.
-/

set_option autoImplicit false

namespace WasmBuilder

namespace Arena

variable {a c d : Arena} {id : ExprId} {node : Node}

/-- A node that simplification leaves alone: nothing is carried out in it, and it has no list that gets
shorter. -/
def Spared (a : Arena) : Node → Prop
  | .binary _ left _ => ∃ n, a.node left = .ok n ∧ n.isFixed = true ∧ ∀ v, n ≠ .const v
  | node => node.isFixed = true

theorem spared_of_fixed (fixed : node.isFixed = true) : a.Spared node := by
  cases node <;> first | exact fixed | cases fixed

theorem Spared.shorten (spared : a.Spared node) (kept : List ExprId) : node.shorten kept = node := by
  cases node <;> first | rfl | cases spared

theorem Spared.foldNode? (spared : a.Spared node) : a.foldNode? node = none := by
  cases node with
  | binary op left right =>
    obtain ⟨n, here, -, noConstant⟩ := spared
    cases found : a.constant? left with
    | none => simp [Arena.foldNode?, found]
    | some v =>
      cases here.symm.trans (constant?_eq_some_iff.1 found)
      exact absurd rfl (noConstant v)
  | unary => cases spared
  | _ => rfl

def Endures (a c : Arena) : Prop :=
  ∀ (id : ExprId) (node : Node), a.node id = .ok node → a.Spared node → c.node id = .ok node

namespace Endures

theorem refl (a : Arena) : Endures a a := fun _ _ here _ => here

theorem fixed (endures : Endures a c) (here : a.node id = .ok node) (fixed : node.isFixed = true) :
    c.node id = .ok node := endures id node here (spared_of_fixed fixed)

theorem spared (endures : Endures a c) (spared : a.Spared node) : c.Spared node := by
  cases node with
  | binary op left right =>
    obtain ⟨n, here, fixed, noConstant⟩ := spared
    exact ⟨n, endures.fixed here fixed, fixed, noConstant⟩
  | _ => exact spared

theorem trans (first : Endures a c) (second : Endures c d) : Endures a d :=
  fun id node here spared => second id node (first id node here spared) (first.spared spared)

/-- Another node in the place of one that is not left alone. -/
theorem set {entry new : Entry} (here : a.entries[id]? = some entry)
    (same : a.Spared entry.node → new.node = entry.node) :
    Endures a ⟨a.entries.setIfInBounds id new⟩ := by
  intro other node found spared
  rw [node_setIfInBounds here]
  split
  next is =>
    cases found.symm.trans (is ▸ node_eq_ok_iff.2 ⟨entry.label, here⟩)
    rw [same spared]
  next => exact found

end Endures

theorem Continues.endures (continues : Continues a c) : Endures a c :=
  fun id node here _ => continues id node here

theorem endures_foldAt (state : Arena × Nat) (id : ExprId) : Endures state.1 (foldAt state id).1 := by
  obtain ⟨a, count⟩ := state
  simp only [foldAt]
  cases here : a.entries[id]? with
  | none => exact .refl a
  | some entry =>
    cases folded : a.foldNode? entry.node with
    | none =>
      simp only [folded]
      exact .refl a
    | some v =>
      simp only [folded]
      exact .set here fun spared => by cases folded.symm.trans spared.foldNode?

theorem endures_foldConstants (a : Arena) : Endures a a.foldConstants.1 := by
  have sweep (ids : List ExprId) (state : Arena × Nat) :
      Endures state.1 (ids.foldl foldAt state).1 := by
    induction ids generalizing state with
    | nil => exact .refl _
    | cons id rest ih => exact (endures_foldAt state id).trans (ih _)
  exact sweep (List.range a.size) (a, 0)

theorem flattenBlocks_return {value : Option ExprId} (here : a.node id = .ok (.ret value))
    {flat : List ExprId} {n : Nat} (done : a.flattenBlocks [id] = .ok (flat, n)) : flat = [id] := by
  have expansion : a.Expansion [id] flat n := expansion_of_flattenBlocks done
  cases expansion with
  | keep _ behind =>
    cases behind
    rfl
  | splice groups =>
    obtain ⟨shape, there, -⟩ := groups
    cases here.symm.trans there

end Arena

namespace Unreachable

variable {s : State} {id : ExprId}

def State.Endures (s t : State) : Prop := s.arena.Endures t.arena

instance : IsPreorder State State.Endures where
  refl s := .refl s.arena
  trans _ _ _ := .trans

theorem endures_ask {α : Type} (question : Arena → Except BuildError α) :
    Moves State.Endures s (ask question) fun x t => t = s ∧ question s.arena = .ok x := by
  apply Moves.get_bind
  cases question s.arena with
  | ok x => exact Moves.pure ⟨rfl, rfl⟩
  | error e => exact Moves.throw

theorem endures_cutList (list : List ExprId) :
    Moves State.Endures s (cutList id list) fun _ _ => True := by
  apply (endures_ask _).bind
  rintro ⟨kept, n⟩ s _ ⟨rfl, -⟩
  dsimp only
  split
  · apply (endures_ask _).bind
    rintro node s _ ⟨rfl, here⟩
    apply (endures_ask _).bind
    rintro arena s _ ⟨rfl, done⟩
    obtain ⟨label, found⟩ := Arena.node_eq_ok_iff.1 here
    cases done.symm.trans (Arena.replace_eq_ok found _)
    have cut : State.Endures s ⟨⟨s.arena.entries.setIfInBounds id ⟨node.shorten kept, label⟩⟩,
        s.removed + n⟩ := Arena.Endures.set found fun spared => spared.shorten kept
    exact (Moves.modify (P := fun _ _ => True) cut trivial).bind fun _ _ _ _ => Moves.pure trivial
  · exact Moves.pure trivial

theorem endures_cutLists (lists : List (List ExprId)) :
    Moves State.Endures s (cutLists id lists) fun _ _ => True := by
  induction lists generalizing s with
  | nil => exact Moves.pure trivial
  | cons list rest ih =>
    apply (endures_cutList list).bind
    intro _ t _ _
    exact ih.bind fun _ _ _ _ => Moves.pure trivial

theorem endures_visitWithin (depth : Nat) (id : ExprId) :
    Moves State.Endures s (visitWithin depth id) fun _ _ => True := by
  induction depth generalizing s id with
  | zero => exact Moves.throw
  | succ depth ih =>
    apply (endures_ask _).bind
    rintro node s _ -
    apply (endures_cutLists _).bind
    intro nested t _ _
    exact Moves.forM fun child _ u _ => ih child

theorem endures_visitAll (body : List ExprId) :
    Moves State.Endures s (visitAll body) fun _ _ => True :=
  Moves.get_bind (Moves.forM fun id _ _ _ => endures_visitWithin _ id)

end Unreachable

namespace Build

variable {b c d : Build}

/-- The expressions that are left alone are still there, and so are the functions whose bodies are one
return. -/
structure Endures (b c : Build) : Prop where
  arena : b.arena.Endures c.arena
  functions : ∀ (k : Nat) (f : Function) (scope : Scope) (id : ExprId) (value : Option ExprId),
    b.functions[k]? = some f → f.kind = .defined scope [id] → b.arena.node id = .ok (.ret value) →
      c.functions[k]? = some f

namespace Endures

theorem refl (b : Build) : Endures b b := ⟨.refl _, fun _ _ _ _ _ here _ _ => here⟩

theorem trans (first : Endures b c) (second : Endures c d) : Endures b d where
  arena := first.arena.trans second.arena
  functions k f scope id value here kind returns :=
    second.functions k f scope id value (first.functions k f scope id value here kind returns) kind
      (first.arena.fixed returns rfl)

instance : IsPreorder Build Endures where
  refl := refl
  trans _ _ _ := trans

theorem of_continues (continues : b.arena.Continues c.arena)
    (functions : ∀ (k : Nat) (f : Function), b.functions[k]? = some f → c.functions[k]? = some f) :
    Endures b c :=
  ⟨continues.endures, fun k f _ _ _ here _ _ => functions k f here⟩

theorem of_same (arena : c.arena = b.arena) (functions : c.functions = b.functions) : Endures b c :=
  .of_continues (arena ▸ .refl _) fun _ _ here => functions ▸ here

/-- Another list for a body, unless this is one return. -/
theorem setBody (ref : BodyRef) (body : List ExprId)
    (same : ∀ id value, b.bodyOf ref = [id] → b.arena.node id = .ok (.ret value) → body = [id]) :
    Endures b (b.setBody ref body) := by
  cases ref with
  | start => exact of_same rfl rfl
  | function i =>
    refine ⟨.refl _, fun k f scope id value here kind returns => ?_⟩
    simp only [Build.setBody, Array.getElem?_modify, here]
    split
    next is =>
      obtain ⟨name, params, result, kind'⟩ := f
      cases kind
      have own : b.bodyOf (.function i) = [id] := by simp only [bodyOf, is, here]
      rw [same id value own returns]
      rfl
    next => rfl

end Endures

theorem endures_simplifyBody (ref : BodyRef) (counts : SimplifyCounts) :
    Moves Endures b (simplifyBody ref counts) fun _ _ => True := by
  apply Moves.get_bind
  split
  · exact Moves.throw
  next flat flattened done =>
    have whole (id : ExprId) (value : Option ExprId) (own : b.bodyOf ref = [id])
        (returns : b.arena.node id = .ok (.ret value)) : flat = [id] :=
      Arena.flattenBlocks_return returns (own ▸ done)
    have flattens : Endures b (b.setBody ref flat) := .setBody ref flat whole
    apply (Moves.modify flattens rfl : Moves Endures b (modify (·.setBody ref flat)) fun _ c =>
      c = b.setBody ref flat).bind
    rintro _ c _ rfl
    split
    · exact Moves.throw
    next body cut done =>
      have cuts : Endures (b.setBody ref flat) ((b.setBody ref flat).setBody ref body) := by
        -- a body that cannot be set is still the one that was flattened
        refine .setBody ref body fun id value own returns => ?_
        rw [arena_setBody] at returns
        have is : flat = [id] := by
          rcases bodyOf_setBody (b := b) ref flat ref with same | ⟨-, same⟩
          · exact whole id value (same.symm.trans own) returns
          · exact same.symm.trans own
        rw [is, Arena.cut_cons_of_return returns] at done
        cases done
        rfl
      apply (Moves.modify cuts rfl : Moves Endures _ (modify (·.setBody ref body)) fun _ c =>
        c = (b.setBody ref flat).setBody ref body).bind
      rintro _ d _ rfl
      have visited := Unreachable.endures_visitAll (s := ⟨b.arena, cut⟩) body
      -- what was cut stays cut when a visit fails later
      have adopt (s : Unreachable.State) (endures : b.arena.Endures s.arena) :
          Moves Endures ((b.setBody ref flat).setBody ref body)
            (modify fun b => { b with arena := s.arena }) fun _ _ => True := by
        refine Moves.modify ⟨?_, fun _ _ _ _ _ here _ _ => here⟩ trivial
        rw [arena_setBody, arena_setBody]
        exact endures
      split
      next e s run => exact (adopt s (visited.of_error run)).bind fun _ _ _ _ => Moves.throw
      next s run => exact (adopt s (visited.of_ok run).1).bind fun _ _ _ _ => Moves.pure trivial

theorem endures_simplify : Moves Endures b simplify fun _ _ => True := by
  apply Moves.get_bind
  have folded : Moves Endures b (modify fun c => { c with arena := b.arena.foldConstants.1 })
      fun _ _ => True :=
    Moves.modify ⟨Arena.endures_foldConstants _, fun _ _ _ _ _ here _ _ => here⟩ trivial
  apply folded.bind
  intro _ c _ _
  exact Moves.get_bind (Moves.foldlM (fun _ counts ref _ => endures_simplifyBody ref counts) _)

theorem endures_assemble (options : CompileOptions) :
    Moves Endures b (assemble options) fun _ _ => True := by
  have imported : Endures b (b.importing options.memory) := by
    rcases importing_cases b options.memory with is | ⟨decl, is⟩ <;> rw [is]
    · exact .refl b
    · exact .of_same rfl rfl
  have finish : Moves Endures (b.importing options.memory)
      (do simplifyIf options.optimize; lowered options) fun _ _ => True := by
    have simplified : Moves Endures (b.importing options.memory) (simplifyIf options.optimize)
        fun _ _ => True := by
      unfold simplifyIf
      split
      · exact endures_simplify.bind fun _ _ _ _ => Moves.pure trivial
      · exact Moves.pure trivial
    apply simplified.bind
    intro _ c _ _
    apply Moves.get_bind
    split
    · exact Moves.throw
    · split
      · exact Moves.throw
      · exact Moves.pure trivial
  unfold Moves
  rw [assemble_run]
  cases b.failed with
  | true => exact .refl b
  | false =>
    rw [if_neg Bool.false_ne_true]
    cases run : (do simplifyIf options.optimize; lowered options : BuildM Wasm.Module)
        (b.importing options.memory) with
    | ok m c => exact ⟨imported.trans (finish.of_ok run).1, trivial⟩
    | error e c => exact imported.trans (finish.of_error run)

theorem endures_exportAs (name : String) (callable : Nat) :
    Moves Endures b (exportAs name callable) fun _ _ => True := by
  apply Moves.get_bind
  split
  · dsimp only
    split <;> exact ⟨.of_same rfl rfl, trivial⟩
  · exact Moves.pure trivial

theorem endures_adopt (key : String) (library : Library) :
    Moves Endures b (adopt key library) fun _ _ => True := by
  have exported : Moves Endures b (library.entries.forM fun e => do let _ ← exportAs e.1 e.2)
      fun _ _ => True :=
    Moves.forM fun e _ _ _ => (endures_exportAs e.1 e.2).bind fun _ _ _ _ => Moves.pure trivial
  exact exported.bind fun _ _ _ _ => Moves.modify (.of_same rfl rfl) trivial

theorem endures_chore (chore : Chore) : Endures b (left chore.run b) := by
  cases chore with
  | external decl host =>
    rw [Chore.run, left_discard, left]
    rcases external_cases decl host b with ⟨e, run⟩ | ⟨id, run⟩ <;> rw [run]
    · exact .of_same rfl rfl
    · exact .of_continues (.refl _) fun k f here => getElem?_push_of_some here _
  | exportAs name callable =>
    rw [Chore.run, left_discard]
    exact left_of_moves (endures_exportAs name callable)
  | useMemory | fail => exact .of_same rfl rfl
  | adopt key library => exact left_of_moves (endures_adopt key library)
  | simplify =>
    rw [Chore.run, left_discard]
    exact left_of_moves endures_simplify
  | assemble options =>
    rw [Chore.run, left_discard]
    exact left_of_moves (endures_assemble options)

theorem endures_openFunction (isIndirect : Bool) (decl : FunctionDecl) :
    Moves Endures b (openFunction isIndirect decl) fun _ _ => True := by
  apply moves_guarded (fun _ => .of_same rfl rfl)
  apply (moves_freshId _ _).bind
  rintro id b _ rfl
  exact Moves.get_bind (Moves.pure trivial)

theorem endures_close (opening : Opening) (body : Body) :
    Endures (b.withBody body) (left (opening.close body) b) := by
  apply Endures.of_continues
  · rw [arena_close]
    exact .refl _
  · intro k f here
    cases opening with
    | globals => exact here
    | function draft =>
      have pushed (g : Function) : (b.functions.push g)[k]? = some f := getElem?_push_of_some here g
      rw [show left (Opening.close (.function draft) body) b = left (closeFunction draft body) b from
        left_discard (closeFunction draft body) b, left, closeFunction_run]
      dsimp only
      cases draft.isIndirect with
      | false => exact pushed _
      | true =>
        simp only [if_true]
        split
        next run => split at run <;> cases run; exact pushed _
        next run => split at run <;> cases run; exact here

end Build

namespace Session

variable {permits : Session → Body.Step → Prop} {s t : Session}

theorem Next.endures (step : Next permits s t) : s.current.Endures t.current := by
  have goes {opening : Opening} {body next : Body} (busy : s.body = some (opening, body))
      (later : body.Later next) (handed : List Operand) :
      s.current.Endures (Session.current ⟨s.build, some (opening, next), handed⟩) := by
    rw [current_of_busy busy]
    exact .of_continues later.continues fun _ _ here => here
  -- steps of a body only add; the rest replaces nodes that were spared
  cases step with
  | openFunction idle opened =>
    obtain ⟨-, rfl, id, ⟨⟩⟩ := (Build.quiets_openFunction _ _).of_ok opened
    rw [current_of_idle idle]
    exact .of_same rfl rfl
  | refuse idle refused =>
    rw [current_of_idle idle, current_rebuilt idle]
    exact (Build.endures_openFunction _ _).of_error refused
  | openGlobals idle opened =>
    cases opened
    rw [current_of_idle idle]
    exact .of_same rfl rfl
  | take busy may done => exact goes busy ((Body.Step.later_run _).of_ok done).1 _
  | stumble busy may failed => exact goes busy ((Body.Step.later_run _).of_error failed) _
  | @close opening body busy =>
    rw [current_of_busy busy, current_of_idle rfl]
    exact Build.endures_close opening body
  | abandon busy =>
    rw [current_of_busy busy, current_of_idle rfl]
    exact .of_same rfl rfl
  | literal idle made =>
    obtain ⟨type, rfl, rfl, rfl⟩ := Build.literal_eq_ok made
    rw [current_of_idle idle, current_rebuilt idle]
    exact .of_continues (Arena.continues_push _ _ _) fun _ _ here => here
  | chore idle chore =>
    rw [current_of_idle idle, current_rebuilt idle]
    exact Build.endures_chore chore

theorem Leads.endures (leads : Leads permits s t) : s.current.Endures t.current := by
  induction leads with
  | refl => exact .refl _
  | tail _ step ih => exact ih.trans step.endures

end Session

end WasmBuilder
