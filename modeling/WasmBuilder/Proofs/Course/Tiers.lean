import WasmBuilder.Proofs.Course.Callees
import WasmBuilder.Proofs.Startup.Session

/-!
Which functions the functions of a session call.

Nothing ever turns another expression into a call, or makes a body evaluate more than it did when it
was closed. So a function only calls functions that were declared before it.
-/

set_option autoImplicit false

namespace WasmBuilder

namespace Arena

variable {a c : Arena} {root id : ExprId}

theorem Continues.within_before (continues : a.Continues c) (ordered : a.Ordered)
    (old : root < a.size) (within : c.Within root id) : a.Within root id ∧ id < a.size := by
  induction within with
  | self => exact ⟨.self, old⟩
  | @child id child node _ here mem ih =>
    obtain ⟨before, inside⟩ := ih
    have made := continues.node_of_lt inside here
    obtain ⟨_, entry⟩ := node_eq_ok_iff.1 made
    exact ⟨before.child made mem, Nat.lt_trans (ordered id _ entry child mem) inside⟩

theorem Folds.call_before (folds : a.Folds c) (old : id < a.size) {node : Node}
    (there : c.node id = .ok node) (isCall : node.isCall = true) : a.node id = .ok node := by
  obtain ⟨before, here⟩ := exists_node_of_lt old
  obtain ⟨other, there', folded⟩ := folds id before here
  cases there.symm.trans there'
  cases folded with
  | same => exact here
  | constant => cases isCall

end Arena

namespace Build

variable {b c : Build}

structure Wanes (b c : Build) : Prop where
  sheds : b.arena.Sheds c.arena
  callables : ∀ (k : Nat) (d : Callable), b.callables[k]? = some d → c.callables[k]? = some d
  evaluates : ∀ (ref : BodyRef) (id : ExprId), c.Evaluates ref id → b.Evaluates ref id

namespace Wanes

theorem refl (b : Build) : Wanes b b := ⟨.refl _, fun _ _ here => here, fun _ _ here => here⟩

theorem trans {d : Build} (first : Wanes b c) (second : Wanes c d) : Wanes b d where
  sheds := first.sheds.trans second.sheds
  callables k d here := second.callables k d (first.callables k d here)
  evaluates ref id later := first.evaluates ref id (second.evaluates ref id later)

instance : IsPreorder Build Wanes where
  refl := refl
  trans _ _ _ := trans

theorem of_same (arena : c.arena = b.arena) (callables : c.callables = b.callables)
    (bodies : ∀ ref, c.bodyOf ref = b.bodyOf ref) : Wanes b c := by
  refine ⟨arena ▸ .refl _, fun k d here => callables ▸ here, fun ref id later => ?_⟩
  unfold Evaluates at later ⊢
  rwa [arena, bodies] at later

theorem of_trims (trims : Trims b c) : Wanes b c := by
  induction trims with
  | refl => exact .refl b
  | tail _ trim ih =>
    refine ih.trans ⟨?_, ?_, fun ref id => trim.evaluates⟩
    · cases trim with
      | arena sheds => exact sheds
      | setBody => exact arena_setBody _ _ ▸ .refl _
    · intro k d here
      exact trim.rewrite.later.callables k d here

/-- A function of the host has no body. -/
theorem added {f : Function} (imported : f.isImported = true) (kind : CallKind) (params : Bindings)
    (table : IndirectTable) (imports : Imports) (isExported : Bool) :
    Wanes b (b.added f kind params table imports isExported) := by
  refine ⟨.refl _, fun k d here => getElem?_push_of_some here _, ?_⟩
  rintro ref id ⟨root, isRoot, within⟩
  refine ⟨root, ?_, within⟩
  cases ref with
  | start => exact isRoot
  | function k =>
    simp only [bodyOf, Build.added, Array.getElem?_push] at isRoot
    split at isRoot
    next body last =>
      split at last
      · -- it would have one
        cases last
        cases imported
      · simpa only [bodyOf, last] using isRoot
    next => cases isRoot

end Wanes

theorem wanes_openFunction (isIndirect : Bool) (decl : FunctionDecl) :
    Moves Wanes b (openFunction isIndirect decl) fun _ _ => True := by
  apply moves_guarded (fun _ => .of_same rfl rfl fun ref => by cases ref <;> rfl)
  apply (moves_freshId _ _).bind
  rintro id b _ rfl
  exact Moves.get_bind (Moves.pure trivial)

theorem wanes_exportAs (name : String) (callable : Nat) :
    Moves Wanes b (exportAs name callable) fun _ _ => True := by
  apply Moves.get_bind
  split
  · dsimp only
    cases b.callables[callable]? with
    | none => exact ⟨.of_same rfl rfl fun ref => by cases ref <;> rfl, trivial⟩
    | some c => exact ⟨.of_same rfl rfl fun ref => by cases ref <;> rfl, trivial⟩
  · exact Moves.pure trivial

theorem wanes_chore (chore : Chore) : Wanes b (left chore.run b) := by
  have same {c : Build} (arena : c.arena = b.arena) (callables : c.callables = b.callables)
      (functions : c.functions = b.functions) (start : c.startBody = b.startBody) : Wanes b c := by
    apply Wanes.of_same arena callables
    intro ref
    cases ref with
    | start => exact start
    | function k => simp only [bodyOf, functions]
  -- most chores leave expressions and bodies alone
  cases chore with
  | exportAs name callable =>
    rw [Chore.run, left_discard]
    exact left_of_moves (wanes_exportAs name callable)
  | fail => exact same rfl rfl rfl rfl
  | useMemory decl => exact same rfl rfl rfl rfl
  | adopt key library =>
    have exported : Moves Wanes b (library.entries.forM fun e => do let _ ← exportAs e.1 e.2)
        fun _ _ => True :=
      Moves.forM fun e _ _ _ => (wanes_exportAs e.1 e.2).bind fun _ _ _ _ => Moves.pure trivial
    have adopted : Moves Wanes b (adopt key library) fun _ _ => True := by
      apply exported.bind
      intro _ c _ _
      exact Moves.modify (.of_same rfl rfl fun ref => by cases ref <;> rfl) trivial
    exact left_of_moves adopted
  | external decl host =>
    rw [Chore.run, left_discard, left]
    rcases external_cases decl host b with ⟨e, run⟩ | ⟨id, run⟩
    · rw [run]
      exact same rfl rfl rfl rfl
    · rw [run]
      exact .added rfl _ _ _ _ _
  | simplify =>
    rw [Chore.run, left_discard]
    exact .of_trims (left_of_moves trims_simplify)
  | assemble options =>
    rw [Chore.run, left_discard]
    cases failed : b.failed with
    | true =>
      rw [left, assemble_run, failed]
      exact .refl b
    | false =>
      have imported : Wanes b (b.importing options.memory) := by
        rcases importing_cases b options.memory with is | ⟨decl, is⟩ <;> rw [is]
        · exact .refl b
        · exact same rfl rfl rfl rfl
      exact imported.trans (.of_trims (trims_left_assemble options failed))

end Build

namespace Build

variable {b c : Build}

def Calls (b : Build) (id : ExprId) (k : Nat) : Prop :=
  ∃ (d : Callable) (args : List ExprId), b.callables[k]? = some d ∧ b.arena.Calls d args id

/-- Every call is one of a callable, bodies are made of expressions that there are, and each function
calls functions that were declared before it. -/
structure Tiered (b : Build) : Prop where
  calls : ∀ (id : ExprId) (node : Node), b.arena.node id = .ok node → node.isCall = true →
    ∃ k, b.Calls id k
  roots : ∀ ref, ∀ x ∈ b.bodyOf ref, x < b.arena.size
  below : ∀ (k : Nat) (id : ExprId) (node : Node), b.Evaluates (.function k) id →
    b.arena.node id = .ok node → node.isCall = true → ∃ j < k, b.Calls id j

theorem Calls.lasts {id : ExprId} {k : Nat} (calls : b.Calls id k) (lasts : b.arena.Lasts c.arena)
    (callables : ∀ (k : Nat) (d : Callable), b.callables[k]? = some d → c.callables[k]? = some d) :
    c.Calls id k := by
  obtain ⟨d, args, known, called⟩ := calls
  exact ⟨d, args, callables k d known, called.lasts lasts⟩

theorem Tiered.lt_size (tiered : b.Tiered) (ordered : b.arena.Ordered) {ref : BodyRef} {id : ExprId}
    (evaluates : b.Evaluates ref id) : id < b.arena.size := by
  obtain ⟨root, isRoot, within⟩ := evaluates
  exact ((Arena.Continues.refl _).within_before ordered (tiered.roots ref root isRoot) within).2

/-- Another build is tiered if its new calls are of callables and its bodies evaluate nothing new. -/
theorem Tiered.of_before (tiered : b.Tiered) (ordered : b.arena.Ordered) (lasts : b.arena.Lasts c.arena)
    (callables : ∀ (k : Nat) (d : Callable), b.callables[k]? = some d → c.callables[k]? = some d)
    (before : ∀ (id : ExprId) (node : Node), id < b.arena.size → c.arena.node id = .ok node →
      node.isCall = true → b.arena.node id = .ok node)
    (made : ∀ (id : ExprId) (node : Node), b.arena.size ≤ id → c.arena.node id = .ok node →
      node.isCall = true → ∃ k, c.Calls id k)
    (roots : ∀ ref, ∀ x ∈ c.bodyOf ref, x < c.arena.size)
    (evaluates : ∀ k id, c.Evaluates (.function k) id → b.Evaluates (.function k) id) : c.Tiered where
  calls id node there isCall := by
    by_cases old : id < b.arena.size
    · obtain ⟨k, calls⟩ := tiered.calls id node (before id node old there isCall) isCall
      exact ⟨k, calls.lasts lasts callables⟩
    · exact made id node (Nat.not_lt.1 old) there isCall
  roots := roots
  below k id node later there isCall := by
    have evaluated := evaluates k id later
    have here := before id node (tiered.lt_size ordered evaluated) there isCall
    obtain ⟨j, lt, calls⟩ := tiered.below k id node evaluated here isCall
    exact ⟨j, lt, calls.lasts lasts callables⟩

/-- Where nothing new is evaluated and operations are carried out at most, everything is as before. -/
theorem Tiered.wanes (tiered : b.Tiered) (ordered : b.arena.Ordered) (wanes : Wanes b c)
    (folds : b.arena.Folds c.arena) : c.Tiered := by
  have size := wanes.sheds.size
  apply tiered.of_before ordered wanes.sheds.lasts wanes.callables
  · exact fun id node old there isCall => folds.call_before old there isCall
  · intro id node behind there
    exact absurd (Arena.lt_size_of_node there) (Nat.not_lt.2 (size ▸ behind))
  · intro ref x mem
    rw [size]
    exact tiered.lt_size ordered (wanes.evaluates ref x ⟨x, mem, .self⟩)
  · exact fun k id => wanes.evaluates (.function k) id

/-- A function that is added calls what was declared before it. -/
theorem Tiered.added (tiered : b.Tiered) (matched : b.Matched) {f : Function} {kind : CallKind}
    {params : Bindings} {table : IndirectTable} {imports : Imports} {isExported : Bool}
    (roots : ∀ scope body, f.kind = .defined scope body → ∀ x ∈ body, x < b.arena.size) :
    (b.added f kind params table imports isExported).Tiered := by
  have callables (k : Nat) (d : Callable) (here : b.callables[k]? = some d) :
      (b.added f kind params table imports isExported).callables[k]? = some d :=
    getElem?_push_of_some here _
  have stays {id : ExprId} {k : Nat} (calls : b.Calls id k) :
      (b.added f kind params table imports isExported).Calls id k :=
    calls.lasts (.refl _) callables
  -- a body is one that was there or that of the new function
  have cases_ (k : Nat) :
      (b.added f kind params table imports isExported).bodyOf (.function k) = b.bodyOf (.function k) ∨
        k = b.functions.size ∧ ∀ x ∈ (b.added f kind params table imports isExported).bodyOf
          (.function k), x < b.arena.size := by
    simp only [bodyOf, Build.added, Array.getElem?_push]
    by_cases last : k = b.functions.size
    · refine .inr ⟨last, fun x mem => ?_⟩
      rw [if_pos last] at mem
      obtain ⟨id, params', result, kind'⟩ := f
      cases kind' with
      | imported key => cases mem
      | defined scope body => exact roots scope body rfl x mem
    · exact .inl (by rw [if_neg last])
  refine ⟨fun id node here isCall => ?_, fun ref x mem => ?_, fun k id node evaluates here isCall => ?_⟩
  · obtain ⟨k, calls⟩ := tiered.calls id node here isCall
    exact ⟨k, stays calls⟩
  · cases ref with
    | start => exact tiered.roots .start x mem
    | function k =>
      rcases cases_ k with same | ⟨-, inside⟩
      · exact tiered.roots (.function k) x (same ▸ mem)
      · exact inside x mem
  · rcases cases_ k with same | ⟨rfl, -⟩
    · obtain ⟨root, isRoot, within⟩ := evaluates
      obtain ⟨j, lt, calls⟩ := tiered.below k id node ⟨root, same ▸ isRoot, within⟩ here isCall
      exact ⟨j, lt, stays calls⟩
    · -- all callables that there are belong to functions before the new one
      obtain ⟨j, calls⟩ := tiered.calls id node here isCall
      obtain ⟨d, args, known, called⟩ := calls
      have lt := (Array.getElem?_eq_some_iff.1 known).1
      exact ⟨j, matched.size ▸ lt, stays ⟨d, args, known, called⟩⟩

theorem tiered_empty : Tiered {} where
  calls id node here := absurd (Arena.lt_size_of_node here) (Nat.not_lt_zero _)
  roots ref x mem := by cases ref <;> simp [bodyOf] at mem
  below k id node _ here := absurd (Arena.lt_size_of_node here) (Nat.not_lt_zero _)

end Build

namespace Session

variable {s t : Session}

def Rooted (s : Session) : Prop :=
  ∀ (opening : Opening) (body : Body), s.body = some (opening, body) →
    ∀ x ∈ body.statements, x < body.arena.size

theorem rooted_of_idle (idle : s.body = none) : s.Rooted := by
  intro opening body busy
  cases idle.symm.trans busy

theorem adds_of_leaves (reached : Reached Lawful s) {opening : Opening} {body next : Body}
    {step : Body.Step} (busy : s.body = some (opening, body)) (may : s.Lawful step)
    (leaves : step.Leaves body next) : body.Adds next := by
  have known : ∀ o ∈ step.operands, o.id < body.arena.size := by
    intro o mem
    obtain ⟨ts, told, -⟩ := (sound_of_reached reached).knows_of_handedOut (may.2 o mem)
    rw [← arena_of_busy busy]
    exact Arena.lt_size_of_labelSlots told
  rcases leaves with ⟨_, done⟩ | ⟨_, failed⟩
  · exact ((Body.Step.adds_run may.1 known).of_ok done).1
  · exact (Body.Step.adds_run may.1 known).of_error failed

theorem rooted_of_reached (reached : Reached Lawful s) : s.Rooted := by
  induction reached with
  | start => exact rooted_of_idle rfl
  | @next s t reached step ih =>
    have go {opening : Opening} {body next : Body} {step : Body.Step} {handed : List Operand}
        (busy : s.body = some (opening, body)) (may : s.Lawful step)
        (leaves : step.Leaves body next) : Rooted ⟨s.build, some (opening, next), handed⟩ := by
      rintro _ _ ⟨⟩
      exact (adds_of_leaves reached busy may leaves).roots (ih opening body busy)
    cases step with
    | openFunction idle opened =>
      obtain ⟨-, rfl, id, ⟨⟩⟩ := (Build.quiets_openFunction _ _).of_ok opened
      rintro _ _ ⟨⟩ x mem
      cases mem
    | openGlobals idle opened =>
      cases opened
      rintro _ _ ⟨⟩ x mem
      cases mem
    | take busy may done => exact go busy may (.inl ⟨_, done⟩)
    | stumble busy may failed => exact go busy may (.inr ⟨_, failed⟩)
    | refuse idle | literal idle | chore idle => exact rooted_of_idle idle
    | close | abandon => exact rooted_of_idle rfl

theorem arena_current (s : Session) : s.current.arena = s.arena := by
  unfold current arena
  cases s.body <;> rfl

theorem tiered_of_continues {b : Build} (tiered : b.Tiered) (ordered : b.arena.Ordered)
    {arena : Arena} {globals : Scope} (continues : b.arena.Continues arena)
    (made : ∀ (id : ExprId) (node : Node), b.arena.size ≤ id → arena.node id = .ok node →
      node.isCall = true → arena.CallsSome b.callables id) :
    Build.Tiered { b with arena, globals } := by
  apply tiered.of_before (c := { b with arena, globals }) ordered continues.lasts fun _ _ here => here
  · exact fun id node old there _ => continues.node_of_lt old there
  · exact made
  · intro ref x mem
    have old : x < b.arena.size := tiered.roots ref x (by cases ref <;> exact mem)
    exact Nat.lt_of_lt_of_le old continues.size_le
  · rintro k id ⟨root, isRoot, within⟩
    have old : root < b.arena.size := tiered.roots (.function k) root isRoot
    exact ⟨root, isRoot, (continues.within_before ordered old within).1⟩

/-- Throughout a session, functions call functions that were declared before them. -/
theorem tiered_of_reached (reached : Reached Lawful s) : s.current.Tiered := by
  induction reached with
  | start => exact Build.tiered_empty
  | @next s t reached step tiered =>
    have ordered : s.current.arena.Ordered :=
      arena_current s ▸ (sound_of_reached reached).labelled.ordered
    have matched := matched_of_reached reached
    have folds := step.folds reached
    have go {opening : Opening} {body next : Body} {step : Body.Step} {handed : List Operand}
        (busy : s.body = some (opening, body)) (may : s.Lawful step)
        (leaves : step.Leaves body next) :
        (Session.current ⟨s.build, some (opening, next), handed⟩).Tiered := by
      have adds := adds_of_leaves reached busy may leaves
      have callables := (orderly_of_reached reached).callables opening body busy
      rw [current_of_busy busy] at tiered ordered
      exact tiered_of_continues tiered ordered adds.continues fun id node behind here isCall =>
        callables ▸ adds.calls id node behind here isCall
    cases step with
    | take busy may done => exact go busy may (.inl ⟨_, done⟩)
    | stumble busy may failed => exact go busy may (.inr ⟨_, failed⟩)
    | openFunction idle opened =>
      obtain ⟨-, rfl, id, ⟨⟩⟩ := (Build.quiets_openFunction _ _).of_ok opened
      rwa [current_of_idle idle] at tiered
    | refuse idle refused =>
      rw [current_of_idle idle] at tiered ordered
      rw [current_rebuilt idle]
      rw [arena_of_idle idle, arena_rebuilt idle] at folds
      exact tiered.wanes ordered ((Build.wanes_openFunction _ _).of_error refused) folds
    | openGlobals idle opened =>
      cases opened
      rw [current_of_idle idle] at tiered ordered
      exact tiered.wanes ordered (.of_same rfl rfl fun ref => by cases ref <;> rfl) (.refl _)
    | @close opening body busy =>
      rw [current_of_busy busy] at tiered ordered matched
      have rooted := rooted_of_reached reached opening body busy
      rw [current_of_idle rfl]
      cases opening with
      | globals =>
        refine ⟨tiered.calls, fun ref x mem => ?_, tiered.below⟩
        cases ref with
        | function k => exact tiered.roots (.function k) x mem
        | start =>
          rcases List.mem_append.1 mem with before | new
          · exact tiered.roots .start x before
          · exact rooted x new
      | function draft =>
        have same : s.build.Matched := { matched with }
        obtain ⟨kind, table, isExported, run⟩ := Build.closeFunction_eq_ok same draft body
        show (Build.left (do let _ ← Build.closeFunction draft body) s.build).Tiered
        rw [Build.left_discard, Build.left, run]
        refine tiered.added matched fun scope statements is => ?_
        cases is
        exact rooted
    | @abandon opening body e busy =>
      rw [current_of_busy busy] at tiered ordered
      rw [current_of_idle rfl]
      exact tiered.wanes ordered (.of_same rfl rfl fun ref => by cases ref <;> rfl) (.refl _)
    | @literal value shape id b idle made =>
      rw [current_of_idle idle] at tiered ordered
      rw [current_of_idle (s := { s with build := b, handed := .plain id :: s.handed }) idle]
      cases shape with
      | num t =>
        cases made
        apply tiered_of_continues tiered ordered (Arena.continues_push _ _ _)
        -- a constant is no call
        intro id node behind here isCall
        rw [Arena.node_of_push behind here] at isCall
        cases isCall
      | none | auto | tuple | record => cases made
    | chore idle chore =>
      rw [current_of_idle idle] at tiered ordered
      rw [current_rebuilt idle]
      rw [arena_of_idle idle, arena_rebuilt idle] at folds
      exact tiered.wanes ordered (Build.wanes_chore chore) folds

end Session

end WasmBuilder
