import WasmBuilder.Proofs.Course.Candid
import WasmBuilder.Proofs.Course.Tiers
import WasmBuilder.Proofs.Simplify.Acyclic

/-!
Sessions whose steps only name what was handed out.

Raw nodes are among these steps, whatever their labels tell. All operands come before the expressions
that use them then, and bodies are made of expressions that are there.
-/

set_option autoImplicit false

namespace WasmBuilder

namespace Arena

variable {a c : Arena}

theorem Ordered.push (ordered : a.Ordered) {node : Node} (inside : ∀ child ∈ node.children, child < a.size)
    (label : Option Shape) : (a.push node label).Ordered := by
  intro id entry there child mem
  have made : id < a.size + 1 := by
    rw [← size_push a node label]
    exact (Array.getElem?_eq_some_iff.1 there).1
  rcases Nat.lt_succ_iff_lt_or_eq.1 made with old | rfl
  · rw [entries_push_of_lt old] at there
    exact ordered id entry there child mem
  · cases (entries_push_size a node label).symm.trans there
    exact inside child mem

theorem Ordered.sheds (ordered : a.Ordered) (sheds : a.Sheds c) : c.Ordered := by
  intro id entry there child mem
  obtain ⟨node, here, shed⟩ := sheds.exists_before (node_eq_ok_iff.2 ⟨entry.label, there⟩)
  exact ordered.child_lt here child (shed.children child mem)

theorem Ordered.relabel (ordered : a.Ordered) {id : ExprId} {shape : Shape}
    (done : a.relabel id shape = .ok c) : c.Ordered := by
  obtain ⟨continues, size⟩ := continues_relabel done
  intro other entry there child mem
  have old : other < a.size := size ▸ (Array.getElem?_eq_some_iff.1 there).1
  have here := continues.node_of_lt old (node_eq_ok_iff.2 ⟨entry.label, there⟩)
  exact ordered.child_lt here child mem

end Arena

namespace Body

variable {step : Step} {b c : Body}

structure Grounded (b : Body) : Prop where
  ordered : b.arena.Ordered
  statements : ∀ x ∈ b.statements, x < b.arena.size

theorem Grounded.piece (grounded : b.Grounded) (known : ∀ o ∈ step.operands, o.id < b.arena.size)
    (piece : Piece step b c) : c.Grounded := by
  have inside {id : ExprId} (named : b.Names step id) : id < b.arena.size := by
    rcases named with old | ⟨o, mem, rfl⟩
    · exact old
    · exact known o mem
  have old {x : ExprId} (mem : x ∈ b.statements) : x < c.arena.size :=
    Nat.lt_of_lt_of_le (grounded.statements x mem) piece.retains.size_le
  cases piece with
  | push named =>
    exact ⟨grounded.ordered.push (fun child mem => inside (named child mem)) _, fun _ => old⟩
  | scopes => exact ⟨grounded.ordered, fun _ => old⟩
  | append named =>
    refine ⟨grounded.ordered, fun x mem => ?_⟩
    rcases List.mem_append.1 mem with before | new
    · exact old before
    · exact inside (named x new)
  | result _ _ _ done => exact ⟨grounded.ordered.relabel done, fun _ => old⟩

theorem Grounded.pieces (grounded : b.Grounded) (known : ∀ o ∈ step.operands, o.id < b.arena.size)
    (pieces : Pieces step b c) : c.Grounded := by
  induction pieces with
  | refl => exact grounded
  | tail first piece ih =>
    refine ih.piece (fun o mem => ?_) piece
    exact Nat.lt_of_lt_of_le (known o mem) (Pieces.retains first).size_le

end Body

namespace Build

variable {b c : Build}

/-- Operands come first, and bodies are made of expressions that are there. -/
structure Grounded (b : Build) : Prop where
  ordered : b.arena.Ordered
  roots : ∀ ref, ∀ x ∈ b.bodyOf ref, x < b.arena.size

namespace Grounded

theorem wanes (grounded : b.Grounded) (wanes : Wanes b c) : c.Grounded := by
  refine ⟨grounded.ordered.sheds wanes.sheds, fun ref x mem => ?_⟩
  obtain ⟨root, isRoot, within⟩ := wanes.evaluates ref x ⟨x, mem, .self⟩
  have le := grounded.ordered.within_le within
  rw [wanes.sheds.size]
  exact Nat.lt_of_le_of_lt le (grounded.roots ref root isRoot)

theorem grows (grounded : b.Grounded) (ordered : c.arena.Ordered)
    (before : b.arena.size ≤ c.arena.size) (bodies : ∀ ref, c.bodyOf ref = b.bodyOf ref) :
    c.Grounded :=
  ⟨ordered, fun ref x mem => Nat.lt_of_lt_of_le (grounded.roots ref x (bodies ref ▸ mem)) before⟩

theorem added (grounded : b.Grounded) {f : Function} {kind : CallKind} {params : Bindings}
    {table : IndirectTable} {imports : Imports} {isExported : Bool}
    (own : ∀ scope body, f.kind = .defined scope body → ∀ x ∈ body, x < b.arena.size) :
    (b.added f kind params table imports isExported).Grounded := by
  refine ⟨grounded.ordered, fun ref x mem => ?_⟩
  cases ref with
  | start => exact grounded.roots .start x mem
  | function k =>
    simp only [bodyOf, Build.added, Array.getElem?_push] at mem
    by_cases last : k = b.functions.size
    · rw [if_pos last] at mem
      obtain ⟨id, params', result, kind'⟩ := f
      cases kind' with
      | imported key => cases mem
      | defined scope body => exact own scope body rfl x mem
    · rw [if_neg last] at mem
      exact grounded.roots (.function k) x mem

end Grounded

/-- A body is closed with statements that are there. -/
theorem Grounded.close {body : Body} (grounded : (b.withBody body).Grounded) (matched : b.Matched)
    (own : ∀ x ∈ body.statements, x < body.arena.size) (opening : Opening) :
    (left (opening.close body) b).Grounded := by
  cases opening with
  | globals =>
    refine ⟨grounded.ordered, fun ref x mem => ?_⟩
    cases ref with
    | function k => exact grounded.roots (.function k) x mem
    | start =>
      rcases List.mem_append.1 mem with before | new
      · exact grounded.roots .start x before
      · exact own x new
  | function draft =>
    obtain ⟨kind, table, isExported, run⟩ := Build.closeFunction_eq_ok matched draft body
    rw [Build.left_close run]
    refine grounded.added fun scope statements is => ?_
    cases is
    exact own

theorem grounded_empty : Grounded {} := by
  refine ⟨fun id entry there => ?_, fun ref x mem => ?_⟩
  · cases there
  · cases ref <;> simp [bodyOf] at mem

end Build

namespace Session

variable {s t : Session}

/-- A step that names what was handed out. -/
def Handing (s : Session) (step : Body.Step) : Prop := ∀ o ∈ step.operands, s.HandedOut o

structure Grounded (s : Session) : Prop where
  current : s.current.Grounded
  rooted : s.Rooted
  handed : ∀ o ∈ s.handed, o.id < s.arena.size

theorem Grounded.lt_size (grounded : s.Grounded) {o : Operand} (out : s.HandedOut o) :
    o.id < s.arena.size := by
  rcases out with mem | ⟨p, mem, rfl⟩
  · exact grounded.handed o mem
  · exact grounded.handed p mem

theorem Grounded.build (grounded : s.Grounded) (idle : s.body = none) : s.build.Grounded := by
  rw [← current_of_idle idle]
  exact grounded.current

theorem Grounded.body (grounded : s.Grounded) {opening : Opening} {body : Body}
    (busy : s.body = some (opening, body)) : body.Grounded := by
  refine ⟨?_, grounded.rooted opening body busy⟩
  have ordered := grounded.current.ordered
  rwa [current_of_busy busy] at ordered

theorem grounded_of_idle (idle : t.body = none) (build : t.build.Grounded)
    (handed : ∀ o ∈ t.handed, o.id < t.build.arena.size) : t.Grounded := by
  refine ⟨?_, rooted_of_idle idle, ?_⟩
  · rwa [current_of_idle idle]
  · rwa [arena_of_idle idle]

theorem Grounded.go (grounded : s.Grounded) {opening : Opening} {body next : Body}
    {handed : List Operand} (busy : s.body = some (opening, body)) (made : next.Grounded)
    (later : body.arena.size ≤ next.arena.size) (known : ∀ o ∈ handed, o.id < next.arena.size) :
    Grounded ⟨s.build, some (opening, next), handed⟩ := by
  have current := grounded.current
  rw [current_of_busy busy] at current
  refine ⟨current.grows made.ordered later fun ref => by cases ref <;> rfl, ?_, known⟩
  rintro _ _ ⟨⟩
  exact made.statements

theorem Grounded.next (grounded : s.Grounded) (matched : s.current.Matched)
    (step : Next Handing s t) : t.Grounded := by
  have handed := step.handed_old grounded.handed
  have known {opening : Opening} {body : Body} {step : Body.Step}
      (busy : s.body = some (opening, body)) (may : s.Handing step) :
      ∀ o ∈ step.operands, o.id < body.arena.size := by
    intro o mem
    rw [← arena_of_busy busy]
    exact grounded.lt_size (may o mem)
  cases step with
  | openFunction idle opened =>
    obtain ⟨-, rfl, id, ⟨⟩⟩ := (Build.quiets_openFunction _ _).of_ok opened
    refine ⟨grounded.build idle, ?_, handed⟩
    rintro _ _ ⟨⟩ x mem
    cases mem
  | refuse idle refused =>
    have wanes := (Build.wanes_openFunction _ _).of_error refused
    rw [arena_rebuilt idle] at handed
    exact grounded_of_idle idle ((grounded.build idle).wanes wanes) handed
  | openGlobals idle opened =>
    cases opened
    refine ⟨(grounded.build idle).wanes (.of_same rfl rfl fun ref => by cases ref <;> rfl), ?_, handed⟩
    rintro _ _ ⟨⟩ x mem
    cases mem
  | take busy may done =>
    have pieces := ((Body.Step.pieces_run _ _).of_ok done).1
    have made := (grounded.body busy).pieces (known busy may) pieces
    exact grounded.go busy made pieces.retains.size_le handed
  -- a step that fails leaves pieces of what it would have made, which are older still
  | stumble busy may failed =>
    have pieces := (Body.Step.pieces_run _ _).of_error failed
    have made := (grounded.body busy).pieces (known busy may) pieces
    exact grounded.go busy made pieces.retains.size_le handed
  | @close opening body busy =>
    have current := grounded.current
    rw [current_of_busy busy] at current matched
    have own := grounded.rooted opening body busy
    exact grounded_of_idle rfl (current.close { matched with } own opening) handed
  | @abandon opening body e busy =>
    have current := grounded.current
    rw [current_of_busy busy] at current
    refine grounded_of_idle rfl ?_ handed
    exact current.wanes (.of_same rfl rfl fun ref => by cases ref <;> rfl)
  | @literal value shape id b idle made =>
    obtain ⟨type, rfl, rfl, rfl⟩ := Build.literal_eq_ok made
    have build := grounded.build idle
    rw [arena_handing idle] at handed
    refine grounded_of_idle idle ?_ handed
    refine build.grows (build.ordered.push (by simp [Node.children]) _) ?_ fun ref => by
      cases ref <;> rfl
    exact (Arena.continues_push s.build.arena _ _).size_le
  | chore idle chore =>
    rw [arena_rebuilt idle] at handed
    exact grounded_of_idle idle ((grounded.build idle).wanes (Build.wanes_chore chore)) handed

theorem grounded_of_reached (reached : Reached Handing s) : s.Grounded := by
  induction reached with
  | start =>
    refine grounded_of_idle rfl Build.grounded_empty fun o mem => ?_
    cases mem
  | next reached step ih => exact ih.next (matched_of_reached reached) step

end Session

end WasmBuilder
