import WasmBuilder.Proofs.Lowering.ShorterBuilds
import WasmBuilder.Proofs.Simplify.Agreement
import WasmBuilder.Proofs.Simplify.Repeated
import WasmBuilder.Proofs.Variables.Params

/-!
What nobody notices of simplification.

Constants are put in, blocks are replaced by their items, and what follows a return is cut off. Each of
these leaves a build whose module does what the module before did, as long as bodies access no machine
locals but those of variables: which scratch locals there are depends on what is left.
-/

set_option autoImplicit false

namespace WasmBuilder

namespace Arena

variable {a c : Arena}

theorem Kept.subset {ids ids' : List ExprId} (kept : a.Kept ids ids') : ∀ id ∈ ids', id ∈ ids := by
  induction kept with
  | nil => exact fun _ mem => mem
  | cons _ ih =>
    intro id mem
    rcases List.mem_cons.1 mem with rfl | mem
    · exact List.mem_cons_self
    · exact List.mem_cons_of_mem _ (ih id mem)
  | stop =>
    intro id mem
    rw [List.mem_singleton.1 mem]
    exact List.mem_cons_self

theorem Leans.sheds {node other : Node} (leans : a.Leans node other) : node.Sheds other := by
  cases leans with
  | same => exact .refl node
  | binary | unary => exact .of_children rfl rfl (List.nil_subset _)
  | block kept => exact .of_children rfl rfl kept.subset
  | choose kept kept' =>
    refine .of_children rfl rfl fun child mem => ?_
    simp only [Node.children, List.cons_append, List.mem_cons, List.mem_append] at mem ⊢
    exact mem.imp_right (.imp (kept.subset child) (kept'.subset child))
  | loop kept kept' =>
    refine .of_children rfl rfl fun child mem => ?_
    have step := kept.subset child
    have body := kept'.subset child
    simp only [Node.children, List.mem_cons, List.mem_append] at mem ⊢
    grind

namespace Leaner

variable (leaner : a.Leaner c)

include leaner

theorem sheds : a.Sheds c where
  size := leaner.alike.size
  each id node here := by
    obtain ⟨other, there, leans⟩ := leaner.each id node here
    exact ⟨other, there, leans.sheds⟩

theorem node_of_fixed {id : ExprId} {node : Node} (there : c.node id = .ok node)
    (fixed : node.isFixed = true) (other : ∀ v, node ≠ .const v) : a.node id = .ok node := by
  obtain ⟨before, here⟩ := exists_node_of_lt (a := a) (leaner.alike.size ▸ lt_size_of_node there)
  obtain ⟨_, there', leans⟩ := leaner.each id before here
  cases there.symm.trans there'
  cases leans with
  | same => exact here
  | binary | unary => exact absurd rfl (other _)
  | block | choose | loop => cases fixed

end Leaner

theorem leaner_foldAt (state : Arena × Nat) (id : ExprId) : state.1.Leaner (foldAt state id).1 := by
  refine ⟨alike_foldAt state id, ?_⟩
  obtain ⟨a, count⟩ := state
  simp only [foldAt]
  cases here : a.entries[id]? with
  | none => exact (Leaner.refl a).each
  | some entry =>
    cases folded : a.foldNode? entry.node with
    | none =>
      simp only [folded]
      exact (Leaner.refl a).each
    | some v =>
      simp only [folded]
      intro other node found
      rw [node_setIfInBounds here]
      by_cases is : other = id
      · subst is
        cases found.symm.trans (node_eq_ok_iff.2 ⟨entry.label, here⟩)
        exact ⟨_, if_pos rfl, leans_of_foldNode? folded⟩
      · exact ⟨node, (if_neg is).trans found, .same node⟩

end Arena

theorem Unreachable.Cleared.leaner {a : Arena} {n : Nat} {done : Finset ExprId} {s : State}
    (cleared : Cleared a n done s) : a.Leaner s.arena where
  alike := cleared.alike
  each id node here := by
    by_cases mem : id ∈ done
    · exact ⟨_, cleared.node_of_mem mem here, a.leans_upToReturns node⟩
    · exact ⟨node, (cleared.node_of_notMem mem).trans here, .same node⟩

namespace Lower

namespace Leaner

variable {l l' : Layout} (leaner : Leaner l l')

include leaner

theorem reads {id : ExprId} {k : Nat} (reads : l'.Reads id k) : l.Reads id k := by
  obtain ⟨slot, shape, base, found, ⟨there, le, lt⟩ | ⟨composite, index, offset, width, there, below, mem⟩⟩ :=
    reads
  · exact ⟨slot, shape, base, leaner.localBase slot ▸ found,
      .inl ⟨leaner.arena.node_of_fixed there rfl nofun, le, lt⟩⟩
  · exact ⟨slot, shape, base, leaner.localBase slot ▸ found,
      .inr ⟨composite, index, offset, width, leaner.arena.node_of_fixed there rfl nofun,
        leaner.arena.node_of_fixed below rfl nofun, mem⟩⟩

theorem writes {id : ExprId} {k : Nat} (writes : l'.Writes id k) : l.Writes id k := by
  obtain ⟨slot, shape, value, base, there, found, le, lt⟩ := writes
  exact ⟨slot, shape, value, base, leaner.arena.node_of_fixed there rfl nofun,
    leaner.localBase slot ▸ found, le, lt⟩

theorem bounds {body body' : List ExprId} (kept : l.arena.Kept body body') (bounds : l.Bounds body) :
    l'.Bounds body' := by
  intro root mem id within k accesses
  rw [leaner.scratchBase]
  exact bounds root (kept.subset root mem) id (leaner.arena.sheds.within within) k
    (accesses.imp leaner.reads leaner.writes)

end Leaner

theorem Layout.Bounds.flattened {l : Layout} {body flat : List ExprId} {n : Nat} (bounds : l.Bounds body)
    (done : l.arena.flattenBlocks body = .ok (flat, n)) : l.Bounds flat := by
  intro x mem id within
  obtain ⟨root, isRoot, leads⟩ := Arena.within_of_flattenBlocks done x mem
  exact bounds root isRoot id (leads.trans within)

end Lower

namespace Wasm.Module

def Mimics (n m : Module) : Prop :=
  ∀ (host : Imports) (bounds : Bounds), 0 < bounds.rounds → 0 < bounds.room →
    ∀ calls : List (String × List Value), n.observe host bounds calls = m.observe host bounds calls

end Wasm.Module

namespace Build

open Lower (moduleLayout)

variable {b c : Build} {ref : BodyRef}

theorem Leaner.bounded (leaner : Leaner b c) (bounded : b.Bounded) : c.Bounded where
  functions g mem scope body' kind := by
    obtain ⟨i, there⟩ := List.mem_iff_getElem?.1 mem
    obtain ⟨f, here, leans⟩ := exists_getElem?_of_forall₂ leaner.functions.flip there
    have leans : f.Leans b.arena g := leans
    cases leans with
    | imported other => cases kind.symm.trans other
    | defined other kept =>
      cases kind
      obtain ⟨bounds, few⟩ := bounded.functions f (List.mem_of_getElem? here) _ _ other
      exact ⟨(leaner.layout.withVariables _).bounds kept bounds, few⟩
  start := (leaner.layout.withVariables []).bounds leaner.startBody bounded.start

theorem forall₂_setBody {R : Function → Function → Prop} (refl : ∀ f, R f f) (body : List ExprId)
    (changed : ∀ f ∈ b.functions.toList, ∀ scope, f.kind = .defined scope (b.bodyOf ref) →
      R f { f with kind := .defined scope body }) :
    List.Forall₂ R b.functions.toList (b.setBody ref body).functions.toList := by
  cases ref with
  | start => exact List.forall₂_same.2 fun f _ => refl f
  | function i =>
    rw [setBody, Array.toList_modify]
    refine forall₂_modify refl fun f here => ?_
    have mem := List.mem_of_getElem? here
    rw [Array.getElem?_toList] at here
    obtain ⟨id, params, result, kind⟩ := f
    cases kind with
    | imported key => exact refl _
    | defined scope old => exact changed _ mem scope (by rw [bodyOf, here])

/-- A flattened body accesses no more. -/
theorem Bounded.flattened (bounded : b.Bounded) {flat : List ExprId} {n : Nat}
    (done : b.arena.flattenBlocks (b.bodyOf ref) = .ok (flat, n)) : (b.setBody ref flat).Bounded := by
  have same := moduleLayout_setBody (b := b) ref flat
  have each : List.Forall₂ (fun f g : Function => (∀ scope body, f.kind = .defined scope body →
      ((moduleLayout b).withVariables scope.shapes).Bounds body ∧
        f.signature.params.length ≤ ((moduleLayout b).withVariables scope.shapes).scratchBase) →
      ∀ scope body, g.kind = .defined scope body →
        ((moduleLayout b).withVariables scope.shapes).Bounds body ∧
          g.signature.params.length ≤ ((moduleLayout b).withVariables scope.shapes).scratchBase)
      b.functions.toList (b.setBody ref flat).functions.toList := by
    refine forall₂_setBody (fun f holds => holds) flat fun f _ scope kind holds => ?_
    rintro _ _ ⟨⟩
    obtain ⟨bounds, few⟩ := holds scope _ kind
    exact ⟨bounds.flattened done, few⟩
  constructor
  · intro g mem
    rw [same]
    obtain ⟨i, there⟩ := List.mem_iff_getElem?.1 mem
    obtain ⟨f, here, holds⟩ := exists_getElem?_of_forall₂ each.flip there
    exact holds (bounded.functions f (List.mem_of_getElem? here))
  · rw [same]
    cases ref with
    | start => exact bounded.start.flattened done
    | function => exact bounded.start

theorem bodyOf_flattened {flat : List ExprId} {n : Nat}
    (done : b.arena.flattenBlocks (b.bodyOf ref) = .ok (flat, n)) :
    (b.setBody ref flat).bodyOf ref = flat := by
  cases ref with
  | start => rfl
  | function i =>
    rcases b.bodyOf_function_cases i with none | ⟨f, scope, here, kind⟩
    · rw [none] at done
      cases done
      exact (b.bodyOf_setBody_self (.function i) []).elim id id
    · obtain ⟨id, params, result, _⟩ := f
      cases kind
      have there : (b.setBody (.function i) flat).functions[i]? =
          some ⟨id, params, result, .defined scope flat⟩ := by
        rw [setBody, Array.getElem?_modify, if_pos rfl, here]
        rfl
      rw [bodyOf, there]

/-- A build of which the module is valid and does what this one does. -/
structure Keeps (tableExport : Option String) (m : Wasm.Module) (b : Build) : Prop where
  bounded : b.Bounded
  module : ∃ n, b.lower tableExport = .ok n ∧ n.isValid = true ∧ n.Mimics m

namespace Keeps

variable {tableExport : Option String} {m : Wasm.Module} (keeps : b.Keeps tableExport m)

include keeps

theorem of_shortens (bounded : c.Bounded)
    (shortens : ∀ n, b.lower tableExport = .ok n →
      ∃ k idle, c.lower tableExport = .ok k ∧ n.Shortens k idle) : c.Keeps tableExport m := by
  obtain ⟨n, done, valid, mimics⟩ := keeps.module
  obtain ⟨k, idle, done', shortens⟩ := shortens n done
  refine ⟨bounded, k, done', shortens.isValid valid, fun host bounds rounds room calls => ?_⟩
  exact (shortens.observe_eq valid host rounds room calls).trans (mimics host bounds rounds room calls)

theorem of_leaner (leaner : Leaner b c) : c.Keeps tableExport m :=
  keeps.of_shortens (leaner.bounded keeps.bounded) fun _ => leaner.exists_lower keeps.bounded

/-- Blocks in a body are replaced by their items. -/
theorem flattened {flat : List ExprId} {n : Nat}
    (done : b.arena.flattenBlocks (b.bodyOf ref) = .ok (flat, n)) :
    (b.setBody ref flat).Keeps tableExport m := by
  have expansion := Arena.expansion_of_flattenBlocks done
  have bounded := keeps.bounded.flattened done
  by_cases emptied : b.Emptied ref flat
  · obtain ⟨rfl, any, rfl⟩ := emptied
    exact keeps.of_shortens bounded fun _ => exists_lower_of_emptied keeps.bounded expansion any
  · obtain ⟨k, lowered, valid, mimics⟩ := keeps.module
    have same := module?_setBody_of_alike (alike_functions expansion emptied) tableExport
    have lowered' := module?_eq_some_iff.1 (same.trans (module?_eq_some_iff.2 lowered))
    exact ⟨bounded, k, lowered', valid, mimics⟩

/-- What follows returns in a body is cut off. -/
theorem trimmed (ref : BodyRef) {s : Unreachable.State} {n : Nat} {done : Finset ExprId}
    (cleared : Unreachable.Cleared b.arena n done s) :
    { b.setBody ref (b.arena.upToReturn (b.bodyOf ref)) with arena := s.arena }.Keeps tableExport m := by
  refine keeps.of_leaner ⟨cleared.leaner, ?_, ?_, ?_, ?_, ?_, ?_⟩
  · exact forall₂_setBody (.refl b.arena) _ fun f _ scope kind => .defined kind (.upToReturn _)
  · cases ref with
    | start => exact .upToReturn _
    | function => exact .refl _
  · cases ref <;> rfl
  · cases ref <;> rfl
  · cases ref <;> rfl
  · cases ref <;> rfl

theorem simplifyBody (ref : BodyRef) (counts : SimplifyCounts) :
    ∃ next c, Build.simplifyBody ref counts b = .ok next c ∧ c.Keeps tableExport m := by
  obtain ⟨_, lowered, -⟩ := keeps.module
  obtain ⟨flat, n, flattened⟩ := exists_flattenBlocks lowered ref
  have after := keeps.flattened flattened
  have own := bodyOf_flattened flattened
  have arena : (b.setBody ref flat).arena = b.arena := by cases ref <;> rfl
  obtain ⟨_, lowered', -⟩ := after.module
  -- lowering followed all that is visited
  have shallow := shallow_of_mem_body lowered' ref
  rw [own, arena] at shallow
  have inside : ∀ id ∈ b.arena.upToReturn flat, b.arena.Shallow b.arena.size id :=
    fun id mem => shallow id ((b.arena.upToReturn_prefix flat).subset mem)
  obtain ⟨s, done, visited, cleared, -⟩ := Unreachable.cleared_of_shallow inside (b.arena.lost flat)
  refine ⟨_, _, simplifyBody_run flattened (Arena.cut_eq fun id mem => (inside id mem).lt_size) visited
    counts, ?_⟩
  rw [← arena] at cleared
  have trimmed := after.trimmed ref cleared
  rwa [own, arena] at trimmed

theorem simplifyAll (refs : List BodyRef) (counts : SimplifyCounts) :
    ∃ next c, Build.simplifyAll refs counts b = .ok next c ∧ c.Keeps tableExport m := by
  induction refs generalizing b counts with
  | nil => exact ⟨counts, b, rfl, keeps⟩
  | cons ref rest ih =>
    obtain ⟨next, c, first, keeps⟩ := keeps.simplifyBody ref counts
    obtain ⟨last, d, others, keeps⟩ := ih keeps next
    exact ⟨last, d, (simplifyAll_cons_of_ok first).trans others, keeps⟩

theorem reduced : b.reduced.Keeps tableExport m := by
  have sweep (ids : List ExprId) (state : Arena × Nat)
      (keeps : { b with arena := state.1 }.Keeps tableExport m) :
      { b with arena := (ids.foldl Arena.foldAt state).1 }.Keeps tableExport m := by
    induction ids generalizing state with
    | nil => exact keeps
    | cons id rest ih =>
      refine ih _ (keeps.of_leaner ⟨Arena.leaner_foldAt state id, ?_, .refl _, rfl, rfl, rfl, rfl⟩)
      exact List.forall₂_same.2 fun f _ => .refl _ f
  exact sweep (List.range b.arena.size) (b.arena, 0) keeps

theorem simplify : ∃ counts c, Build.simplify b = .ok counts c ∧ c.Keeps tableExport m := by
  rw [simplify_run]
  exact keeps.reduced.simplifyAll _ _

end Keeps

/-- Bodies read and write no machine locals but those of variables. -/
def WithinVariables (b : Build) : Prop :=
  ∀ f ∈ b.functions.toList, ∀ scope body, f.kind = .defined scope body →
    ((moduleLayout b).withVariables scope.shapes).Bounds body

def Roomy (b : Build) : Prop :=
  ∀ (k : Nat) (f : Function) (scope : Scope) (body : List ExprId), b.functions[k]? = some f →
    f.kind = .defined scope body → f.signature.params.length ≤ (scope.shapes.map Shape.width).sum

theorem Roomy.tidies (roomy : b.Roomy) (tidies : Tidies b c) : c.Roomy := by
  intro k g scope body there kind
  obtain ⟨f, here, becomes⟩ := tidies.function_before there
  rw [becomes.signature_eq]
  cases becomes with
  | same => exact roomy k _ scope body here kind
  | trimmed other =>
    cases kind
    exact roomy k _ _ _ here other

theorem Roomy.added (roomy : b.Roomy) {f : Function}
    (own : ∀ scope body, f.kind = .defined scope body →
      f.signature.params.length ≤ (scope.shapes.map Shape.width).sum)
    (kind : CallKind) (params : Bindings) (table : IndirectTable) (imports : Imports)
    (isExported : Bool) : (b.added f kind params table imports isExported).Roomy := by
  intro k g scope body here defined
  rw [Build.added, Array.getElem?_push] at here
  split at here
  · cases here
    exact own scope body defined
  · exact roomy k g scope body here defined

theorem WithinVariables.bounded (within : b.WithinVariables) (roomy : b.Roomy) : b.Bounded where
  functions f mem scope body kind := by
    obtain ⟨k, here⟩ := List.mem_iff_getElem?.1 mem
    rw [Array.getElem?_toList] at here
    exact ⟨within f mem scope body kind, roomy k f scope body here kind⟩
  start root _ id _ k accesses := by
    have none (slot base : Nat) (found : ((moduleLayout b).withVariables []).localBase slot = .ok base) :
        False := by cases found
    rcases accesses with ⟨slot, _, base, found, _⟩ | ⟨slot, _, _, base, _, found, _⟩
    · exact (none slot base found).elim
    · exact (none slot base found).elim

theorem exists_assemble (bounded : b.Bounded) {options : CompileOptions} {m : Wasm.Module}
    (done : assemble { options with optimize := false } b = .ok m c) (valid : m.isValid = true) :
    ∃ n d, assemble { options with optimize := true } b = .ok n d ∧ n.isValid = true ∧ n.Mimics m := by
  obtain ⟨usable, _, lowered, _⟩ := assemble_eq_ok done
  have kept : c = b.importing options.memory := by
    rw [assemble_run, usable] at done
    rcases lowered_cases { options with optimize := false } (b.importing options.memory) with
      ⟨_, run⟩ | ⟨_, run⟩
    · cases run.symm.trans done
      rfl
    · cases run.symm.trans done
  rw [kept] at lowered
  have imported : (b.importing options.memory).Bounded := by
    obtain ⟨imports, memory, is⟩ := exists_importing b options.memory
    rw [is]
    exact ⟨bounded.functions, bounded.start⟩
  have keeps : Keeps options.tableExport m (b.importing options.memory) :=
    ⟨imported, m, lowered, valid, fun _ _ _ _ _ => rfl⟩
  obtain ⟨counts, d, simplified, after⟩ := keeps.simplify
  obtain ⟨n, lowered', valid', mimics⟩ := after.module
  have run : simplifyIf true (b.importing options.memory) = .ok ⟨⟩ d := by
    show (simplify >>= fun _ => pure ⟨⟩ : BuildM Unit) _ = _
    simp only [bind, EStateM.bind, simplified]
    rfl
  exact ⟨n, d, assemble_of_lower usable run lowered' fun _ => valid', valid', mimics⟩

end Build

namespace Session

variable {permits : Session → Body.Step → Prop} {s : Session}

theorem roomy_of_reached (reached : Reached permits s) : s.current.Roomy := by
  induction reached with
  | start => exact fun k f scope body here => by simp [fresh, current] at here
  | @next s t reached step ih =>
    cases reached.deed step with
    | body busy still same =>
      rw [current_of_busy busy] at ih
      rw [current_of_busy still, same]
      exact ih
    | globals idle opened =>
      rw [current_of_idle idle] at ih
      rw [opened]
      exact ih
    | tidy tidies => exact ih.tidies tidies
    | @function draft body _ _ _ busy idle closed =>
      rw [current_of_idle idle, closed]
      refine ih.added (fun scope kept kind => ?_) _ _ _ _ _
      cases kind
      have begins := draft.begins.grows (grows_of_reached reached busy)
      have params : (draft.function body).signature.params = draft.decl.params.flatten := by
        simp [Build.Draft.function, Function.signature, Bindings.flatten_eq]
      rw [params]
      exact begins.length_flatten_le
    | external idle idle' declared =>
      rw [current_of_idle idle] at ih
      rw [current_of_idle idle', declared]
      exact ih.added (fun _ _ kind => by cases kind) _ _ _ _ _

/-- Where bodies access no machine locals but those of variables, nobody notices whether a build was
simplified: the module is made and is valid when it is without simplification, and whoever makes an
instance of it with the same imports and calls what it exports gets the same answers, calls of the host
and memories. -/
theorem simplification_unnoticed (reached : Reached permits s) (idle : s.body = none)
    (within : s.build.WithinVariables) (options : CompileOptions) {m : Wasm.Module} {c : Build}
    (done : Build.assemble { options with optimize := false } s.build = .ok m c)
    (valid : m.isValid = true) :
    ∃ n d, Build.assemble { options with optimize := true } s.build = .ok n d ∧ n.isValid = true ∧
      ∀ (host : Imports) (bounds : Wasm.Bounds), 0 < bounds.rounds → 0 < bounds.room →
        ∀ calls : List (String × List Value), n.observe host bounds calls = m.observe host bounds calls := by
  have roomy := roomy_of_reached reached
  rw [current_of_idle idle] at roomy
  exact Build.exists_assemble (within.bounded roomy) done valid

/-- Two numbers are spilled behind a return, and three elsewhere. Constants are added, and a block only
groups statements. -/
def spillingTwice : Build where
  arena := ⟨#[
    ⟨.localGet 0 (.num .i32), some (.num .i32)⟩,
    ⟨.const (.i32 10), some (.num .i32)⟩,
    ⟨.const (.i32 20), some (.num .i32)⟩,
    ⟨.const (.f32 0), some (.num .f32)⟩,
    ⟨.group [1, 3], some (.tuple [.num .i32, .num .f32])⟩,
    ⟨.extract 4 0 0 1, some (.num .i32)⟩,
    ⟨.group [1, 2, 0], some (.tuple [.num .i32, .num .i32, .num .i32])⟩,
    ⟨.extract 6 0 1 1, some (.num .i32)⟩,
    ⟨.ret (some 1), some .none⟩,
    ⟨.choose 0 [8, 5] [] .none, some .none⟩,
    ⟨.block [9] .none, some .none⟩,
    ⟨.binary (.intArith .w32 .add) 1 2, some (.num .i32)⟩,
    ⟨.binary (.intArith .w32 .add) 7 11, some (.num .i32)⟩,
    ⟨.ret (some 12), some .none⟩]⟩
  functions := #[⟨"f", [], .num .i32,
    .defined ⟨#[⟨"x", .num .i32, .local⟩]⟩ [10, 13]⟩]
  callables := #[⟨"f", 0, .direct, [], .num .i32⟩]
  exports := [("f", 0)]

def spillTwice : Body :=
  { Build.newBody {} readingPast.scope .local (.num .i32) with
    arena := spillingTwice.arena
    statements := [10, 13] }

theorem reached_spillingTwice : ∃ handed, Reached (fun _ _ => True) ⟨spillingTwice, none, handed⟩ := by
  have opened : Reached (fun _ _ => True)
      ⟨{}, some (.function readingPast, Build.newBody {} readingPast.scope .local (.num .i32)), []⟩ :=
    Reached.start.next
      (.openFunction rfl (Build.openFunction_of_free rfl (by simp [Build.isTaken, fresh])))
  obtain ⟨handed, made⟩ := reached_raw opened [
    (.localGet 0 (.num .i32), .num .i32),
    (.const (.i32 10), .num .i32),
    (.const (.i32 20), .num .i32),
    (.const (.f32 0), .num .f32),
    (.group [1, 3], .tuple [.num .i32, .num .f32]),
    (.extract 4 0 0 1, .num .i32),
    (.group [1, 2, 0], .tuple [.num .i32, .num .i32, .num .i32]),
    (.extract 6 0 1 1, .num .i32),
    (.ret (some 1), .none),
    (.choose 0 [8, 5] [] .none, .none),
    (.block [9] .none, .none),
    (.binary (.intArith .w32 .add) 1 2, .num .i32),
    (.binary (.intArith .w32 .add) 7 11, .num .i32)]
  have run := made.take rfl (.exec [10]) trivial rfl
  have read : Reached (fun _ _ => True) ⟨{}, some (.function readingPast, spillTwice), handed⟩ :=
    run.take rfl (.giveResult [12]) trivial rfl
  have left : Build.left (Opening.close (.function readingPast) spillTwice) {} =
      { spillingTwice with exports := [], pending := [0] } := by
    rw [Build.left, Opening.close]
    simp only [bind, EStateM.bind, Build.closeFunction_run]
    rfl
  exact ⟨_, (read.close rfl left).chore rfl (.exportAs "f" 0) rfl⟩

theorem within_spillingTwice : spillingTwice.WithinVariables := by
  intro f mem scope body kind
  obtain rfl := List.mem_singleton.1 mem
  cases kind
  have listed {id : ExprId} {node : Node} (here : spillingTwice.arena.node id = .ok node) :
      node ∈ spillingTwice.arena.entries.toList.map (·.node) := by
    obtain ⟨label, entry⟩ := Arena.node_eq_ok_iff.1 here
    exact List.mem_map.2 ⟨_, Array.mem_toList_iff.2 (Array.mem_of_getElem? entry), rfl⟩
  rintro root _ id _ k (⟨slot, shape, base, found, ⟨here, _, below⟩ | ⟨composite, _, _, _, here, there, _⟩⟩ |
    ⟨slot, shape, value, base, here, _⟩)
  · obtain ⟨rfl, rfl⟩ : slot = 0 ∧ shape = .num .i32 := by simpa [spillingTwice] using listed here
    cases found
    exact below
  · have fields : composite = 4 ∨ composite = 6 := by
      have mem := listed here
      simp only [spillingTwice, List.map_cons, List.map_nil, List.mem_cons, List.not_mem_nil, or_false,
        reduceCtorEq, false_or, Node.extract.injEq] at mem
      exact mem.imp (·.1) (·.1)
    rcases fields with rfl | rfl <;> cases there
  · have mem := listed here
    simp [spillingTwice] at mem

theorem simplification_unnoticed_of_spillingTwice : ∃ (s : Session) (m n : Wasm.Module) (c d : Build),
    Reached (fun _ _ => True) s ∧ s.body = none ∧ s.build.WithinVariables ∧
    Build.assemble ⟨false, true, none, none⟩ s.build = .ok m c ∧ m.isValid = true ∧
    Build.assemble ⟨true, true, none, none⟩ s.build = .ok n d ∧ n.isValid = true ∧
    m.funcs.map (·.locals.length) = [5] ∧ n.funcs.map (·.locals.length) = [4] ∧
    n.observe {} {} [("f", []), ("f", [.i32 1])] = m.observe {} {} [("f", []), ("f", [.i32 1])] := by
  obtain ⟨handed, reached⟩ := reached_spillingTwice
  let m := spillingModule [.i32, .f32, .i32, .i32]
    [.localGet 0, .ifThen .empty [.const (.i32 10), .ret, .const (.i32 10), .const (.f32 0),
      .localSet 2, .localSet 1, .localGet 1, .drop], .const (.i32 10), .const (.i32 20),
      .localGet 0, .localSet 4, .localSet 3, .localSet 1, .localGet 3, .const (.i32 10),
      .const (.i32 20), .binary (.intArith .w32 .add), .binary (.intArith .w32 .add), .ret]
  let n := spillingModule [.i32, .i32, .i32]
    [.localGet 0, .ifThen .empty [.const (.i32 10), .ret], .const (.i32 10), .const (.i32 20),
      .localGet 0, .localSet 3, .localSet 2, .localSet 1, .localGet 2, .const (.i32 30),
      .binary (.intArith .w32 .add), .ret]
  have plain : Build.assemble ⟨false, true, none, none⟩ spillingTwice = .ok m spillingTwice :=
    Build.assemble_of_lower rfl rfl (by cbv) fun _ => by decide +kernel
  have simplified : Build.assemble ⟨true, true, none, none⟩ spillingTwice = .ok n
      { spillingTwice with
        arena := ⟨(spillingTwice.arena.entries.set! 11 ⟨.const (.i32 30), some (.num .i32)⟩).set! 9
          ⟨.choose 0 [8] [] .none, some .none⟩⟩
        functions := #[⟨"f", [], .num .i32, .defined ⟨#[⟨"x", .num .i32, .local⟩]⟩ [9, 13]⟩] } :=
    Build.assemble_of_lower rfl (by cbv) (by cbv) fun _ => by decide +kernel
  have valid : m.isValid = true := by decide +kernel
  obtain ⟨n', d, made, valid', same⟩ := simplification_unnoticed reached rfl
    within_spillingTwice ⟨false, true, none, none⟩ plain valid
  cases simplified.symm.trans made
  exact ⟨_, m, n, _, _, reached, rfl, within_spillingTwice, plain, valid, simplified, valid', rfl, rfl,
    same {} {} (by decide) (by decide) _⟩

end Session

end WasmBuilder
