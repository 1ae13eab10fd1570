import Mathlib.Data.List.Nodup
import WasmBuilder.Proofs.Course.Appends
import WasmBuilder.Proofs.Startup.Session

/-!
Simplifying a build that goes on where another one ends.

Simplification looks at each expression and at each body by itself, so what two builds have in common
comes out of it the same. Nothing is cut inside expressions of either build, as no expression has a
return for an operand.
-/

set_option autoImplicit false

namespace WasmBuilder

namespace Arena

variable {a c : Arena}

theorem expandAll_eq {expand expand' : ExprId → Except BuildError (List ExprId × Nat)}
    (each : ∀ id flat flat', expand id = .ok flat → expand' id = .ok flat' → flat' = flat)
    {ids : List ExprId} {flat flat' : List ExprId × Nat} (here : expandAll expand ids = .ok flat)
    (there : expandAll expand' ids = .ok flat') : flat' = flat := by
  induction ids generalizing flat flat' with
  | nil => exact Except.ok.inj (there.symm.trans here)
  | cons id rest ih =>
    obtain ⟨first, one, here⟩ := bind_eq_ok_iff.1 here
    obtain ⟨others, all, here⟩ := bind_eq_ok_iff.1 here
    obtain ⟨first', one', there⟩ := bind_eq_ok_iff.1 there
    obtain ⟨others', all', there⟩ := bind_eq_ok_iff.1 there
    cases each id first first' one one'
    cases ih all all'
    exact Except.ok.inj (there.symm.trans here)

namespace Continues

variable (continues : a.Continues c)

include continues

theorem constant?_eq {id : ExprId} (old : id < a.size) : c.constant? id = a.constant? id := by
  apply Option.ext
  intro v
  rw [constant?_eq_some_iff, constant?_eq_some_iff]
  exact ⟨continues.node_of_lt old, continues id _⟩

theorem foldNode?_eq {node : Node} (old : ∀ child ∈ node.children, child < a.size) :
    c.foldNode? node = a.foldNode? node := by
  cases node with
  | binary op left right =>
    have first := continues.constant?_eq (old left List.mem_cons_self)
    have second := continues.constant?_eq (old right (List.mem_cons_of_mem _ List.mem_cons_self))
    simp only [foldNode?, first, second]
  | unary op operand =>
    have only := continues.constant?_eq (old operand List.mem_cons_self)
    simp only [foldNode?, only]
  | _ => rfl

/-- What is carried out behind all old expressions does not matter to them. -/
theorem foldAt_of_le {id : ExprId} (new : a.size ≤ id) (count : Nat) :
    a.Continues (foldAt (c, count) id).1 := by
  intro other node here
  have old := lt_size_of_node here
  have sheds := continues other node here
  simp only [foldAt]
  cases entry : c.entries[id]? with
  | none => exact sheds
  | some e =>
    cases folded : c.foldNode? e.node with
    | none =>
      simp only [folded]
      exact sheds
    | some v =>
      simp only [folded]
      rw [node_setIfInBounds entry, if_neg (Nat.ne_of_lt (Nat.lt_of_lt_of_le old new)), sheds]

/-- An old expression is carried out to the same in both. -/
theorem foldAt (labelled : a.Labelled) (count count' : Nat) (id : ExprId) :
    (Arena.foldAt (a, count) id).1.Continues (Arena.foldAt (c, count') id).1 := by
  rcases Nat.lt_or_ge id a.size with old | new
  · obtain ⟨node, here⟩ := exists_node_of_lt old
    obtain ⟨label, entry⟩ := node_eq_ok_iff.1 here
    obtain ⟨label', entry'⟩ := node_eq_ok_iff.1 (continues id node here)
    have same := continues.foldNode?_eq fun child mem =>
      Nat.lt_trans (labelled.ordered id _ entry child mem) old
    simp only [Arena.foldAt, entry, entry', same]
    cases a.foldNode? node with
    | none => exact continues
    | some v =>
      intro other node there
      rw [node_setIfInBounds entry] at there
      rw [node_setIfInBounds entry']
      split
      next is => rwa [if_pos is] at there
      next apart => exact continues other node (by rwa [if_neg apart] at there)
  · have none : a.entries[id]? = none := Array.getElem?_eq_none new
    have still : (Arena.foldAt (a, count) id).1 = a := by simp only [Arena.foldAt, none]
    rw [still]
    exact continues.foldAt_of_le new count'

/-- Operations on constants are carried out alike. -/
theorem foldConstants (labelled : a.Labelled) : a.foldConstants.1.Continues c.foldConstants.1 := by
  have common (ids : List ExprId) (a c : Arena) (count count' : Nat) (continues : a.Continues c)
      (labelled : a.Labelled) : (ids.foldl Arena.foldAt (a, count)).1.Continues
        (ids.foldl Arena.foldAt (c, count')).1 := by
    induction ids generalizing a c count count' with
    | nil => exact continues
    | cons id rest ih =>
      exact ih _ _ _ _ (continues.foldAt labelled count count' id)
        (labelled.foldAt count id).labelled
  have behind (ids : List ExprId) (a c : Arena) (count : Nat) (new : ∀ id ∈ ids, a.size ≤ id)
      (continues : a.Continues c) : a.Continues (ids.foldl Arena.foldAt (c, count)).1 := by
    induction ids generalizing c count with
    | nil => exact continues
    | cons id rest ih =>
      exact ih _ _ (fun other mem => new other (List.mem_cons_of_mem id mem))
        (continues.foldAt_of_le (new id List.mem_cons_self) count)
  -- the sweep over the longer arena begins with a sweep over the old expressions
  obtain ⟨more, size⟩ := Nat.exists_eq_add_of_le continues.size_le
  have all : c.foldConstants = ((List.range more).map (a.size + ·)).foldl Arena.foldAt
      ((List.range a.size).foldl Arena.foldAt (c, 0)) := by
    rw [Arena.foldConstants, size, List.range_add, List.foldl_append]
  rw [all]
  apply behind _ _ _ _ _ (common _ a c 0 0 continues labelled)
  intro id mem
  obtain ⟨i, _, rfl⟩ := List.mem_map.1 mem
  exact Nat.le_trans (Nat.le_of_eq (sheds_foldConstants a).size) (Nat.le_add_right _ _)

theorem groupedStatements?_eq {id : ExprId} {grouped grouped' : Option (List ExprId)}
    (here : a.groupedStatements? id = .ok grouped) (there : c.groupedStatements? id = .ok grouped') :
    grouped' = grouped := by
  obtain ⟨ts, slots, here⟩ := bind_eq_ok_iff.1 here
  obtain ⟨node, is, here⟩ := bind_eq_ok_iff.1 here
  obtain ⟨us, slots', there⟩ := bind_eq_ok_iff.1 there
  obtain ⟨node', is', there⟩ := bind_eq_ok_iff.1 there
  cases continues.slots_eq slots slots'
  cases (continues id node is).symm.trans is'
  exact Except.ok.inj (there.symm.trans here)

/-- A statement stands for the same statements, however far either arena is looked through. -/
theorem expandWithin_eq {depth depth' : Nat} {id : ExprId} {flat flat' : List ExprId × Nat}
    (here : a.expandWithin depth id = .ok flat) (there : c.expandWithin depth' id = .ok flat') :
    flat' = flat := by
  induction depth generalizing depth' id flat flat' with
  | zero => cases here
  | succ depth ih =>
    cases depth' with
    | zero => cases there
    | succ depth' =>
      obtain ⟨grouped, found, here⟩ := bind_eq_ok_iff.1 here
      obtain ⟨grouped', found', there⟩ := bind_eq_ok_iff.1 there
      cases continues.groupedStatements?_eq found found'
      cases grouped with
      | none => exact Except.ok.inj (there.symm.trans here)
      | some items =>
        obtain ⟨inside, all, here⟩ := bind_eq_ok_iff.1 here
        obtain ⟨inside', all', there⟩ := bind_eq_ok_iff.1 there
        cases expandAll_eq (fun _ _ _ => ih) all all'
        exact Except.ok.inj (there.symm.trans here)

theorem flattenBlocks_eq {body : List ExprId} {flat flat' : List ExprId × Nat}
    (here : a.flattenBlocks body = .ok flat) (there : c.flattenBlocks body = .ok flat') :
    flat' = flat :=
  expandAll_eq (fun _ _ _ => continues.expandWithin_eq) here there

theorem cut {list : List ExprId} {kept : List ExprId × Nat} (done : a.cut list = .ok kept) :
    c.cut list = .ok kept := by
  induction list generalizing kept with
  | nil => exact done
  | cons id rest ih =>
    obtain ⟨node, here, _⟩ := bind_eq_ok_iff.1 done
    cases isReturn : node.isReturn with
    | true =>
      obtain ⟨value, rfl⟩ := Node.exists_ret isReturn
      rw [cut_cons_of_return here] at done
      rw [cut_cons_of_return (continues id _ here), done]
    | false =>
      rw [cut_cons_of_passes ⟨node, here, isReturn⟩] at done
      obtain ⟨tail, others, done⟩ := bind_eq_ok_iff.1 done
      rw [cut_cons_of_passes ⟨node, continues id node here, isReturn⟩, ih others]
      exact done

end Continues

end Arena

/-- A function that keeps its statements up to the first return, and has none that only group
others. -/
inductive Function.Shortens (a : Arena) : Function → Function → Prop
  | imported {f : Function} (isImported : f.isImported = true) : Shortens a f f
  | defined {id : String} {params : List Shape} {result : Shape} {scope : Scope}
      {body flat kept : List ExprId} {n k : Nat} (flattened : a.flattenBlocks body = .ok (flat, n))
      (cut : a.cut flat = .ok (kept, k)) :
      Shortens a ⟨id, params, result, .defined scope body⟩ ⟨id, params, result, .defined scope kept⟩

/-- Where two arenas agree on what one of them has, functions become the same. -/
theorem Function.Shortens.eq {a c : Arena} (continues : a.Continues c) {f g g' : Function}
    (here : f.Shortens a g) (there : f.Shortens c g') : g' = g := by
  cases here with
  | imported isImported =>
    cases there with
    | imported => rfl
    | defined => cases isImported
  | defined flattened cut =>
    cases there with
    | imported isImported => cases isImported
    | defined flattened' cut' =>
      cases continues.flattenBlocks_eq flattened flattened'
      cases (continues.cut cut).symm.trans cut'
      rfl

namespace Build

variable {b c d : Build}

theorem simplifyBody_eq_ok (calm : b.arena.Calm) {ref : BodyRef} {counts next : SimplifyCounts}
    (done : simplifyBody ref counts b = .ok next c) : ∃ flat n kept k,
      b.arena.flattenBlocks (b.bodyOf ref) = .ok (flat, n) ∧ b.arena.cut flat = .ok (kept, k) ∧
      c = (b.setBody ref flat).setBody ref kept := by
  obtain ⟨_, _, ⟨⟩, done⟩ := exists_of_bind_eq_ok done
  cases flattened : b.arena.flattenBlocks (b.bodyOf ref) with
  | error e =>
    simp only [flattened] at done
    cases done
  | ok result =>
    obtain ⟨flat, n⟩ := result
    simp only [flattened] at done
    obtain ⟨_, _, ⟨⟩, done⟩ := exists_of_bind_eq_ok done
    cases cut : b.arena.cut flat with
    | error e =>
      simp only [cut] at done
      cases done
    | ok result =>
      obtain ⟨kept, k⟩ := result
      simp only [cut] at done
      obtain ⟨_, _, ⟨⟩, done⟩ := exists_of_bind_eq_ok done
      have visited := Unreachable.same_visitAll (s := ⟨b.arena, k⟩) calm kept
      cases run : (Unreachable.visitAll kept).run ⟨b.arena, k⟩ with
      | error e s =>
        simp only [run] at done
        cases done
      | ok _ s =>
        simp only [run] at done
        -- nothing is cut inside expressions, so they are written back as they were
        cases (visited.of_ok run).1
        cases done
        refine ⟨flat, n, kept, k, rfl, cut, ?_⟩
        cases ref <;> rfl

/-- The bodies of these functions, and perhaps the start statements, were made shorter, and nothing
else happened. -/
structure Shortened (b c : Build) (refs : List BodyRef) : Prop where
  rest : c = { b with functions := c.functions, startBody := c.startBody }
  size : c.functions.size = b.functions.size
  among : ∀ (k : Nat) (f : Function), .function k ∈ refs → b.functions[k]? = some f →
    ∃ g, c.functions[k]? = some g ∧ f.Shortens b.arena g
  others : ∀ k : Nat, .function k ∉ refs → c.functions[k]? = b.functions[k]?

theorem function_setBody {i : Nat} {f : Function} (here : b.functions[i]? = some f)
    (body : List ExprId) :
    (b.setBody (.function i) body).functions[i]? = some (Function.withBody f body) := by
  rw [setBody, Array.getElem?_modify, if_pos rfl, here, Option.map_some]

theorem shortened_simplifyBody (calm : b.arena.Calm) {ref : BodyRef} {counts next : SimplifyCounts}
    (done : simplifyBody ref counts b = .ok next c) : b.Shortened c [ref] := by
  obtain ⟨flat, n, kept, k, flattened, cut, rfl⟩ := simplifyBody_eq_ok calm done
  cases ref with
  | start =>
    refine ⟨rfl, rfl, fun k f mem => ?_, fun k _ => rfl⟩
    cases List.mem_singleton.1 mem
  | function i =>
    refine ⟨rfl, ?_, fun k f mem here => ?_, fun k apart => ?_⟩
    · rw [size_setBody, size_setBody]
    · cases List.mem_singleton.1 mem
      refine ⟨_, function_setBody (function_setBody here flat) kept, ?_⟩
      obtain ⟨id, params, result, kind⟩ := f
      cases kind with
      | imported key => exact .imported rfl
      | defined scope body =>
        simp only [bodyOf, here] at flattened
        exact .defined flattened cut
    · have other : i ≠ k := fun is => apart (is ▸ List.mem_singleton_self _)
      simp [setBody, Array.getElem?_modify, other]

theorem shortened_foldlM (calm : b.arena.Calm) {refs : List BodyRef} (distinct : refs.Nodup)
    {counts next : SimplifyCounts}
    (done : refs.foldlM (fun counts ref => simplifyBody ref counts) counts b = .ok next c) :
    b.Shortened c refs := by
  induction refs generalizing b counts with
  | nil =>
    cases done
    exact ⟨rfl, rfl, fun k f mem => absurd mem List.not_mem_nil, fun k _ => rfl⟩
  | cons ref rest ih =>
    rw [List.foldlM_cons] at done
    obtain ⟨_, d, one, done⟩ := exists_of_bind_eq_ok done
    obtain ⟨new, distinct⟩ := List.nodup_cons.1 distinct
    have first := shortened_simplifyBody calm one
    have arena : d.arena = b.arena := by rw [first.rest]
    have later := ih (arena ▸ calm) distinct done
    refine ⟨?_, later.size.trans first.size, fun k f mem here => ?_, fun k apart => ?_⟩
    · rw [later.rest, first.rest]
    · rcases List.mem_cons.1 mem with is | mem
      · obtain ⟨g, there, shortens⟩ := first.among k f (is ▸ List.mem_singleton_self _) here
        exact ⟨g, (later.others k (is ▸ new)).trans there, shortens⟩
      · have apart : .function k ∉ [ref] := fun is => new (List.mem_singleton.1 is ▸ mem)
        rw [← arena]
        exact later.among k f mem ((first.others k apart).trans here)
    · rw [later.others k fun mem => apart (List.mem_cons_of_mem _ mem)]
      exact first.others k fun is => apart (List.mem_singleton.1 is ▸ List.mem_cons_self)

theorem nodup_bodyRefs (b : Build) : b.bodyRefs.Nodup := by
  have functions : (((List.range b.functions.size).filter fun i =>
      (b.functions[i]?.map (!·.isImported)).getD false).map BodyRef.function).Nodup :=
    (List.nodup_range.filter _).map fun _ _ => BodyRef.function.inj
  refine List.nodup_append.2 ⟨functions, List.nodup_cons.2 ⟨List.not_mem_nil, List.nodup_nil⟩, ?_⟩
  rintro x mem _ start rfl
  obtain ⟨i, -, rfl⟩ := List.mem_map.1 mem
  cases List.mem_singleton.1 start

theorem mem_bodyRefs_iff {k : Nat} {f : Function} (here : b.functions[k]? = some f) :
    .function k ∈ b.bodyRefs ↔ f.isImported = false := by
  obtain ⟨inside, is⟩ := Array.getElem?_eq_some_iff.1 here
  simp [bodyRefs, inside, is]

/-- What simplification does to a build: operations on constants are carried out, and bodies are made
shorter. -/
theorem simplify_eq_ok (calm : b.arena.Calm) {counts : SimplifyCounts}
    (done : simplify b = .ok counts c) :
    c = { b with
      arena := b.arena.foldConstants.1, functions := c.functions, startBody := c.startBody } ∧
      c.functions.size = b.functions.size ∧
      ∀ (k : Nat) (f : Function), b.functions[k]? = some f →
        ∃ g, c.functions[k]? = some g ∧ f.Shortens b.arena.foldConstants.1 g := by
  obtain ⟨_, _, ⟨⟩, done⟩ := exists_of_bind_eq_ok done
  obtain ⟨_, _, ⟨⟩, done⟩ := exists_of_bind_eq_ok done
  obtain ⟨_, _, ⟨⟩, done⟩ := exists_of_bind_eq_ok done
  have shortened := shortened_foldlM calm.foldConstants.2 (nodup_bodyRefs _) done
  refine ⟨shortened.rest, shortened.size, fun k f here => ?_⟩
  cases isImported : f.isImported with
  | false => exact shortened.among k f ((mem_bodyRefs_iff here).2 isImported) here
  | true =>
    refine ⟨f, (shortened.others k fun mem => ?_).trans here, .imported isImported⟩
    rw [(mem_bodyRefs_iff here).1 mem] at isImported
    cases isImported

namespace Continues

variable {b' c' : Build} (continues : b.Continues c)

include continues

/-- A build that goes on where another one ends still does when both are simplified. -/
theorem simplify (calm : b.IsCalm) (calm' : c.IsCalm) {counts counts' : SimplifyCounts}
    (done : Build.simplify b = .ok counts b') (done' : Build.simplify c = .ok counts' c') :
    b'.Continues c' := by
  obtain ⟨rest, size, each⟩ := simplify_eq_ok calm.calm done
  obtain ⟨rest', -, each'⟩ := simplify_eq_ok calm'.calm done'
  have folded := continues.arena.foldConstants calm.labelled
  constructor
  · rw [rest, rest']
    exact folded
  · rw [List.prefix_iff_getElem?]
    intro k inside
    have old : k < b.functions.size := by rwa [Array.length_toList, size] at inside
    have here : b.functions[k]? = some b.functions[k] := Array.getElem?_eq_getElem old
    obtain ⟨g, is, shortens⟩ := each k _ here
    obtain ⟨g', is', shortens'⟩ := each' k _ (continues.function here)
    cases shortens.eq folded shortens'
    rw [Array.getElem?_toList, is', ← List.getElem?_eq_getElem inside, Array.getElem?_toList, is]
  · rw [rest, rest']
    exact continues.globals
  · rw [rest, rest']
    exact continues.table
  · rw [rest, rest']
    exact continues.exports
  · rw [rest, rest']
    exact continues.memory

theorem simplifyIf (calm : b.IsCalm) (calm' : c.IsCalm) {wanted : Bool}
    (done : Build.simplifyIf wanted b = .ok ⟨⟩ b')
    (done' : Build.simplifyIf wanted c = .ok ⟨⟩ c') : b'.Continues c' := by
  cases wanted with
  | false =>
    cases done
    cases done'
    exact continues
  | true =>
    obtain ⟨_, _, done, ⟨⟩⟩ := exists_of_bind_eq_ok done
    obtain ⟨_, _, done', ⟨⟩⟩ := exists_of_bind_eq_ok done'
    exact continues.simplify calm calm' done done'

theorem importing (memory : Option MemoryDecl) :
    (b.importing memory).Continues (c.importing memory) := by
  cases memory with
  | none => exact continues
  | some decl =>
    rw [Build.importing, Build.importing, continues.memory]
    split
    · exact continues
    · exact { continues with memory := rfl }

theorem assemble (calm : b.IsCalm) (calm' : c.IsCalm) {options : CompileOptions} {m n : Wasm.Module}
    (done : Build.assemble options b = .ok m b') (done' : Build.assemble options c = .ok n c') :
    b'.Continues c' := by
  have finished {b b' : Build} {m : Wasm.Module} (done : Build.assemble options b = .ok m b') :
      Build.simplifyIf options.optimize (b.importing options.memory) = .ok ⟨⟩ b' := by
    rw [assemble_run] at done
    split at done
    · cases done
    · obtain ⟨_, d, simplified, last⟩ := exists_of_bind_eq_ok done
      obtain ⟨rfl, -⟩ := ((trims_lowered options).of_ok last).2
      exact simplified
  have imports {b : Build} (calm : b.IsCalm) : (b.importing options.memory).IsCalm :=
    (retains_importing options.memory calm).1
  exact (continues.importing options.memory).simplifyIf (imports calm) (imports calm')
    (finished done) (finished done')

end Continues

end Build

end WasmBuilder
