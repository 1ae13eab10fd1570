import WasmBuilder.Proofs.Course.Sheds
import WasmBuilder.Proofs.Lowering.Spills
import WasmBuilder.Proofs.Simplify.Binary
import WasmBuilder.Proofs.Simplify.Trimmed
import WasmBuilder.Proofs.Wasm.ShorterModules

/-!
The same body, lowered before and after it was simplified.

What simplification leaves of an expression is lowered whenever the expression is. Its code is shorter:
it lists no types that were not listed before, and takes no more scratch locals of any type. The locals
that it does take are those of the same ranks.
-/

set_option autoImplicit false

namespace WasmBuilder

namespace Lower

open Wasm (Abridgement BlockType Instr)

/-- A state of lowering what is left, next to one of lowering what there was: no scratch local is in
use, no type is new, and there are no more scratch locals of any type. -/
structure LowerState.Trails (t s : LowerState) : Prop where
  free : s.Free
  free' : t.Free
  types : ∀ signature ∈ t.types.toList, signature ∈ s.types.toList
  counts : ∀ u, t.scratchTypes.count u ≤ s.scratchTypes.count u

theorem LowerState.Trails.of_extends {s s' t : LowerState} (trails : t.Trails s)
    (grown : s.tables.Extends s'.tables) (free : s'.Free) : t.Trails s' where
  free := free
  free' := trails.free'
  types signature mem := grown.types.subset (trails.types signature mem)
  counts u := (trails.counts u).trans (grown.scratch.count_le u)

/-- The types of two modules that are called the same stand for each other. -/
def Names (A : Abridgement) (M N : List Signature) : Prop :=
  ∀ (i j : Nat) (signature : Signature), M[i]? = some signature → N[j]? = some signature → A.type i j

section
variable (A : Abridgement)

/-- Two computations, the second of which does less. It succeeds when the first one does, and what they
answer is related in all tables that have what was added. -/
def Trailing {α β : Type} (m : LowerM α) (n : LowerM β) (P : Tables → Tables → α → β → Prop) : Prop :=
  ∀ (s t : LowerState) (x : α) (s' : LowerState), t.Trails s → m s = .ok (x, s') →
    ∃ y t', n t = .ok (y, t') ∧ t'.Trails s' ∧ s.tables.Extends s'.tables ∧
      t.tables.Extends t'.tables ∧ ∀ K L : Tables, Names A K.types L.types → s'.tables.Extends K →
        t'.tables.Extends L → P K L x y

end

namespace Trailing

variable {A : Abridgement} {α β γ δ : Type} {P : Tables → Tables → α → β → Prop}
  {Q : Tables → Tables → γ → δ → Prop}

theorem pure {x : α} {y : β} (holds : ∀ K L, P K L x y) : Trailing A (Pure.pure x) (Pure.pure y) P := by
  rintro s t _ _ trails ⟨⟩
  exact ⟨y, t, rfl, trails, .refl _, .refl _, fun K L _ _ _ => holds K L⟩

theorem throw {e : BuildError} {n : LowerM β} : Trailing A (MonadExcept.throw e) n P := by
  intro s t x s' _ done
  cases done

theorem throw_bind {e : BuildError} {f : α → LowerM γ} {n : LowerM δ} :
    Trailing A (MonadExcept.throw e >>= f) n Q := by
  intro s t x s' _ done
  cases done

theorem weaken {P' : Tables → Tables → α → β → Prop} {m : LowerM α} {n : LowerM β}
    (trailing : Trailing A m n P) (implies : ∀ K L x y, P K L x y → P' K L x y) :
    Trailing A m n P' := by
  intro s t x s' trails done
  obtain ⟨y, t', done', trails', grown, grown', holds⟩ := trailing s t x s' trails done
  exact ⟨y, t', done', trails', grown, grown', fun K L names le le' =>
    implies K L x y (holds K L names le le')⟩

theorem bind {m : LowerM α} {n : LowerM β} {f : α → LowerM γ} {g : β → LowerM δ}
    (first : Trailing A m n P)
    (second : ∀ x y, Trailing A (f x) (g y) fun K L z w => P K L x y → Q K L z w) :
    Trailing A (m >>= f) (n >>= g) Q := by
  intro s t z s'' trails done
  obtain ⟨x, s', run, rest⟩ := bind_eq_ok.1 done
  obtain ⟨y, t', run', trails', grown, grown', holds⟩ := first s t x s' trails run
  obtain ⟨w, t'', rest', trails'', more, more', implies⟩ := second x y s' t' z s'' trails' rest
  exact ⟨w, t'', bind_eq_ok.2 ⟨y, t', run', rest'⟩, trails'', grown.trans more, grown'.trans more',
    fun K L names le le' =>
      implies K L names le le' (holds K L names (more.trans le) (more'.trans le'))⟩

theorem lift_bind {e : Except BuildError α} {e' : Except BuildError β} {f : α → LowerM γ}
    {g : β → LowerM δ}
    (rest : ∀ x, e = .ok x → ∃ y, e' = .ok y ∧ Trailing A (f x) (g y) Q) :
    Trailing A (liftM e >>= f) (liftM e' >>= g) Q := by
  cases e with
  | error e => exact .throw_bind
  | ok x =>
    obtain ⟨y, rfl, trailing⟩ := rest x rfl
    exact trailing

theorem same_bind {e e' : Except BuildError α} {f : α → LowerM γ} {g : α → LowerM δ} (same : e' = e)
    (rest : ∀ x, e = .ok x → Trailing A (f x) (g x) Q) :
    Trailing A (liftM e >>= f) (liftM e' >>= g) Q :=
  lift_bind fun x found => ⟨x, same.trans found, rest x found⟩

theorem lost_bind {P : Tables → α → Prop} {m : LowerM α} {f : α → LowerM γ} {n : LowerM δ}
    (lost : Yields m P)
    (rest : ∀ x, Trailing A (f x) n fun K L z w => P K x → Q K L z w) :
    Trailing A (m >>= f) n Q := by
  intro s t z s'' trails done
  obtain ⟨x, s', run, others⟩ := bind_eq_ok.1 done
  obtain ⟨grown, free, holds⟩ := lost s x s' trails.free run
  obtain ⟨w, t', run', trails', more, grown', implies⟩ :=
    rest x s' t z s'' (trails.of_extends grown free) others
  exact ⟨w, t', run', trails', grown.trans more, grown', fun K L names le le' =>
    implies K L names le le' (holds K (more.trans le))⟩

end Trailing

theorem mem_types_intern {signature : Signature} {s s' : LowerState} {i : Nat}
    (done : intern signature s = .ok (i, s')) (other : Signature) :
    other ∈ s'.types.toList ↔ other ∈ s.types.toList ∨ other = signature := by
  rw [intern_eq] at done
  cases done
  dsimp only
  split
  next known =>
    refine ⟨.inl, fun mem => mem.elim id ?_⟩
    rintro rfl
    exact Array.mem_toList_iff.2 known
  next => simp

section
variable {A : Abridgement}

theorem trailing_intern (signature : Signature) :
    Trailing A (intern signature) (intern signature) fun _ _ i j => A.type i j := by
  intro s t i s' trails done
  obtain ⟨grown, free, listed⟩ := yields_intern signature s i s' trails.free done
  have there := intern_eq signature t
  obtain ⟨grown', free', listed'⟩ := yields_intern signature t _ _ trails.free' there
  refine ⟨_, _, there, ?_, grown, grown', fun K L names le le' =>
    names i _ signature (listed K le) (listed' L le')⟩
  refine ⟨free, free', fun other mem => ?_, fun u => (trails.counts u).trans (grown.scratch.count_le u)⟩
  exact (mem_types_intern done other).2
    (((mem_types_intern there other).1 mem).imp_left (trails.types other))

theorem trailing_blockType (ts : List NumType) :
    Trailing A (blockType ts) (blockType ts) fun _ _ => A.Block := by
  match ts with
  | [] => exact .pure fun _ _ => .empty
  | [t] => exact .pure fun _ _ => .value (.num t)
  | a :: b :: rest =>
    exact (trailing_intern ⟨[], a :: b :: rest⟩).bind fun i j => .pure fun _ _ types => .index types

def Matches (ts us : List NumType) (i j : Nat) : Prop := ∃ t rank, Nth ts t rank i ∧ Nth us t rank j

theorem Ranked.matches_ {ts us run : List NumType} {used : NumType → Nat} {is js : List Nat}
    (one : Ranked ts used run is) (other : Ranked us used run js) :
    List.Forall₂ (Matches ts us) is js := by
  induction one generalizing js with
  | nil =>
    cases other
    exact .nil
  | cons first _ ih =>
    cases other with
    | cons first' others => exact .cons ⟨_, _, first, first'⟩ (ih others)

theorem trailing_spill (ts : List NumType) :
    Trailing A (spill ts) (spill ts) fun K L => List.Forall₂ (Matches K.scratch L.scratch) := by
  intro s t is s' trails done
  obtain ⟨is', u, run, free, types, grown, ranked, counts⟩ := spill_spec trails.free ts
  obtain ⟨js, t', run', free', types', grown', ranked', counts'⟩ := spill_spec trails.free' ts
  cases run.symm.trans done
  refine ⟨js, t', run', ⟨free, free', ?_, fun x => ?_⟩, ⟨?_, grown⟩, ⟨?_, grown'⟩, ?_⟩
  · rw [types, types']
    exact trails.types
  · rw [counts, counts']
    exact max_le_max (trails.counts x) (Nat.le_refl _)
  · rw [LowerState.tables, LowerState.tables, types]
  · rw [LowerState.tables, LowerState.tables, types']
  · intro K L _ le le'
    exact (ranked.of_prefix le.scratch).matches_ (ranked'.of_prefix le'.scratch)

end

/-- Machine locals that stand for each other: what variables take for itself, and scratch locals of the
same type and rank. -/
def Stands (base : Nat) (ts us : List NumType) (k l : Nat) : Prop :=
  k = l ∧ k < base ∨ ∃ i j, k = base + i ∧ l = base + j ∧ Matches ts us i j

theorem Matches.unique {ts us : List NumType} {i j x y : Nat} (one : Matches ts us i j)
    (other : Matches ts us x y) : x = i ↔ y = j := by
  obtain ⟨t, rank, here, there⟩ := one
  obtain ⟨u, rank', here', there'⟩ := other
  constructor
  · rintro rfl
    cases here.1.symm.trans here'.1
    cases here.2.symm.trans here'.2
    exact there'.unique there
  · rintro rfl
    cases there.1.symm.trans there'.1
    cases there.2.symm.trans there'.2
    exact here'.unique here

theorem places_stands {params vars : List NumType} (few : params.length ≤ vars.length)
    (ts us : List NumType) :
    Abridgement.Places (Stands vars.length ts us) (params.map .num)
      ((vars.drop params.length ++ ts).map .num) ((vars.drop params.length ++ us).map .num) := by
  have all (ts : List NumType) : params.map Wasm.ValType.num ++
      (vars.drop params.length ++ ts).map .num = (params ++ vars.drop params.length ++ ts).map .num := by
    rw [← List.map_append, List.append_assoc]
  have front : (params ++ vars.drop params.length).length = vars.length := by
    rw [List.length_append, List.length_drop]
    omega
  refine ⟨?_, ?_, ?_⟩
  · rintro k l x y (⟨rfl, inside⟩ | ⟨i, j, rfl, rfl, same⟩) (⟨rfl, inside'⟩ | ⟨i', j', rfl, rfl, same'⟩)
    · exact Iff.rfl
    · constructor <;> intro <;> omega
    · constructor <;> intro <;> omega
    · rw [Nat.add_left_cancel_iff, Nat.add_left_cancel_iff]
      exact same.unique same'
  · rintro k l (⟨rfl, inside⟩ | ⟨i, j, rfl, rfl, t, rank, here, there⟩)
    · have before : k < (params ++ vars.drop params.length).length := by rwa [front]
      rw [all, all, List.getElem?_map, List.getElem?_map, List.getElem?_append_left before,
        List.getElem?_append_left before]
    · rw [all, all, List.getElem?_map, List.getElem?_map, ← front,
        List.getElem?_append_right (Nat.le_add_right _ _),
        List.getElem?_append_right (Nat.le_add_right _ _), Nat.add_sub_cancel_left,
        Nat.add_sub_cancel_left, here.1, there.1]
  · rintro k l (⟨rfl, inside⟩ | ⟨i, j, rfl, rfl, same⟩) own
    · rfl
    · rw [List.length_map] at own
      omega

end Lower

namespace Arena

/-- What is left of a list: all of it, or what stands up to a return. -/
inductive Kept (a : Arena) : List ExprId → List ExprId → Prop
  | nil : Kept a [] []
  | cons {id : ExprId} {rest rest' : List ExprId} (others : Kept a rest rest') :
      Kept a (id :: rest) (id :: rest')
  | stop {id : ExprId} (returns : a.isReturn id = true) (rest : List ExprId) : Kept a (id :: rest) [id]

namespace Kept

variable {a : Arena} {ids ids' : List ExprId}

theorem refl (ids : List ExprId) : a.Kept ids ids := by
  induction ids with
  | nil => exact .nil
  | cons id rest ih => exact .cons ih

theorem upToReturn (ids : List ExprId) : a.Kept ids (a.upToReturn ids) := by
  induction ids with
  | nil => exact .nil
  | cons id rest ih =>
    cases stops : a.isReturn id with
    | true =>
      rw [upToReturn_cons_of_return stops]
      exact .stop stops rest
    | false =>
      rw [upToReturn_cons_of_passes stops]
      exact .cons ih

theorem isEmpty_eq (kept : a.Kept ids ids') : ids'.isEmpty = ids.isEmpty := by
  cases kept <;> rfl

end Kept

/-- What simplification makes of a node in one step. -/
inductive Leans (a : Arena) : Node → Node → Prop
  | same (node : Node) : Leans a node node
  | binary {op : BinOp} {left right : ExprId} {x y v : Value} (first : a.node left = .ok (.const x))
      (second : a.node right = .ok (.const y)) (carried : op.constant? x y = some v) :
      Leans a (.binary op left right) (.const v)
  | unary {op : UnOp} {operand : ExprId} {x v : Value} (only : a.node operand = .ok (.const x))
      (carried : op.constant? x = some v) : Leans a (.unary op operand) (.const v)
  | block {items items' : List ExprId} {shape : Shape} (kept : a.Kept items items') :
      Leans a (.block items shape) (.block items' shape)
  | choose {cond : ExprId} {yes yes' no no' : List ExprId} {shape : Shape} (kept : a.Kept yes yes')
      (kept' : a.Kept no no') : Leans a (.choose cond yes no shape) (.choose cond yes' no' shape)
  | loop {init step step' body body' : List ExprId} {cond : ExprId} (kept : a.Kept step step')
      (kept' : a.Kept body body') : Leans a (.loop init cond step body) (.loop init cond step' body')

theorem leans_upToReturns (a : Arena) (node : Node) : a.Leans node (node.upToReturns a) := by
  cases node with
  | block items shape =>
    cases shape with
    | none => exact .block (.upToReturn items)
    | num | tuple | record | auto => exact .same _
  | choose cond yes no shape =>
    cases shape with
    | none => exact .choose (.upToReturn yes) (.upToReturn no)
    | num | tuple | record | auto => exact .same _
  | loop init cond step body => exact .loop (.upToReturn step) (.upToReturn body)
  | _ => exact .same _

theorem leans_of_foldNode? {a : Arena} {node : Node} {v : Value} (folded : a.foldNode? node = some v) :
    a.Leans node (.const v) := by
  unfold foldNode? at folded
  split at folded
  next op left right =>
    obtain ⟨x, first, folded⟩ := Option.bind_eq_some_iff.1 folded
    obtain ⟨y, second, carried⟩ := Option.bind_eq_some_iff.1 folded
    exact .binary (constant?_eq_some_iff.1 first) (constant?_eq_some_iff.1 second) carried
  next op operand =>
    obtain ⟨x, only, carried⟩ := Option.bind_eq_some_iff.1 folded
    exact .unary (constant?_eq_some_iff.1 only) carried
  next => cases folded

structure Leaner (a c : Arena) : Prop where
  alike : a.Alike c
  each : ∀ id node, a.node id = .ok node → ∃ other, c.node id = .ok other ∧ a.Leans node other

end Arena

inductive Function.Leans (a : Arena) : Function → Function → Prop
  | imported {f : Function} {key : ImportKey} (kind : f.kind = .imported key) : Leans a f f
  | defined {f : Function} {scope : Scope} {body body' : List ExprId} (kind : f.kind = .defined scope body)
      (kept : a.Kept body body') : Leans a f { f with kind := .defined scope body' }

namespace Lower

open Wasm (Abridgement BlockType Instr)

structure Leaner (l l' : Layout) : Prop where
  arena : l.arena.Leaner l'.arena
  localBases : l'.localBases = l.localBases
  globalBases : l'.globalBases = l.globalBases
  funcIndices : l'.funcIndices = l.funcIndices
  scratchBase : l'.scratchBase = l.scratchBase

namespace Leaner

variable {l l' : Layout} (leaner : Leaner l l')

include leaner

theorem localBase (slot : Nat) : l'.localBase slot = l.localBase slot := by
  rw [Layout.localBase, leaner.localBases, ← Layout.localBase]

theorem globalBase (global : Nat) : l'.globalBase global = l.globalBase global := by
  rw [Layout.globalBase, leaner.globalBases, ← Layout.globalBase]

theorem funcIndex (func : Nat) : l'.funcIndex func = l.funcIndex func := by
  rw [Layout.funcIndex, leaner.funcIndices, ← Layout.funcIndex]

end Leaner

structure Layout.Bounded (l : Layout) (known : ExprId → Prop) : Prop where
  children : ∀ id node, known id → l.arena.node id = .ok node → ∀ child ∈ node.children, known child
  reads : ∀ id k, known id → l.Reads id k → k < l.scratchBase
  writes : ∀ id k, known id → l.Writes id k → k < l.scratchBase

/-- Code and shorter code, which both end with a return if this is one. -/
structure Shorter (A : Abridgement) (P : Nat → Nat → Prop) (returns : Prop) (code code' : List Instr) :
    Prop where
  shortens : A.ShortensSeq P code code'
  ends : returns → ∃ c c',
    code = c ++ [Instr.ret] ∧ code' = c' ++ [Instr.ret] ∧ A.ShortensSeq P c c'

theorem Shorter.stop {A : Abridgement} {P : Nat → Nat → Prop} {returns : Prop} {code code' : List Instr}
    (shorter : Shorter A P returns code code') (is : returns) (lost : List Instr) :
    A.ShortensSeq P (code ++ lost) code' := by
  obtain ⟨c, c', rfl, rfl, shortens⟩ := shorter.ends is
  rw [List.append_assoc, List.singleton_append]
  have last : A.ShortensSeq P (.ret :: (lost ++ [])) [.ret] := .behindReturn lost .nil
  rw [List.append_nil] at last
  exact shortens.append last

theorem slots_of_isReturn {a : Arena} {id : ExprId} (returns : a.isReturn id = true) :
    a.slots id = .ok [] := by
  cases here : a.node id with
  | error e =>
    rw [Arena.isReturn, here] at returns
    cases returns
  | ok node =>
    rw [Arena.isReturn_of_node here] at returns
    obtain ⟨value, rfl⟩ := Node.exists_ret returns
    rw [Arena.slots, Arena.pathBound, Arena.slotsWithin, here]
    rfl

theorem CodeWithin.const {l : Layout} {K : Tables} {depth : Nat} {id : ExprId} {code : List Instr}
    {v : Value} (lowered : CodeWithin l K depth id code) (here : l.arena.node id = .ok (.const v)) :
    code = [.const v] := by
  cases depth with
  | zero => exact lowered.elim
  | succ depth =>
    obtain ⟨node, there, lowered⟩ := lowered
    cases here.symm.trans there
    cases lowered
    rfl

section
variable {A : Abridgement} {l l' : Layout} {known : ExprId → Prop} {depth : Nat}
  (leaner : Leaner l l') (bounded : l.Bounded known)
  (funcs : ∀ func f, l.funcIndex func = .ok f → A.func f)
  (each : ∀ id, known id → Trailing A (l.exprWithin depth id) (l'.exprWithin depth id) fun K L =>
    Shorter A (Stands l.scratchBase K.scratch L.scratch) (l.arena.isReturn id = true))

include each

theorem trailing_operands {ids : List ExprId} (all : ∀ id ∈ ids, known id) :
    Trailing A (Layout.operands (l.exprWithin depth) ids) (Layout.operands (l'.exprWithin depth) ids)
      fun K L => A.ShortensSeq (Stands l.scratchBase K.scratch L.scratch) := by
  induction ids with
  | nil => exact .pure fun _ _ => .nil
  | cons id rest ih =>
    refine (each id (all id List.mem_cons_self)).bind fun _ _ =>
      (ih fun x mem => all x (List.mem_cons_of_mem id mem)).bind fun _ _ => .pure ?_
    exact fun K L others first => first.shortens.append others

include leaner

theorem trailing_statement {id : ExprId} (isKnown : known id) :
    Trailing A (l.statement (l.exprWithin depth) id) (l'.statement (l'.exprWithin depth) id)
      fun K L => Shorter A (Stands l.scratchBase K.scratch L.scratch) (l.arena.isReturn id = true) := by
  refine (each id isKnown).bind fun _ _ => .same_bind (leaner.arena.alike.slots id) fun ts slots =>
    .pure fun K L shorter => ⟨?_, fun returns => ?_⟩
  · exact shorter.shortens.append (.map (List.forall₂_same.2 fun _ _ => .nameless rfl))
  · cases slots.symm.trans (slots_of_isReturn returns)
    simpa using shorter.ends returns

theorem trailing_statements {ids ids' : List ExprId} (kept : l.arena.Kept ids ids')
    (all : ∀ id ∈ ids, known id) :
    Trailing A (l.statements (l.exprWithin depth) ids) (l'.statements (l'.exprWithin depth) ids')
      fun K L => A.ShortensSeq (Stands l.scratchBase K.scratch L.scratch) := by
  induction kept with
  | nil => exact .pure fun _ _ => .nil
  | @cons id rest rest' _ ih =>
    refine (trailing_statement leaner each (all id List.mem_cons_self)).bind fun _ _ =>
      (ih fun x mem => all x (List.mem_cons_of_mem id mem)).bind fun _ _ => .pure ?_
    exact fun K L others first => first.shortens.append others
  | @stop id returns rest =>
    refine (trailing_statement leaner each (all id List.mem_cons_self)).bind fun code code' => ?_
    refine .lost_bind (yields_statements (yields_exprWithin l depth) rest) fun others => .pure ?_
    intro K L _ first
    rw [List.append_nil]
    exact first.stop returns others

/-- A return is lowered in the same way, whether its value is wanted or not. -/
theorem trailing_last (value : Bool) {id : ExprId} (isKnown : known id)
    (returns : l.arena.isReturn id = true) :
    Trailing A (l.statement (l.exprWithin depth) id) (l'.sequence (l'.exprWithin depth) value [id])
      fun K L => Shorter A (Stands l.scratchBase K.scratch L.scratch) (l.arena.isReturn id = true) := by
  cases value with
  | false => exact trailing_statement leaner each isKnown
  | true =>
    have whole : l'.sequence (l'.exprWithin depth) true [id] =
        l'.exprWithin depth id >>= Pure.pure := (bind_pure _).symm
    rw [whole]
    refine (each id isKnown).bind fun code code' => .lost_bind (.lift _) fun ts => .pure ?_
    intro K L slots shorter
    cases slots.symm.trans (slots_of_isReturn returns)
    simpa using shorter

theorem trailing_sequence (value : Bool) {ids ids' : List ExprId} (kept : l.arena.Kept ids ids')
    (all : ∀ id ∈ ids, known id) :
    Trailing A (l.sequence (l.exprWithin depth) value ids) (l'.sequence (l'.exprWithin depth) value ids')
      fun K L => A.ShortensSeq (Stands l.scratchBase K.scratch L.scratch) := by
  have one {id : ExprId} (isKnown : known id) :
      Trailing A (l.sequence (l.exprWithin depth) value [id]) (l'.sequence (l'.exprWithin depth) value [id])
        fun K L => A.ShortensSeq (Stands l.scratchBase K.scratch L.scratch) := by
    cases value with
    | true => exact (each id isKnown).weaken fun _ _ _ _ shorter => shorter.shortens
    | false =>
      exact (trailing_statement leaner each isKnown).weaken fun _ _ _ _ shorter => shorter.shortens
  -- on what is kept of the list: all of it, or what stands up to a return
  induction kept with
  | nil => exact .pure fun _ _ => .nil
  | @cons id rest rest' others ih =>
    have later := ih fun x mem => all x (List.mem_cons_of_mem id mem)
    have first := trailing_statement leaner each (all id List.mem_cons_self)
    cases others with
    | nil => exact one (all id List.mem_cons_self)
    | cons | stop =>
      exact first.bind fun _ _ => later.bind fun _ _ => .pure fun K L others first =>
        first.shortens.append others
  | @stop id returns rest =>
    cases rest with
    | nil => exact one (all id List.mem_cons_self)
    | cons next rest =>
      have whole : l'.sequence (l'.exprWithin depth) value [id] =
          l'.sequence (l'.exprWithin depth) value [id] >>= Pure.pure := (bind_pure _).symm
      rw [whole]
      refine (trailing_last leaner each value (all id List.mem_cons_self) returns).bind fun code code' => ?_
      refine .lost_bind (yields_sequence (yields_exprWithin l depth) value (next :: rest)) fun others =>
        .pure ?_
      exact fun K L _ first => first.stop returns others

omit leaner each in
theorem shortens_variables {P : Nat → Nat → Prop} {ks : List Nat} (same : ∀ k ∈ ks, P k k) :
    A.ShortensSeq P (ks.map .localGet) (ks.map .localGet) ∧
      A.ShortensSeq P (ks.map .localSet) (ks.map .localSet) :=
  ⟨.map (List.forall₂_same.2 fun k mem => .localGet (same k mem)),
    .map (List.forall₂_same.2 fun k mem => .localSet (same k mem))⟩

theorem trailing_choose {id cond : ExprId} {yes yes' no no' : List ExprId} {shape : Shape}
    (kept : l.arena.Kept yes yes') (kept' : l.arena.Kept no no')
    (all : ∀ x ∈ (Node.choose cond yes no shape).children, known x) :
    Trailing A (l.node (l.exprWithin depth) id (.choose cond yes no shape))
      (l'.node (l'.exprWithin depth) id (.choose cond yes' no' shape))
      fun K L => A.ShortensSeq (Stands l.scratchBase K.scratch L.scratch) := by
  have arm (value : Bool) {ids ids' : List ExprId} (kept : l.arena.Kept ids ids')
      (among : ∀ x ∈ ids, x ∈ cond :: yes ++ no) :=
    trailing_sequence leaner each value kept fun x mem => all x (among x mem)
  refine .same_bind (leaner.arena.alike.slots id) fun ts _ => ?_
  refine (each cond (all cond (by simp [Node.children]))).bind fun _ _ =>
    (trailing_blockType ts).bind fun _ _ => ?_
  refine (arm _ kept (by simp +contextual)).bind fun _ _ => ?_
  rw [kept'.isEmpty_eq]
  split
  · refine (arm _ kept' (by simp +contextual)).bind fun _ _ => .pure fun K L no yes types decided => ?_
    exact decided.shortens.append (.single (.ifElse types yes no))
  · exact .pure fun K L yes types decided => decided.shortens.append (.single (.ifThen types yes))

theorem trailing_loop {id cond : ExprId} {init step step' body body' : List ExprId}
    (kept : l.arena.Kept step step') (kept' : l.arena.Kept body body')
    (all : ∀ x ∈ (Node.loop init cond step body).children, known x) :
    Trailing A (l.node (l.exprWithin depth) id (.loop init cond step body))
      (l'.node (l'.exprWithin depth) id (.loop init cond step' body'))
      fun K L => A.ShortensSeq (Stands l.scratchBase K.scratch L.scratch) := by
  have part {ids ids' : List ExprId} (kept : l.arena.Kept ids ids')
      (among : ∀ x ∈ ids, x ∈ init ++ cond :: body ++ step) :=
    trailing_statements leaner each kept fun x mem => all x (among x mem)
  refine (part (.refl init) (by simp +contextual)).bind fun _ _ =>
    (each cond (all cond (by simp [Node.children]))).bind fun _ _ => ?_
  refine (part kept' (by simp +contextual)).bind fun _ _ =>
    (part kept (by simp +contextual)).bind fun _ _ => .pure ?_
  intro K L behind inside test before
  -- one round is the test, the way out, the body, the step and the way back
  have leave : A.ShortensSeq (Stands l.scratchBase K.scratch L.scratch) [.unary (.eqz .w32), .brIf 1]
      [.unary (.eqz .w32), .brIf 1] := .cons (.nameless rfl) (.single (.nameless rfl))
  have round := (((test.shortens.append leave).append inside).append behind).append
    (.single (.nameless (i := .br 0) rfl))
  exact before.append (.single (.block .empty (.single (.loop .empty round))))

include bounded

theorem trailing_extract {id composite : ExprId} {index offset width : Nat} (isKnown : known id)
    (here : l.arena.node id = .ok (.extract composite index offset width)) :
    Trailing A (l.extract (l.exprWithin depth) composite offset width)
      (l'.extract (l'.exprWithin depth) composite offset width)
      fun K L => A.ShortensSeq (Stands l.scratchBase K.scratch L.scratch) := by
  have inside := bounded.children id _ isKnown here composite List.mem_cons_self
  refine .lift_bind fun node read => ?_
  obtain ⟨node', read', leans⟩ := leaner.arena.each composite node read
  refine ⟨node', read', ?_⟩
  -- a composite that is no variable is spilled
  have spilled :
      Trailing A
        (do
          let all ← l.arena.slots composite
          if all.length < offset + width then throw (.unknownExpression composite)
          let code ← l.exprWithin depth composite
          let locals := (← spill all).map (l.scratchBase + ·)
          return code ++ locals.reverse.map .localSet ++
            ((locals.drop offset).take width).map .localGet)
        (do
          let all ← l'.arena.slots composite
          if all.length < offset + width then throw (.unknownExpression composite)
          let code ← l'.exprWithin depth composite
          let locals := (← spill all).map (l'.scratchBase + ·)
          return code ++ locals.reverse.map .localSet ++
            ((locals.drop offset).take width).map .localGet)
        fun K L => A.ShortensSeq (Stands l.scratchBase K.scratch L.scratch) := by
    refine .same_bind (leaner.arena.alike.slots composite) fun all slots => ?_
    dsimp only
    split
    · exact .throw_bind
    · refine (each composite inside).bind fun code code' => (trailing_spill all).bind fun is js => ?_
      refine .pure fun K L same value => ?_
      rw [leaner.scratchBase]
      have pairs : List.Forall₂ (Stands l.scratchBase K.scratch L.scratch)
          (is.map (l.scratchBase + ·)) (js.map (l.scratchBase + ·)) := by
        rw [List.forall₂_map_left_iff, List.forall₂_map_right_iff]
        exact same.imp fun i j same => .inr ⟨i, j, rfl, rfl, same⟩
      have stored := (List.forall₂_reverse_iff.2 pairs).imp fun _ _ here =>
        Abridgement.Shortens.localSet (A := A) here
      have loaded := (List.forall₂_take width (List.forall₂_drop offset pairs)).imp fun _ _ here =>
        Abridgement.Shortens.localGet (A := A) here
      exact (value.shortens.append (.map stored)).append (.map loaded)
  cases leans with
  | same =>
    cases node with
    | localGet slot shape =>
      refine .same_bind (leaner.localBase slot) fun base at_ => .pure fun K L => ?_
      refine (shortens_variables fun k mem => .inl ⟨rfl, bounded.reads id k isKnown ?_⟩).1
      exact ⟨slot, shape, base, at_, .inr ⟨composite, index, offset, width, here, read, mem⟩⟩
    | globalGet global shape =>
      exact .same_bind (leaner.globalBase global) fun base _ => .pure fun K L =>
        .map (List.forall₂_same.2 fun _ _ => .nameless rfl)
    | _ => exact spilled
  | _ => exact spilled

include funcs

theorem trailing_node {id : ExprId} {node node' : Node} (isKnown : known id)
    (here : l.arena.node id = .ok node) (leans : l.arena.Leans node node') :
    Trailing A (l.node (l.exprWithin depth) id node) (l'.node (l'.exprWithin depth) id node')
      fun K L => Shorter A (Stands l.scratchBase K.scratch L.scratch) (node.isReturn = true) := by
  have all := bounded.children id node isKnown here
  have other {P : Nat → Nat → Prop} {code code' : List Instr} (shortens : A.ShortensSeq P code code')
      (goesOn : node.isReturn = false) : Shorter A P (node.isReturn = true) code code' :=
    ⟨shortens, fun returns => absurd (goesOn.symm.trans returns) Bool.false_ne_true⟩
  have lists {m n : LowerM (List Instr)} (goesOn : node.isReturn = false)
      (trailing : Trailing A m n fun K L => A.ShortensSeq (Stands l.scratchBase K.scratch L.scratch)) :
      Trailing A m n fun K L =>
        Shorter A (Stands l.scratchBase K.scratch L.scratch) (node.isReturn = true) :=
    trailing.weaken fun _ _ _ _ shortens => other shortens goesOn
  have block {items items' : List ExprId} (kept : l.arena.Kept items items')
      (all : ∀ x ∈ items, known x) (shape : Shape) :
      Trailing A (l.node (l.exprWithin depth) id (.block items shape))
        (l'.node (l'.exprWithin depth) id (.block items' shape))
        fun K L => A.ShortensSeq (Stands l.scratchBase K.scratch L.scratch) :=
    .same_bind (leaner.arena.alike.slots id) fun ts _ => trailing_sequence leaner each _ kept all
  -- a folded operation loses the code of its operands, which are constants; lists lose what is cut off
  cases leans with
  | @binary op left right x y v first second carried =>
    refine .lost_bind (yields_exprWithin l depth left) fun code =>
      .lost_bind (yields_exprWithin l depth right) fun code' => .pure fun K L after before => ?_
    rw [before.const first, after.const second]
    exact other (.binary carried .nil) rfl
  | @unary op operand x v only carried =>
    refine .lost_bind (yields_exprWithin l depth operand) fun code => .pure fun K L value => ?_
    rw [value.const only]
    exact other (.unary carried .nil) rfl
  | block kept => exact lists rfl (block kept all _)
  | choose kept kept' => exact lists rfl (trailing_choose leaner each kept kept' all)
  | loop kept kept' => exact lists rfl (trailing_loop leaner each kept kept' all)
  | same =>
    cases node with
    | const v => exact .pure fun _ _ => other (.single (.nameless rfl)) rfl
    | memorySize => exact .pure fun _ _ => other (.single (.nameless rfl)) rfl
    | nop => exact .pure fun _ _ => other .nil rfl
    | localGet slot shape =>
      refine .same_bind (leaner.localBase slot) fun base at_ => .pure fun K L => other ?_ rfl
      rw [← Function.comp_def, ← List.map_map]
      refine (shortens_variables fun k mem => .inl ⟨rfl, bounded.reads id k isKnown ?_⟩).1
      obtain ⟨i, inside, rfl⟩ := List.mem_map.1 mem
      exact ⟨slot, shape, base, at_, .inl ⟨here, Nat.le_add_right _ _,
        Nat.add_lt_add_left (List.mem_range.1 inside) _⟩⟩
    | localSet slot shape value =>
      refine .same_bind (leaner.localBase slot) fun base at_ =>
        (each value (all value List.mem_cons_self)).bind fun _ _ => .pure fun K L code => other ?_ rfl
      rw [← Function.comp_def, ← List.map_map]
      refine code.shortens.append
        (shortens_variables fun k mem => .inl ⟨rfl, bounded.writes id k isKnown ?_⟩).2
      obtain ⟨i, inside, rfl⟩ := List.mem_map.1 mem
      exact ⟨slot, shape, value, base, here, at_, Nat.le_add_right _ _,
        Nat.add_lt_add_left (List.mem_range.1 (List.mem_reverse.1 inside)) _⟩
    | globalGet global shape =>
      exact .same_bind (leaner.globalBase global) fun base _ => .pure fun K L =>
        other (.map (List.forall₂_same.2 fun _ _ => .nameless rfl)) rfl
    | globalSet global shape value =>
      exact .same_bind (leaner.globalBase global) fun base _ =>
        (each value (all value List.mem_cons_self)).bind fun _ _ => .pure fun K L code =>
          other (code.shortens.append (.map (List.forall₂_same.2 fun _ _ => .nameless rfl))) rfl
    | binary _ left right | store _ left right =>
      exact (each left (all left List.mem_cons_self)).bind fun _ _ =>
        (each right (all right (by simp [Node.children]))).bind fun _ _ => .pure fun K L second first =>
          other ((first.shortens.append second.shortens).append (.single (.nameless rfl))) rfl
    | unary _ operand | load _ operand | memoryGrow operand =>
      exact (each operand (all operand List.mem_cons_self)).bind fun _ _ => .pure fun K L value =>
        other (value.shortens.append (.single (.nameless rfl))) rfl
    | call func args =>
      refine (trailing_operands each all).bind fun _ _ => .same_bind (leaner.funcIndex func) fun f at_ =>
        .pure fun K L operands => ?_
      exact other (operands.append (.single (.call (funcs func f at_)))) rfl
    | callIndirect index args signature =>
      refine (trailing_operands each fun x mem => all x (List.mem_append_left _ mem)).bind fun _ _ =>
        (each index (all index (by simp [Node.children]))).bind fun _ _ =>
        (trailing_intern signature).bind fun _ _ => .pure fun K L types chosen operands => ?_
      exact other ((operands.append chosen.shortens).append (.single (.callIndirect types))) rfl
    | block items shape => exact lists rfl (block (.refl items) all shape)
    | group items => exact lists rfl (trailing_operands each all)
    | extract composite index offset width =>
      exact lists rfl (trailing_extract leaner bounded each isKnown here)
    | choose cond yes no shape => exact lists rfl (trailing_choose leaner each (.refl yes) (.refl no) all)
    | loop init cond step body =>
      exact lists rfl (trailing_loop leaner each (.refl step) (.refl body) all)
    | ret value =>
      cases value with
      | none =>
        exact .pure fun _ _ => ⟨.single (.nameless rfl), fun _ => ⟨[], [], rfl, rfl, .nil⟩⟩
      | some value =>
        refine (each value (all value List.mem_cons_self)).bind fun code code' => .pure fun K L result => ?_
        exact ⟨result.shortens.append (.single (.nameless rfl)),
          fun _ => ⟨code, code', rfl, rfl, result.shortens⟩⟩

end

section
variable {A : Abridgement} {l l' : Layout} (leaner : Leaner l l')
  (funcs : ∀ func f, l.funcIndex func = .ok f → A.func f)

include leaner funcs

theorem trailing_exprWithin {known : ExprId → Prop} (bounded : l.Bounded known) (depth : Nat)
    {id : ExprId} (isKnown : known id) :
    Trailing A (l.exprWithin depth id) (l'.exprWithin depth id) fun K L =>
      Shorter A (Stands l.scratchBase K.scratch L.scratch) (l.arena.isReturn id = true) := by
  induction depth generalizing id with
  | zero => exact .throw
  | succ depth ih =>
    refine .lift_bind fun node here => ?_
    obtain ⟨node', there, leans⟩ := leaner.arena.each id node here
    refine ⟨node', there, ?_⟩
    rw [Arena.isReturn_of_node here]
    exact trailing_node leaner bounded funcs (fun _ => ih) isKnown here leans

theorem trailing_body {known : ExprId → Prop} (bounded : l.Bounded known) {ids ids' : List ExprId}
    (kept : l.arena.Kept ids ids') (all : ∀ id ∈ ids, known id) :
    Trailing A (l.body ids) (l'.body ids') fun K L =>
      A.ShortensSeq (Stands l.scratchBase K.scratch L.scratch) := by
  have deep : l'.arena.pathBound = l.arena.pathBound := congrArg (· + 1) leaner.arena.alike.size
  have each (id : ExprId) (isKnown : known id) := trailing_exprWithin leaner funcs bounded
    l.arena.pathBound isKnown
  have same : l'.expr = l'.exprWithin l.arena.pathBound := by
    funext id
    rw [Layout.expr, deep]
  unfold Layout.body
  rw [same]
  exact trailing_statements leaner each kept all

end

/-- The statements of a body access no machine locals but those of variables. -/
def Layout.Bounds (l : Layout) (body : List ExprId) : Prop :=
  ∀ root ∈ body, ∀ id, l.arena.Within root id →
    ∀ k, l.Reads id k ∨ l.Writes id k → k < l.scratchBase

theorem Layout.Bounds.bounded {l : Layout} {body : List ExprId} (bounds : l.Bounds body) :
    l.Bounded fun id => ∃ root ∈ body, l.arena.Within root id where
  children := by
    rintro id node ⟨root, mem, within⟩ here child inside
    exact ⟨root, mem, within.child here inside⟩
  reads := by
    rintro id k ⟨root, mem, within⟩ reads
    exact bounds root mem id within k (.inl reads)
  writes := by
    rintro id k ⟨root, mem, within⟩ writes
    exact bounds root mem id within k (.inr writes)

theorem Leaner.withVariables {l l' : Layout} (leaner : Leaner l l') (shapes : List Shape) :
    Leaner (l.withVariables shapes) (l'.withVariables shapes) where
  arena := leaner.arena
  localBases := rfl
  globalBases := leaner.globalBases
  funcIndices := leaner.funcIndices
  scratchBase := rfl

/-- What a declaration becomes before and after a step of simplification, with function types from
these lists. -/
inductive Lowered.Shortens (A : Abridgement) (M N : List Signature) : Lowered → Lowered → Prop
  | imported {key : ImportKey} {i j : Nat} {signature : Signature} (here : M[i]? = some signature)
      (there : N[j]? = some signature) :
      Shortens A M N (.imported ⟨key, .func i⟩) (.imported ⟨key, .func j⟩)
  | defined {g h : Wasm.Func} {signature : Signature} {P : Nat → Nat → Prop}
      (here : M[g.typeIndex]? = some signature) (there : N[h.typeIndex]? = some signature)
      (fewer : h.locals.length ≤ g.locals.length)
      (places : Abridgement.Places P signature.funcType.params g.locals h.locals)
      (code : A.ShortensSeq P g.body h.body) : Shortens A M N (.defined g) (.defined h)

section
variable {A : Abridgement} {l l' : Layout} (leaner : Leaner l l')
  (funcs : ∀ func f, l.funcIndex func = .ok f → A.func f)

include leaner funcs

theorem exists_function_shorter (signature : Signature) {shapes : List Shape} {body body' : List ExprId}
    (kept : l.arena.Kept body body') (bounds : (l.withVariables shapes).Bounds body)
    (few : signature.params.length ≤ (l.withVariables shapes).scratchBase) {i j : Nat}
    {s s' t : LowerState} {g : Wasm.Func}
    (done : function l i signature.params.length shapes body s = .ok (g, s'))
    (known : ∀ signature ∈ t.types.toList, signature ∈ s.types.toList) :
    ∃ h t', function l' j signature.params.length shapes body' t = .ok (h, t') ∧
      (∀ signature ∈ t'.types.toList, signature ∈ s'.types.toList) ∧
      s.types.toList <+: s'.types.toList ∧ t.types.toList <+: t'.types.toList ∧
      ∀ M N : List Signature, Names A M N → s'.types.toList <+: M → t'.types.toList <+: N →
        M[i]? = some signature → N[j]? = some signature →
        Lowered.Shortens A M N (.defined g) (.defined h) := by
  obtain ⟨code, run, rfl⟩ := function_eq_ok_iff.1 done
  have free (s : LowerState) : LowerState.Free { s with scratch := #[] } := fun _ _ here => by simp at here
  obtain ⟨code', t', run', trails, grown, grown', shorter⟩ :=
    trailing_body (leaner.withVariables shapes) funcs bounds.bounded kept
      (fun id mem => ⟨id, mem, .self⟩) { s with scratch := #[] } { t with scratch := #[] } code s'
      ⟨free s, free t, known, fun _ => Nat.le_refl _⟩ run
  refine ⟨_, t', function_eq_ok_iff.2 ⟨code', run', rfl⟩, trails.types, grown.types, grown'.types, ?_⟩
  intro M N names le le' here there
  have fewer : t'.scratchTypes.length ≤ s'.scratchTypes.length :=
    (List.subperm_ext_iff.2 fun u _ => trails.counts u).length_le
  rw [scratchBase_withVariables] at few
  refine .defined here there ?_ (places_stands few s'.scratchTypes t'.scratchTypes) ?_
  · simp only [List.length_map, List.length_append]
    omega
  · rw [← scratchBase_withVariables l]
    exact shorter ⟨M, s'.scratchTypes⟩ ⟨N, t'.scratchTypes⟩ names ⟨le, List.prefix_rfl⟩
      ⟨le', List.prefix_rfl⟩

theorem exists_declaration_shorter {f g : Function} (leans : f.Leans l.arena g)
    (bounds : ∀ scope body, f.kind = .defined scope body →
      (l.withVariables scope.shapes).Bounds body ∧
        f.signature.params.length ≤ (l.withVariables scope.shapes).scratchBase)
    {s s' t : LowerState} {x : Lowered} (done : declaration l f s = .ok (x, s'))
    (known : ∀ signature ∈ t.types.toList, signature ∈ s.types.toList) :
    ∃ y t', declaration l' g t = .ok (y, t') ∧
      (∀ signature ∈ t'.types.toList, signature ∈ s'.types.toList) ∧
      s.types.toList <+: s'.types.toList ∧ t.types.toList <+: t'.types.toList ∧
      ∀ M N : List Signature, Names A M N → s'.types.toList <+: M → t'.types.toList <+: N →
        Lowered.Shortens A M N x y := by
  obtain ⟨i, u, one, rest⟩ := bind_eq_ok.1 done
  have two := intern_eq f.signature t
  obtain ⟨grown, listed⟩ := emits_intern f.signature s i u one
  obtain ⟨grown', listed'⟩ := emits_intern f.signature t _ _ two
  have known' := fun signature mem => (mem_types_intern one signature).2
    (((mem_types_intern two signature).1 mem).imp_left (known signature))
  -- both list the type of the function first
  cases leans with
  | @imported key kind =>
    rw [kind] at rest
    cases rest
    refine ⟨.imported ⟨key, .func (t.types.toList.idxOf f.signature)⟩, _, ?_, known', grown, grown', ?_⟩
    · refine bind_eq_ok.2 ⟨_, _, two, ?_⟩
      rw [kind]
      rfl
    · exact fun M N _ le le' => .imported (listed M le) (listed' N le')
  | @defined scope body body' kind kept =>
    rw [kind] at rest
    obtain ⟨g, _, run, rest⟩ := bind_eq_ok.1 rest
    cases rest
    obtain ⟨bounds, few⟩ := bounds scope body kind
    obtain ⟨h, t', run', types, more, more', shorter⟩ :=
      exists_function_shorter leaner funcs f.signature kept bounds few run known'
    refine ⟨.defined h, t', ?_, types, grown.trans more, grown'.trans more', ?_⟩
    · exact bind_eq_ok.2 ⟨_, _, two, bind_eq_ok.2 ⟨h, t', run', rfl⟩⟩
    · exact fun M N names le le' => shorter M N names le le' (listed M (more.trans le))
        (listed' N (more'.trans le'))

theorem exists_declarations_shorter {fs gs : List Function}
    (leans : List.Forall₂ (Function.Leans l.arena) fs gs)
    (bounds : ∀ f ∈ fs, ∀ scope body, f.kind = .defined scope body →
      (l.withVariables scope.shapes).Bounds body ∧
        f.signature.params.length ≤ (l.withVariables scope.shapes).scratchBase)
    {s s' t : LowerState} {xs : List Lowered} (done : fs.mapM (declaration l) s = .ok (xs, s'))
    (known : ∀ signature ∈ t.types.toList, signature ∈ s.types.toList) :
    ∃ ys t', gs.mapM (declaration l') t = .ok (ys, t') ∧
      (∀ signature ∈ t'.types.toList, signature ∈ s'.types.toList) ∧
      s.types.toList <+: s'.types.toList ∧ t.types.toList <+: t'.types.toList ∧
      ∀ M N : List Signature, Names A M N → s'.types.toList <+: M → t'.types.toList <+: N →
        List.Forall₂ (Lowered.Shortens A M N) xs ys := by
  -- on the declarations; the tables of both only grow, so their names last
  induction leans generalizing s t xs with
  | nil =>
    cases done
    exact ⟨[], t, rfl, known, List.prefix_rfl, List.prefix_rfl, fun _ _ _ _ _ => .nil⟩
  | @cons f g fs gs first _ ih =>
    rw [List.mapM_cons] at done
    obtain ⟨x, u, one, rest⟩ := bind_eq_ok.1 done
    obtain ⟨xs, _, others, rest⟩ := bind_eq_ok.1 rest
    cases rest
    obtain ⟨y, v, one', known', grown, grown', shorter⟩ := exists_declaration_shorter leaner funcs first
      (bounds f List.mem_cons_self) one known
    obtain ⟨ys, t', others', types, more, more', shorter'⟩ :=
      ih (fun f mem => bounds f (List.mem_cons_of_mem _ mem)) others known'
    refine ⟨y :: ys, t', ?_, types, grown.trans more, grown'.trans more', ?_⟩
    · rw [List.mapM_cons]
      exact bind_eq_ok.2 ⟨y, v, one', bind_eq_ok.2 ⟨ys, t', others', rfl⟩⟩
    · exact fun M N names le le' => .cons (shorter M N names (more.trans le) (more'.trans le'))
        (shorter' M N names le le')

end

end Lower

end WasmBuilder
