import WasmBuilder.Proofs.Course.Sheds
import WasmBuilder.Proofs.Lowering.Module
import WasmBuilder.Proofs.Wasm.Relocation

/-!
The same body, lowered in two builds.

Where a build has all that another one has, its code of an expression is the code that the expression
had, moved: it takes the same scratch locals, and differs in the indices of functions, types and
globals only.
-/

set_option autoImplicit false

namespace WasmBuilder

namespace Lower

open Wasm (BlockType Instr Relocation ValType)

variable {K L : List Signature}

/-- Two computations side by side, from states with the same scratch locals. They take the same ones,
both add types at most, and what they answer is related, if their types end up in these lists. -/
def Abreast (K L : List Signature) {α β : Type} (m : LowerM α) (n : LowerM β) (P : α → β → Prop) :
    Prop :=
  ∀ (s t : LowerState) (x : α) (s' : LowerState) (y : β) (t' : LowerState), t.scratch = s.scratch →
    m s = .ok (x, s') → n t = .ok (y, t') →
    t'.scratch = s'.scratch ∧ s.types.toList <+: s'.types.toList ∧
      t.types.toList <+: t'.types.toList ∧
      (s'.types.toList <+: K → t'.types.toList <+: L → P x y)

namespace Abreast

variable {α β γ δ : Type} {P : α → β → Prop} {Q : γ → δ → Prop}

theorem pure {x : α} {y : β} (holds : P x y) : Abreast K L (Pure.pure x) (Pure.pure y) P := by
  rintro s t _ _ _ _ scratch ⟨⟩ ⟨⟩
  exact ⟨scratch, List.prefix_rfl, List.prefix_rfl, fun _ _ => holds⟩

theorem throw {e : BuildError} {n : LowerM β} : Abreast K L (MonadExcept.throw e) n P := by
  intro s t x s' y t' _ done
  cases done

theorem throw_right {e : BuildError} {m : LowerM α} : Abreast K L m (MonadExcept.throw e) P := by
  intro s t x s' y t' _ _ done
  cases done

theorem throw_bind {e : BuildError} {f : α → LowerM γ} {n : LowerM δ} :
    Abreast K L (MonadExcept.throw e >>= f) n Q := by
  intro s t x s' y t' _ done
  cases done

theorem lift_bind {e : Except BuildError α} {e' : Except BuildError β} {f : α → LowerM γ}
    {g : β → LowerM δ} (rest : ∀ x y, e = .ok x → e' = .ok y → Abreast K L (f x) (g y) Q) :
    Abreast K L (liftM e >>= f) (liftM e' >>= g) Q := by
  cases e with
  | error e => exact .throw_bind
  | ok x =>
    cases e' with
    | error e =>
      intro s t z s' w t' _ _ done
      cases done
    | ok y => exact rest x y rfl rfl

theorem weaken {P' : α → β → Prop} {m : LowerM α} {n : LowerM β} (abreast : Abreast K L m n P)
    (implies : ∀ x y, P x y → P' x y) : Abreast K L m n P' := by
  intro s t x s' y t' scratch done done'
  obtain ⟨same, grown, grown', holds⟩ := abreast s t x s' y t' scratch done done'
  exact ⟨same, grown, grown', fun le le' => implies x y (holds le le')⟩

theorem bind {m : LowerM α} {n : LowerM β} {f : α → LowerM γ} {g : β → LowerM δ}
    (first : Abreast K L m n P)
    (second : ∀ x y, Abreast K L (f x) (g y) fun z w => P x y → Q z w) :
    Abreast K L (m >>= f) (n >>= g) Q := by
  intro s t z s'' w t'' scratch done done'
  cases run : m s with
  | error e => simp [Bind.bind, StateT.bind, Except.bind, run] at done
  | ok result =>
    cases run' : n t with
    | error e => simp [Bind.bind, StateT.bind, Except.bind, run'] at done'
    | ok result' =>
      obtain ⟨x, s'⟩ := result
      obtain ⟨y, t'⟩ := result'
      have rest : f x s' = .ok (z, s'') := by
        simpa [Bind.bind, StateT.bind, Except.bind, run] using done
      have rest' : g y t' = .ok (w, t'') := by
        simpa [Bind.bind, StateT.bind, Except.bind, run'] using done'
      obtain ⟨same, grown, grown', holds⟩ := first s t x s' y t' scratch run run'
      obtain ⟨same', more, more', implies⟩ := second x y s' t' z s'' w t'' same rest rest'
      exact ⟨same', grown.trans more, grown'.trans more', fun le le' =>
        implies le le' (holds (more.trans le) (more'.trans le'))⟩

end Abreast

def Untyped {α : Type} (m : LowerM α) : Prop :=
  ∀ (s : LowerState) (types : Array Signature),
    m { s with types } = (m s).map fun p => (p.1, { p.2 with types })

namespace Untyped

variable {α β : Type}

theorem pure (x : α) : Untyped (Pure.pure x) := fun _ _ => rfl

theorem bind {m : LowerM α} {f : α → LowerM β} (first : Untyped m) (second : ∀ x, Untyped (f x)) :
    Untyped (m >>= f) := by
  intro s types
  have ran := first s types
  cases run : m s with
  | error e =>
    rw [run] at ran
    simp [Bind.bind, StateT.bind, Except.bind, Except.map, run, ran]
  | ok result =>
    rw [run] at ran
    simpa [Bind.bind, StateT.bind, Except.bind, Except.map, run, ran] using
      second result.1 result.2 types

theorem mapM {f : α → LowerM β} (each : ∀ x, Untyped (f x)) (xs : List α) : Untyped (xs.mapM f) := by
  induction xs with
  | nil => exact pure []
  | cons x rest ih =>
    rw [List.mapM_cons]
    exact (each x).bind fun _ => ih.bind fun _ => pure _

theorem forM {f : α → LowerM Unit} (each : ∀ x, Untyped (f x)) (xs : List α) : Untyped (xs.forM f) := by
  induction xs with
  | nil => exact pure ()
  | cons x rest ih => exact (each x).bind fun _ => ih

theorem abreast {m : LowerM α} (alone : Untyped m) : Abreast K L m m Eq := by
  intro s t x s' y t' scratch done done'
  have own := alone s s.types
  have other := alone s t.types
  rw [done] at own other
  have there : ({ s with types := t.types } : LowerState) = t := by
    cases t
    cases scratch
    rfl
  rw [there, done'] at other
  cases other
  have kept : s'.types = s.types := congrArg (·.2.types) (Except.ok.inj own)
  exact ⟨rfl, kept ▸ List.prefix_rfl, List.prefix_rfl, fun _ _ => rfl⟩

end Untyped

theorem untyped_spill (ts : List NumType) : Untyped (spill ts) := by
  refine .bind (.mapM (fun t s types => ?_) ts) fun taken => .bind (.forM (fun _ _ _ => rfl) taken) fun _ =>
    .pure taken
  unfold acquire
  dsimp only
  cases s.scratch.findIdx? (fun l => l.type = t ∧ l.busy = false) <;> rfl

theorem intern_scratch {signature : Signature} {s s' : LowerState} {i : Nat}
    (done : intern signature s = .ok (i, s')) : s'.scratch = s.scratch := by
  unfold intern at done
  split at done <;> cases done <;> rfl

theorem abreast_intern (signature : Signature) :
    Abreast K L (intern signature) (intern signature) fun i j =>
      K[i]? = some signature ∧ L[j]? = some signature := by
  intro s t i s' j t' scratch done done'
  obtain ⟨grown, here⟩ := emits_intern signature s i s' done
  obtain ⟨grown', there⟩ := emits_intern signature t j t' done'
  refine ⟨?_, grown, grown', fun le le' => ⟨here K le, there L le'⟩⟩
  rw [intern_scratch done, intern_scratch done', scratch]

theorem abreast_blockType {R : Relocation}
    (types : ∀ (i j : Nat) (signature : Signature), K[i]? = some signature → L[j]? = some signature →
      R.type i j) (ts : List NumType) : Abreast K L (blockType ts) (blockType ts) R.Block := by
  match ts with
  | [] => exact .pure .empty
  | [t] => exact .pure (.value (.num t))
  | a :: b :: rest =>
    refine (abreast_intern ⟨[], a :: b :: rest⟩).bind fun i j => .pure ?_
    rintro ⟨here, there⟩
    exact .index (types i j _ here there)

/-- Where all expressions, variables and functions of one layout are in another one. -/
structure Shares (l l' : Layout) (K L : List Signature) (R : Relocation) : Prop where
  continues : l.arena.Continues l'.arena
  localBases : l'.localBases = l.localBases
  scratchBase : l'.scratchBase = l.scratchBase
  types : ∀ (i j : Nat) (signature : Signature), K[i]? = some signature → L[j]? = some signature →
    R.type i j
  funcs : ∀ (func f g : Nat), l.funcIndex func = .ok f → l'.funcIndex func = .ok g → R.func f g
  globals : ∀ (id : ExprId) (node : Node) (global : Nat) (shape : Shape) (a b : Nat),
    l.arena.node id = .ok node → node.access? = some (.global, global, shape) →
    l.globalBase global = .ok a → l'.globalBase global = .ok b →
    ∀ i < shape.width, R.global (a + i) (b + i)
  /-- A field of a global is a part of the run that the global takes. -/
  fields : ∀ (id composite : ExprId) (index offset width global : Nat) (shape : Shape) (a b : Nat),
    l.arena.node id = .ok (.extract composite index offset width) →
    l.arena.node composite = .ok (.globalGet global shape) →
    l.globalBase global = .ok a → l'.globalBase global = .ok b →
    List.Forall₂ R.global (Layout.slice a offset width) (Layout.slice b offset width)
  slots : ∀ (id index : ExprId) (args : List ExprId) (signature : Signature) (i j : Nat),
    l.arena.node id = .ok (.callIndirect index args signature) → K[i]? = some signature →
    L[j]? = some signature →
    ∃ slot, l.arena.node index = .ok (.const (.i32 slot)) ∧ R.slot slot i j

structure Fits (l : Layout) (R : Relocation) (id : ExprId) (code code' : List Instr) : Prop where
  moves : R.MovesSeq code code'
  constant : ∀ v, l.arena.node id = .ok (.const v) → code = [.const v] ∧ code' = [.const v]

section
variable {l l' : Layout} {R : Relocation} (shares : Shares l l' K L R)
  {lower lower' : ExprId → LowerM (List Instr)}
  (each : ∀ id, Abreast K L (lower id) (lower' id) (Fits l R id))

include each

theorem abreast_operands (ids : List ExprId) :
    Abreast K L (Layout.operands lower ids) (Layout.operands lower' ids) R.MovesSeq := by
  induction ids with
  | nil => exact .pure .nil
  | cons id rest ih =>
    exact (each id).bind fun _ _ => ih.bind fun _ _ => .pure fun others first =>
      first.moves.append others

include shares

theorem abreast_statement (id : ExprId) :
    Abreast K L (l.statement lower id) (l'.statement lower' id) R.MovesSeq := by
  refine (each id).bind fun _ _ => .lift_bind fun ts ts' here there => ?_
  cases shares.continues.slots_eq here there
  exact .pure fun first => first.moves.append (.map (List.forall₂_same.2 fun _ _ => .free rfl))

theorem abreast_statements (ids : List ExprId) :
    Abreast K L (l.statements lower ids) (l'.statements lower' ids) R.MovesSeq := by
  induction ids with
  | nil => exact .pure .nil
  | cons id rest ih =>
    exact (abreast_statement shares each id).bind fun _ _ => ih.bind fun _ _ =>
      .pure fun others first => first.append others

theorem abreast_sequence (value : Bool) (ids : List ExprId) :
    Abreast K L (l.sequence lower value ids) (l'.sequence lower' value ids) R.MovesSeq := by
  induction ids with
  | nil => exact .pure .nil
  | cons id rest ih =>
    cases rest with
    | nil =>
      cases value with
      | true => exact (each id).weaken fun _ _ fits => fits.moves
      | false => exact abreast_statement shares each id
    | cons =>
      exact (abreast_statement shares each id).bind fun _ _ => ih.bind fun _ _ =>
        .pure fun others first => first.append others

theorem abreast_extract {id composite : ExprId} {index offset width : Nat}
    (here : l.arena.node id = .ok (.extract composite index offset width)) :
    Abreast K L (l.extract lower composite offset width) (l'.extract lower' composite offset width)
      R.MovesSeq := by
  refine .lift_bind fun node node' read read' => ?_
  cases (shares.continues _ _ read).symm.trans read'
  -- variables are read in place; whatever else is computed is spilled
  cases node with
  | localGet slot shape =>
    refine .lift_bind fun base base' at_ at_' => .pure ?_
    rw [Layout.localBase, shares.localBases, ← Layout.localBase, at_] at at_'
    cases at_'
    exact .map (List.forall₂_same.2 fun _ _ => .free rfl)
  | globalGet global shape =>
    refine .lift_bind fun a b at_ at_' => .pure ?_
    have pairs := shares.fields id composite index offset width global shape a b here read at_ at_'
    exact .map (pairs.imp fun _ _ globals => .globalGet globals)
  | _ =>
    refine .lift_bind fun all all' slots slots' => ?_
    cases shares.continues.slots_eq slots slots'
    dsimp only
    split
    · exact .throw_bind
    · refine (each composite).bind fun code code' => (untyped_spill all).abreast.bind fun is js => ?_
      refine .pure fun same value => ?_
      subst same
      rw [shares.scratchBase]
      have stored : R.MovesSeq ((is.map (l.scratchBase + ·)).reverse.map .localSet)
          ((is.map (l.scratchBase + ·)).reverse.map .localSet) :=
        .map (List.forall₂_same.2 fun _ _ => .free rfl)
      exact (value.moves.append stored).append (.map (List.forall₂_same.2 fun _ _ => .free rfl))

theorem abreast_node {id : ExprId} {node : Node} (here : l.arena.node id = .ok node) :
    Abreast K L (l.node lower id node) (l'.node lower' id node) (Fits l R id) := by
  have other {code code' : List Instr} (moves : R.MovesSeq code code')
      (constant : ∀ v, node ≠ .const v) : Fits l R id code code' :=
    ⟨moves, fun v is => absurd (Except.ok.inj (here.symm.trans is)) (constant v)⟩
  have localBase (slot : Nat) : l'.localBase slot = l.localBase slot := by
    rw [Layout.localBase, shares.localBases, ← Layout.localBase]
  cases node with
  | const v =>
    refine .pure ⟨.single (.free rfl), fun w is => ?_⟩
    cases here.symm.trans is
    exact ⟨rfl, rfl⟩
  | memorySize => exact .pure (other (.single (.free rfl)) nofun)
  | nop => exact .pure (other .nil nofun)
  | localGet slot shape =>
    refine .lift_bind fun base base' at_ at_' => .pure (other ?_ nofun)
    cases at_.symm.trans ((localBase slot).symm.trans at_')
    exact .map (List.forall₂_same.2 fun _ _ => .free rfl)
  | localSet slot shape value =>
    refine .lift_bind fun base base' at_ at_' => (each value).bind fun _ _ => .pure fun code => ?_
    cases at_.symm.trans ((localBase slot).symm.trans at_')
    exact other (code.moves.append (.map (List.forall₂_same.2 fun _ _ => .free rfl))) nofun
  | globalGet global shape =>
    refine .lift_bind fun a b at_ at_' => .pure (other (.map (List.forall₂_same.2 fun i mem => ?_)) nofun)
    exact .globalGet (shares.globals id _ global shape a b here rfl at_ at_' i (List.mem_range.1 mem))
  | globalSet global shape value =>
    refine .lift_bind fun a b at_ at_' => (each value).bind fun _ _ => .pure fun code => ?_
    refine other (code.moves.append (.map (List.forall₂_same.2 fun i mem => ?_))) nofun
    have inside : i < shape.width := List.mem_range.1 (List.mem_reverse.1 mem)
    exact .globalSet (shares.globals id _ global shape a b here rfl at_ at_' i inside)
  | binary _ left right =>
    exact (each left).bind fun _ _ => (each right).bind fun _ _ => .pure fun second first =>
      other ((first.moves.append second.moves).append (.single (.free rfl))) nofun
  | unary _ operand =>
    exact (each operand).bind fun _ _ => .pure fun value =>
      other (value.moves.append (.single (.free rfl))) nofun
  | call func args =>
    refine (abreast_operands each args).bind fun _ _ => .lift_bind fun f g at_ at_' => .pure ?_
    exact fun operands => other (operands.append (.single (.call (shares.funcs func f g at_ at_')))) nofun
  -- the types may have other indices, but the slot is the same constant
  | callIndirect index args signature =>
    refine (abreast_operands each args).bind fun _ _ => (each index).bind fun _ _ =>
      (abreast_intern signature).bind fun i j => .pure ?_
    rintro ⟨listed, listed'⟩ chosen operands
    obtain ⟨slot, constant, slots⟩ := shares.slots id index args signature i j here listed listed'
    obtain ⟨rfl, rfl⟩ := chosen.constant _ constant
    have through : R.MovesSeq [.const (.i32 slot), .callIndirect i 0]
        [.const (.i32 slot), .callIndirect j 0] := .through slots .nil
    refine other ?_ nofun
    rw [List.append_assoc, List.append_assoc]
    exact operands.append through
  -- whether a value is wanted depends on slots, and these last
  | block items shape =>
    refine .lift_bind fun ts ts' slots slots' => ?_
    cases shares.continues.slots_eq slots slots'
    exact (abreast_sequence shares each _ items).weaken fun _ _ moves => other moves nofun
  | group items => exact (abreast_operands each items).weaken fun _ _ moves => other moves nofun
  | extract composite index offset width =>
    exact (abreast_extract shares each here).weaken fun _ _ moves => other moves nofun
  | choose cond thenItems elseItems shape =>
    refine .lift_bind fun ts ts' slots slots' => ?_
    cases shares.continues.slots_eq slots slots'
    refine (each cond).bind fun _ _ => (abreast_blockType shares.types ts).bind fun _ _ => ?_
    refine (abreast_sequence shares each _ thenItems).bind fun _ _ => ?_
    split
    · refine (abreast_sequence shares each _ elseItems).bind fun _ _ => .pure fun no yes types decided => ?_
      exact other (decided.moves.append (.single (.ifElse types yes no))) nofun
    · refine .pure fun yes types decided => ?_
      exact other (decided.moves.append (.single (.ifThen types yes))) nofun
  | loop init cond step body =>
    refine (abreast_statements shares each init).bind fun _ _ => (each cond).bind fun _ _ => ?_
    refine (abreast_statements shares each body).bind fun _ _ =>
      (abreast_statements shares each step).bind fun _ _ => .pure fun behind inside test before => ?_
    have leaves : R.MovesSeq [.unary (.eqz .w32), .brIf 1] [.unary (.eqz .w32), .brIf 1] :=
      .cons (.free rfl) (.single (.free rfl))
    have round := (((test.moves.append leaves).append inside).append behind).append
      (.single (.free (i := .br 0) rfl))
    exact other (before.append (.single (.block .empty (.single (.loop .empty round))))) nofun
  | ret value =>
    cases value with
    | none => exact .pure (other (.single (.free rfl)) nofun)
    | some value =>
      exact (each value).bind fun _ _ => .pure fun result =>
        other (result.moves.append (.single (.free rfl))) nofun
  | load _ addr =>
    exact (each addr).bind fun _ _ => .pure fun place =>
      other (place.moves.append (.single (.free rfl))) nofun
  | store _ addr value =>
    exact (each addr).bind fun _ _ => (each value).bind fun _ _ => .pure fun stored place =>
      other ((place.moves.append stored.moves).append (.single (.free rfl))) nofun
  | memoryGrow delta =>
    exact (each delta).bind fun _ _ => .pure fun amount =>
      other (amount.moves.append (.single (.free rfl))) nofun

end

theorem abreast_exprWithin {l l' : Layout} {R : Relocation} (shares : Shares l l' K L R)
    (depth depth' : Nat) (id : ExprId) :
    Abreast K L (l.exprWithin depth id) (l'.exprWithin depth' id) (Fits l R id) := by
  induction depth generalizing depth' id with
  | zero => exact .throw
  | succ depth ih =>
    cases depth' with
    | zero => exact .throw_right
    | succ depth' =>
      refine .lift_bind fun node node' here there => ?_
      cases (shares.continues _ _ here).symm.trans there
      exact abreast_node shares (ih depth') here

theorem abreast_body {l l' : Layout} {R : Relocation} (shares : Shares l l' K L R)
    (ids : List ExprId) : Abreast K L (l.body ids) (l'.body ids) R.MovesSeq :=
  abreast_statements shares (abreast_exprWithin shares _ _) ids

inductive Lowered.Moves (R : Relocation) : Lowered → Lowered → Prop
  | imported {key : ImportKey} {i j : Nat} (types : R.type i j) :
      Moves R (.imported ⟨key, .func i⟩) (.imported ⟨key, .func j⟩)
  | defined {i j : Nat} {locals : List ValType} {code code' : List Instr} (types : R.type i j)
      (moves : R.MovesSeq code code') :
      Moves R (.defined ⟨i, locals, code⟩) (.defined ⟨j, locals, code'⟩)

section
variable {l l' : Layout} {R : Relocation} (shares : Shares l l' K L R)

include shares

theorem Shares.withVariables (shapes : List Shape) :
    Shares (l.withVariables shapes) (l'.withVariables shapes) K L R :=
  { shares with localBases := rfl, scratchBase := rfl }

theorem abreast_function (i j paramWidth : Nat) (shapes : List Shape) (body : List ExprId) :
    Abreast K L (function l i paramWidth shapes body) (function l' j paramWidth shapes body)
      fun g h => R.type i j → Lowered.Moves R (.defined g) (.defined h) := by
  intro s t g s' h t' _ done done'
  obtain ⟨code, run, rfl⟩ := function_eq_ok_iff.1 done
  obtain ⟨code', run', rfl⟩ := function_eq_ok_iff.1 done'
  obtain ⟨scratch, grown, grown', moves⟩ :=
    abreast_body (shares.withVariables shapes) body { s with scratch := #[] }
      { t with scratch := #[] } code s' code' t' rfl run run'
  refine ⟨scratch, grown, grown', fun le le' types => ?_⟩
  rw [LowerState.scratchTypes, LowerState.scratchTypes, scratch]
  exact .defined types (moves le le')

theorem abreast_declaration (f : Function) :
    Abreast K L (declaration l f) (declaration l' f) (Lowered.Moves R) := by
  refine (abreast_intern f.signature).bind fun i j => ?_
  split
  · exact .pure fun ⟨here, there⟩ => .imported (shares.types i j _ here there)
  · refine (abreast_function shares i j _ _ _).bind fun g h => .pure fun moves => ?_
    exact fun ⟨here, there⟩ => moves (shares.types i j _ here there)

theorem abreast_declarations (fs : List Function) :
    Abreast K L (fs.mapM (declaration l)) (fs.mapM (declaration l'))
      (List.Forall₂ (Lowered.Moves R)) := by
  induction fs with
  | nil => exact .pure .nil
  | cons f rest ih =>
    rw [List.mapM_cons, List.mapM_cons]
    exact (abreast_declaration shares f).bind fun _ _ => ih.bind fun _ _ =>
      .pure fun others first => .cons first others

end

end Lower

end WasmBuilder
