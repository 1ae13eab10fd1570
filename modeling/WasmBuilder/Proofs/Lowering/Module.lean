import WasmBuilder.Lower.Module
import WasmBuilder.Proofs.Lowering.Code
import WasmBuilder.Proofs.Moves

/-!
What the module of a build is made of.

As for expressions, the functions of a module are described by the function types as they are at the
end. Each declaration becomes an import or a function, at the index that calls use.
-/

set_option autoImplicit false

namespace WasmBuilder.Lower

open Wasm (Instr)

inductive FunctionCode (l : Layout) (types : List Signature) (signature : Signature)
    (shapes : List Shape) (body : List ExprId) : Wasm.Func → Prop
  | mk {typeIndex : Nat} {scratch : List NumType} {code : List Instr}
      (typed : types[typeIndex]? = some signature)
      (statements : Codes (StatementCode (l.withVariables shapes)
        (ExprCode (l.withVariables shapes) ⟨types, scratch⟩)) body code) :
      FunctionCode l types signature shapes body ⟨typeIndex,
        ((shapes.flatMap Shape.flatten).drop signature.params.length ++ scratch).map .num, code⟩

inductive DeclarationCode (l : Layout) (types : List Signature) (f : Function) : Lowered → Prop
  | imported {key : ImportKey} {typeIndex : Nat} (kind : f.kind = .imported key)
      (typed : types[typeIndex]? = some f.signature) :
      DeclarationCode l types f (.imported ⟨key, .func typeIndex⟩)
  | defined {scope : Scope} {body : List ExprId} {g : Wasm.Func} (kind : f.kind = .defined scope body)
      (code : FunctionCode l types f.signature scope.shapes body g) :
      DeclarationCode l types f (.defined g)

inductive StartCode (l : Layout) (types : List Signature) :
    (startBody : List ExprId) → Option Wasm.Func → Prop
  | none : StartCode l types [] none
  | some {startBody : List ExprId} {g : Wasm.Func} (any : startBody ≠ [])
      (code : FunctionCode l types ⟨[], []⟩ [] startBody g) : StartCode l types startBody (some g)

theorem StartCode.exists_of_ne {l : Layout} {types : List Signature} {startBody : List ExprId}
    {start : Option Wasm.Func} (code : StartCode l types startBody start) (any : startBody ≠ []) :
    ∃ g, start = Option.some g ∧ FunctionCode l types ⟨[], []⟩ [] startBody g := by
  cases code with
  | none => exact absurd rfl any
  | some _ code => exact ⟨_, rfl, code⟩

/-- A computation that only adds function types, and whose answer satisfies `P` of all lists that
have what was added. -/
def Emits {α : Type} (m : LowerM α) (P : List Signature → α → Prop) : Prop :=
  ∀ (s : LowerState) (x : α) (t : LowerState), m s = .ok (x, t) →
    s.types.toList <+: t.types.toList ∧
      ∀ types : List Signature, t.types.toList <+: types → P types x

namespace Emits

variable {α β : Type} {P : List Signature → α → Prop} {Q : List Signature → β → Prop}

theorem pure {x : α} (holds : ∀ types, P types x) : Emits (Pure.pure x) P := by
  rintro s _ _ ⟨⟩
  exact ⟨List.prefix_rfl, fun types _ => holds types⟩

theorem bind {m : LowerM α} {f : α → LowerM β} (first : Emits m P)
    (second : ∀ x, Emits (f x) fun types y => P types x → Q types y) : Emits (m >>= f) Q := by
  intro s y u done
  cases run : m s with
  | error e => simp [Bind.bind, StateT.bind, Except.bind, run] at done
  | ok result =>
    obtain ⟨x, t⟩ := result
    have rest : f x t = .ok (y, u) := by
      simpa [Bind.bind, StateT.bind, Except.bind, run] using done
    obtain ⟨grown, holds⟩ := first s x t run
    obtain ⟨more, implies⟩ := second x t y u rest
    exact ⟨grown.trans more, fun types le => implies types le (holds types (more.trans le))⟩

/-- Computations one after the other, as many as there are elements. -/
theorem mapM {R : List Signature → α → β → Prop} {f : α → LowerM β}
    (each : ∀ x, Emits (f x) fun types y => R types x y) (xs : List α) :
    Emits (xs.mapM f) fun types ys => List.Forall₂ (R types) xs ys := by
  induction xs with
  | nil => exact pure fun _ => .nil
  | cons x xs ih =>
    rw [List.mapM_cons]
    refine (each x).bind fun y => ih.bind fun ys => ?_
    exact pure fun _ others first => .cons first others

end Emits

theorem emits_intern (signature : Signature) :
    Emits (intern signature) fun types i => types[i]? = some signature := by
  intro s i t done
  -- scratch locals play no part, so it is as if there were none
  have quiet : intern signature { s with scratch := #[] } = .ok (i, { t with scratch := #[] }) := by
    unfold intern at done ⊢
    cases found : s.types.findIdx? (· = signature) with
    | some j =>
      simp only [found] at done ⊢
      cases done
      rfl
    | none =>
      simp only [found] at done ⊢
      cases done
      rfl
  have free : LowerState.Free { s with scratch := #[] } := fun _ _ here => by simp at here
  obtain ⟨grown, _, holds⟩ := yields_intern signature _ i _ free quiet
  refine ⟨grown.types, fun types le => ?_⟩
  exact holds ⟨types, []⟩ ⟨le, List.prefix_rfl⟩

/-- A function is lowered when its statements are, from a state without scratch locals. -/
theorem function_eq_ok_iff {l : Layout} {typeIndex paramWidth : Nat} {shapes : List Shape}
    {body : List ExprId} {s t : LowerState} {g : Wasm.Func} :
    function l typeIndex paramWidth shapes body s = .ok (g, t) ↔
      ∃ code, (l.withVariables shapes).body body { s with scratch := #[] } = .ok (code, t) ∧
        g = ⟨typeIndex, ((shapes.flatMap Shape.flatten).drop paramWidth ++ t.scratchTypes).map .num,
          code⟩ := by
  have unfolded : function l typeIndex paramWidth shapes body s =
      ((l.withVariables shapes).body body { s with scratch := #[] }).bind fun p =>
        .ok (⟨typeIndex, ((shapes.flatMap Shape.flatten).drop paramWidth ++
          p.2.scratchTypes).map .num, p.1⟩, p.2) := rfl
  rw [unfolded]
  cases run : (l.withVariables shapes).body body { s with scratch := #[] } with
  | error e => simp [Except.bind]
  | ok result =>
    obtain ⟨code, u⟩ := result
    simp only [Except.bind, Except.ok.injEq, Prod.mk.injEq]
    constructor
    · rintro ⟨rfl, rfl⟩
      exact ⟨code, ⟨rfl, rfl⟩, rfl⟩
    · rintro ⟨other, ⟨rfl, rfl⟩, rfl⟩
      exact ⟨rfl, rfl⟩

theorem emits_function (l : Layout) (typeIndex : Nat) (signature : Signature) (shapes : List Shape)
    (body : List ExprId) :
    Emits (function l typeIndex signature.params.length shapes body) fun types g =>
      types[typeIndex]? = some signature → FunctionCode l types signature shapes body g := by
  intro s g t done
  obtain ⟨code, run, rfl⟩ := function_eq_ok_iff.1 done
  have free : LowerState.Free { s with scratch := #[] } := fun _ _ here => by simp at here
  obtain ⟨grown, _, holds⟩ := yields_body _ body _ code t free run
  refine ⟨grown.types, fun types le typed => .mk typed ?_⟩
  exact holds ⟨types, t.scratchTypes⟩ ⟨le, List.prefix_rfl⟩

theorem emits_declaration (l : Layout) (f : Function) :
    Emits (declaration l f) fun types lowered => DeclarationCode l types f lowered := by
  refine (emits_intern f.signature).bind fun typeIndex => ?_
  split
  next key kind => exact Emits.pure fun _ typed => .imported kind typed
  next scope body kind =>
    refine (emits_function l typeIndex f.signature scope.shapes body).bind fun g => ?_
    exact Emits.pure fun _ code typed => .defined kind (code typed)

theorem emits_startFunction (l : Layout) (startBody : List ExprId) :
    Emits (startFunction l startBody) fun types start => StartCode l types startBody start := by
  unfold startFunction
  split
  next none =>
    rw [List.isEmpty_iff.1 none]
    exact Emits.pure fun _ => .none
  next some =>
    refine (emits_intern ⟨[], []⟩).bind fun typeIndex => ?_
    refine (emits_function l typeIndex ⟨[], []⟩ [] startBody).bind fun g => ?_
    refine Emits.pure fun _ code typed => .some (fun none => some ?_) (code typed)
    rw [none]
    rfl

/-- The parts of the module of a build, described by its function types. -/
structure Parts (b : Build) (types : List Signature) (lowered : List Lowered)
    (start : Option Wasm.Func) : Prop where
  declarations : List.Forall₂ (DeclarationCode (moduleLayout b) types) b.functions.toList lowered
  start : StartCode (moduleLayout b) types b.startBody start

/-- A build has a module where its functions are lowered and the rest is looked up. -/
theorem lower_eq_ok_iff {b : Build} {tableExport : Option String} {m : Wasm.Module} :
    b.lower tableExport = .ok m ↔ ∃ lowered start state memory table exports,
      functions (moduleLayout b) b.functions.toList b.startBody {} = .ok ((lowered, start), state) ∧
      memoryImport b.memory = .ok memory ∧
      b.table.functions.mapM (moduleLayout b).funcIndex = .ok table ∧
      b.exports.mapM (funcExport (moduleLayout b)) = .ok exports ∧
      m = assembled b tableExport state.types.toList lowered start memory table exports := by
  constructor
  · intro done
    obtain ⟨⟨⟨lowered, start⟩, state⟩, run, done⟩ := bind_eq_ok_iff.1 done
    obtain ⟨memory, imported, done⟩ := bind_eq_ok_iff.1 done
    obtain ⟨table, slots, done⟩ := bind_eq_ok_iff.1 done
    obtain ⟨exports, exported, done⟩ := bind_eq_ok_iff.1 done
    exact ⟨lowered, start, state, memory, table, exports, run, imported, slots, exported,
      (Except.ok.inj done).symm⟩
  · rintro ⟨lowered, start, state, memory, table, exports, run, imported, slots, exported, rfl⟩
    refine bind_eq_ok_iff.2 ⟨((lowered, start), state), run, ?_⟩
    refine bind_eq_ok_iff.2 ⟨memory, imported, ?_⟩
    exact bind_eq_ok_iff.2 ⟨table, slots, bind_eq_ok_iff.2 ⟨exports, exported, rfl⟩⟩

/-- Declarations are lowered first. Types that come later stand behind theirs. -/
theorem lower_runs {b : Build} {tableExport : Option String} {m : Wasm.Module}
    (done : b.lower tableExport = .ok m) :
    ∃ types lowered start memory table exports state, Parts b types lowered start ∧
      b.functions.toList.mapM (declaration (moduleLayout b)) {} = .ok (lowered, state) ∧
      state.types.toList <+: types ∧ memoryImport b.memory = .ok memory ∧
      b.table.functions.mapM (moduleLayout b).funcIndex = .ok table ∧
      b.exports.mapM (funcExport (moduleLayout b)) = .ok exports ∧
      m = assembled b tableExport types lowered start memory table exports := by
  obtain ⟨lowered, start, state, memory, table, exports, run, imported, slots, exported, same⟩ :=
    lower_eq_ok_iff.1 done
  obtain ⟨⟨declared, between⟩, declares, rest⟩ := bind_eq_ok_iff.1 run
  obtain ⟨⟨starting, last⟩, starts, rest⟩ := bind_eq_ok_iff.1 rest
  cases rest
  obtain ⟨_, declarations⟩ :=
    Emits.mapM (emits_declaration (moduleLayout b)) _ _ lowered between declares
  obtain ⟨grown, startCode⟩ := emits_startFunction (moduleLayout b) b.startBody _ start state starts
  exact ⟨state.types.toList, lowered, start, memory, table, exports, between,
    ⟨declarations _ grown, startCode _ List.prefix_rfl⟩, declares, grown, imported, slots, exported,
    same⟩

/-- A module is assembled from lowered declarations, and from what is looked up for the rest. -/
theorem lower_eq_ok {b : Build} {tableExport : Option String} {m : Wasm.Module}
    (done : b.lower tableExport = .ok m) :
    ∃ types lowered start memory table exports, Parts b types lowered start ∧
      memoryImport b.memory = .ok memory ∧
      b.table.functions.mapM (moduleLayout b).funcIndex = .ok table ∧
      b.exports.mapM (funcExport (moduleLayout b)) = .ok exports ∧
      m = assembled b tableExport types lowered start memory table exports := by
  obtain ⟨types, lowered, start, memory, table, exports, _, parts, -, -, imported, slots, exported,
    same⟩ := lower_runs done
  exact ⟨types, lowered, start, memory, table, exports, parts, imported, slots, exported, same⟩

end WasmBuilder.Lower
