import Mathlib
import WasmBuilder.Proofs.Meaning.Calls

/-!
Lowering keeps the meaning of well-typed functions.
-/

set_option autoImplicit false

namespace WasmBuilder.Build

open Meaning (World entrySlots)

variable {b : Build} {tableExport : Option String} {m : Wasm.Module}

theorem checked_of_isValid {c : Wasm.Context} (context : m.context? = some c)
    (valid : m.isValid = true) :
    c.globals.size ≤ Wasm.capacity.globals ∧ ∀ g ∈ m.funcs, Wasm.Module.checkFunc c g = true := by
  rw [Wasm.Module.isValid, context] at valid
  simp only [Bool.and_eq_true, decide_eq_true_eq, List.all_eq_true] at valid
  obtain ⟨⟨⟨⟨⟨⟨⟨⟨_, globals⟩, _⟩, _⟩, _⟩, _⟩, _⟩, _⟩, funcs⟩ := valid
  exact ⟨globals, funcs⟩

/-- In a valid module there are so few variables that machine indices are words. -/
theorem words_of_isValid (done : b.lower tableExport = .ok m) (valid : m.isValid = true) :
    (b.globals.shapes.flatMap Shape.flatten).length < 2 ^ 32 ∧
      ∀ (signature : Signature) (shapes : List Shape) (body : List ExprId),
        b.HasBody signature shapes body → (shapes.flatMap Shape.flatten).length < 2 ^ 32 := by
  obtain ⟨types, lowered, start, memory, table, exports, parts, imported, slots, _, rfl⟩ :=
    Lower.lower_eq_ok done
  obtain ⟨c, context, offers⟩ := @Lower.Parts.exists_context b tableExport types lowered start memory
    table exports parts imported slots
  obtain ⟨globals, funcs⟩ := checked_of_isValid context valid
  constructor
  · have count := congrArg List.length offers.globals
    rw [Array.length_toList, List.length_map] at count
    have : Wasm.capacity.globals < 2 ^ 32 := by decide
    omega
  · intro signature shapes body here
    obtain ⟨g, mem, code⟩ := parts.exists_func here
    have checked := funcs g mem
    cases code with
    | mk listed =>
      have few : Wasm.capacity.locals < 2 ^ 32 := by decide
      simp only [Wasm.Module.checkFunc, offers.types _ _ listed, Bool.and_eq_true,
        decide_eq_true_eq, Signature.funcType, List.length_map, List.length_append,
        List.length_drop] at checked
      omega

variable {host : Imports} {offered : List (ImportKey × Nat)} {made : List Wasm.Memory}
  {journal : List HostCall} {i : Wasm.Instance}

theorem exists_world {types : List Signature} (linked : Lower.Linked b tableExport types i) :
    ∃ w : World, b.Admits tableExport w ∧ w.store = i.store := by
  have numbers : Wasm.Numbers i.store.globals.toList := by
    intro d mem
    rw [linked.globals] at mem
    obtain ⟨t, _, rfl⟩ := List.mem_map.1 mem
    exact ⟨.zero t, rfl⟩
  have size : i.store.globals.size = (b.globals.shapes.flatMap Shape.flatten).length := by
    rw [← Array.length_toList, linked.globals, List.length_map]
  obtain ⟨fit, same⟩ := World.ofStore_spec numbers size
  exact ⟨_, ⟨fit, linked.table⟩, same⟩

theorem checked_of_link (done : b.lower tableExport = .ok m) (valid : m.isValid = true)
    (linked : Wasm.link m host offered made journal = some i) : i.program.Checked := by
  obtain ⟨_, _, _, _, joined⟩ := Wasm.joined_of_link linked
  refine joined.checked valid fun g mem => ?_
  obtain ⟨types, lowered, start, memory, table, exports, parts, _, _, _, rfl⟩ :=
    Lower.lower_eq_ok done
  exact parts.plain mem

/-- Lowering is correct. The module of a build begins in a world of the build. From every such world
and on all arguments, running the function of a well-typed body ends as the body is meant to end:
with the same results, or the same trap, in the same world. The calls in it, to any depth and in any
room, are what they are meant to be, for any choice of functions that are known to be well typed. What
an expression means is made of what its operands mean. -/
theorem lowered_function_means (done : b.lower tableExport = .ok m) (valid : m.isValid = true)
    (linked : Wasm.link m host offered made journal = some i) {known : Nat → Bool}
    (typed : ∀ k, known k = true → b.IsTyped tableExport k) :
    (∃ w : World, b.Admits tableExport w ∧ w.store = i.store) ∧
      (∀ rounds depth room, b.CallsAgree tableExport (b.calls i.program known rounds depth room)
        (i.program.invoke rounds depth room)) ∧
      ∀ (k : Nat) (f : Function) (scope : Scope) (body : List ExprId), known k = true →
        b.functions[k]? = some f → f.kind = .defined scope body → ∃ locals code,
          i.program.funcs[b.funcIndex k]? = some (.code f.signature.funcType locals code) ∧
          ∀ (rounds depth room : Nat),
            let Γ := b.surroundings i.program rounds (b.calls i.program known rounds depth room)
            (∀ (id : ExprId) (node : Node),
              (b.setting tableExport scope.shapes f.signature.results).WellTyped id →
                b.arena.node id = .ok node → Γ.eval id = Γ.node Γ.eval id node) ∧
            ∀ (w : World) (args : List Value), b.Admits tableExport w →
              args.length = f.signature.params.length →
              Wasm.runBody (i.program.env rounds (i.program.invoke rounds depth room))
                  f.signature.funcType locals code w.store (args.map .num) =
                (Γ.run body (entrySlots scope.shapes args) w).outcome.body := by
  have checked := checked_of_link done valid linked
  obtain ⟨types, _, linked⟩ := Lower.linked_of_link done linked
  obtain ⟨globalWords, localWords⟩ := words_of_isValid done valid
  -- validity bounds the variables, so their machine indices are words
  have typed' : ∀ (k : Nat) (f : Function) (scope : Scope) (body : List ExprId), known k = true →
      b.functions[k]? = some f → f.kind = .defined scope body →
        b.WellTypedBody tableExport f.signature scope.shapes body := by
    intro k f scope body well here kind
    cases typed k well with
    | mk here' kind' statements params =>
      cases here.symm.trans here'
      cases kind.symm.trans kind'
      exact ⟨statements, params, localWords _ _ _ (.function here kind), globalWords⟩
  have agree := calls_agree linked checked typed'
  refine ⟨exists_world linked, agree, ?_⟩
  intro k f scope body well here kind
  obtain ⟨n, function, index, found, own⟩ := linked.funcs k f here
  cases own with
  | host other => cases kind.symm.trans other
  | @code scope' body' g other code =>
    cases kind.symm.trans other
    refine ⟨g.locals, g.body, by rw [funcIndex_eq index, found], fun rounds depth room => ⟨?_, ?_⟩⟩
    · exact fun id node typed here => Meaning.Surroundings.eval_eq rfl typed here
    · intro w args admits length
      exact (runBody_means linked checked (typed' k f scope body well here kind) code found
        (checked.yielding rounds depth room) (agree rounds depth room) admits length).2

def pairShape : Shape := .tuple [.num .i32, .num .i64]

def earlyReturn : Build where
  arena := ⟨#[⟨.localGet 0 pairShape, none⟩, ⟨.extract 0 1 1 1, none⟩, ⟨.ret (some 1), none⟩,
    ⟨.const (.i32 7), none⟩]⟩
  functions := #[⟨"second", [pairShape], .num .i64,
    .defined ⟨#[⟨"pair", pairShape, .param⟩]⟩ [2, 3]⟩]

def earlyReturnModule : Wasm.Module where
  types := [⟨[.num .i32, .num .i64], [.num .i64]⟩]
  funcs := [⟨0, [], [.localGet 1, .ret, .const (.i32 7), .drop]⟩]

theorem lower_earlyReturn : earlyReturn.lower none = .ok earlyReturnModule := by cbv

theorem earlyReturn_isTyped : earlyReturn.IsTyped none 0 := by
  refine @IsTyped.mk earlyReturn none 0 ⟨"second", [pairShape], .num .i64,
    .defined ⟨#[⟨"pair", pairShape, .param⟩]⟩ [2, 3]⟩ ⟨#[⟨"pair", pairShape, .param⟩]⟩ [2, 3] rfl rfl
    (fun id mem => ?_) ⟨[], rfl⟩
  have pair : (earlyReturn.setting none [pairShape] [.i64]).WellTyped 0 :=
    .mk rfl rfl ⟨_, rfl, rfl⟩ fun x mem => by cases mem
  have field : (earlyReturn.setting none [pairShape] [.i64]).WellTyped 1 := by
    refine .mk rfl rfl ⟨[.i32, .i64], rfl, by decide⟩ fun x mem => ?_
    cases List.mem_singleton.1 mem
    exact pair
  rcases List.mem_cons.1 mem with rfl | mem
  · refine .mk rfl rfl rfl fun x mem => ?_
    cases List.mem_singleton.1 mem
    exact field
  · cases List.mem_singleton.1 mem
    exact .mk rfl rfl trivial fun x mem => by cases mem

theorem earlyReturn_function_means : ∃ i, Wasm.link earlyReturnModule {} [] [] [] = some i ∧
    ∃ locals code, i.program.funcs[0]? = some (.code ⟨[.num .i32, .num .i64], [.num .i64]⟩ locals code) ∧
      Wasm.runBody (i.program.env 1 (i.program.invoke 1 1 1)) ⟨[.num .i32, .num .i64], [.num .i64]⟩
        locals code i.store [.num (.i32 5), .num (.i64 9)] = .done [.num (.i64 9)] i.store := by
  have known : ∀ k, (k == 0) = true → earlyReturn.IsTyped none k := by
    intro k same
    cases beq_iff_eq.1 same
    exact earlyReturn_isTyped
  obtain ⟨i, linked⟩ : ∃ i, Wasm.link earlyReturnModule {} [] [] [] = some i := ⟨_, rfl⟩
  refine ⟨i, linked, ?_⟩
  obtain ⟨⟨w, admits, store⟩, _, means⟩ :=
    lowered_function_means lower_earlyReturn (by decide) linked known
  obtain ⟨locals, code, found, runs⟩ := means 0 _ _ _ rfl rfl rfl
  refine ⟨locals, code, found, ?_⟩
  rw [← store]
  exact (runs 1 1 1).2 w [.i32 5, .i64 9] admits rfl

end WasmBuilder.Build
