import WasmBuilder.Proofs.Lowering.Linked
import WasmBuilder.Proofs.Meaning.Body
import WasmBuilder.Proofs.Typing.Bodies
import WasmBuilder.Proofs.Wasm.Heights

/-!
What calling the functions of a build does.

Some functions are known to be well typed. A call of one of these does what its body means, where the
calls in it are meant in the same way, in the room that is left on the stack. All others, and
functions of the host, do what the machine does with them.
-/

set_option autoImplicit false

namespace WasmBuilder

open Lower (Layout Tables)
open Meaning (Called Fit State Surroundings World entrySlots split)
open Wasm (Datum Env FuncInstance Numbers Program StoreKept)

def Meaning.World.ofStore (globals : List Shape) (s : Wasm.Store) : World :=
  ⟨split globals (s.globals.toList.filterMap Datum.value?), s⟩

def Meaning.Called.ofOutcome (globals : List Shape) : Wasm.CallOutcome → Called
  | .done results s => .done (results.filterMap Datum.value?) (.ofStore globals s)
  | .trap cause s => .trap cause (.ofStore globals s)
  | .exhausted => .exhausted

namespace Build

def surroundings (b : Build) (p : Program) (rounds : Nat)
    (call : Nat → World → List Value → Called) : Surroundings where
  arena := b.arena
  signatures := b.functions.toList.map Function.signature
  table := b.table.functions
  memory := p.memories[0]?
  rounds := rounds
  call := call

def funcIndex (b : Build) (k : Nat) : Nat := (Lower.moduleLayout b).funcIndices.getD k 0

def calls (b : Build) (p : Program) (known : Nat → Bool) (rounds : Nat) :
    (depth room : Nat) → Nat → World → List Value → Called
  | 0, _, _, w, _ => .trap .callDepth w
  | depth + 1, room, k, w, args =>
    let machine := Called.ofOutcome b.globals.shapes <|
      p.invoke rounds (depth + 1) room (b.funcIndex k) w.store (args.map .num)
    match known k, (b.functions[k]?).map Function.kind with
    | true, some (.defined scope body) =>
      if rounds = 0 then .exhausted
      else if room < p.frame (b.funcIndex k) then .trap .callDepth w
      else
        (b.surroundings p rounds (calls b p known rounds depth (room - p.frame (b.funcIndex k)))).run
          body (entrySlots scope.shapes args) w
    | _, _ => machine

/-- A function that is well typed: so are its statements, and its variables begin with the
parameters. -/
inductive IsTyped (b : Build) (tableExport : Option String) (k : Nat) : Prop
  | mk {f : Function} {scope : Scope} {body : List ExprId} (here : b.functions[k]? = some f)
      (kind : f.kind = .defined scope body)
      (statements : ∀ id ∈ body,
        (b.setting tableExport scope.shapes f.signature.results).WellTyped id)
      (params : f.signature.params <+: scope.shapes.flatMap Shape.flatten)

/-- A body of well-typed statements, in whatever way it ends. The variables begin with the parameters,
and machine indices are words. -/
structure WellTypedBody (b : Build) (tableExport : Option String) (signature : Signature)
    (shapes : List Shape) (body : List ExprId) : Prop where
  statements : ∀ id ∈ body, (b.setting tableExport shapes signature.results).WellTyped id
  params : signature.params <+: shapes.flatMap Shape.flatten
  localWords : (shapes.flatMap Shape.flatten).length < 2 ^ 32
  globalWords : (b.globals.shapes.flatMap Shape.flatten).length < 2 ^ 32

/-- A world for a build: it has the global variables, and a table that holds what it should. -/
structure Admits (b : Build) (tableExport : Option String) (w : World) : Prop where
  globals : Fit b.globals.shapes w.globals
  table : (!b.table.functions.isEmpty || tableExport.isSome) = true →
    (Lower.moduleLayout b).Fills b.table.functions w.rest

end Build

namespace Meaning

theorem World.ofStore_spec {globals : List Shape} {s : Wasm.Store} (numbers : Numbers s.globals.toList)
    (size : s.globals.size = (globals.flatMap Shape.flatten).length) :
    Fit globals (World.ofStore globals s).globals ∧ (World.ofStore globals s).store = s := by
  obtain ⟨values, whole⟩ := numbers.exists_map
  have back : s.globals.toList.filterMap Datum.value? = values := by
    rw [whole, List.filterMap_map]
    exact List.filterMap_some
  have length : values.length = (globals.flatMap Shape.flatten).length := by
    rw [← size, ← Array.length_toList, whole, List.length_map]
  obtain ⟨fit, flat⟩ := fit_split length
  refine ⟨by rw [World.ofStore, back]; exact fit, ?_⟩
  have array : (values.map Datum.num).toArray = s.globals := by rw [← whole]
  rw [World.store, World.ofStore, back, flat, array]

variable {b : Build} {tableExport : Option String} {w : World}

theorem World.storeKept (w : World) : StoreKept w.store w.store :=
  ⟨Numbers.map w.globals.flatten, rfl, rfl⟩

theorem ofOutcome_spec (admits : b.Admits tableExport w) {type : Wasm.FuncType}
    {o : Wasm.CallOutcome} (kept : Wasm.CallKept w.store (some type) o) :
    (Called.ofOutcome b.globals.shapes o).Fits (b.Admits tableExport) type.results.length ∧
      o = (Called.ofOutcome b.globals.shapes o).outcome := by
  -- what a store says of a world is all of it, as far as calls leave its shape
  have back {s : Wasm.Store} (kept : StoreKept w.store s) :
      b.Admits tableExport (.ofStore b.globals.shapes s) ∧
        (World.ofStore b.globals.shapes s).store = s := by
    have size : s.globals.size = (b.globals.shapes.flatMap Shape.flatten).length := by
      rw [kept.size, ← admits.globals.length_flatten, World.store, List.size_toArray,
        List.length_map]
    obtain ⟨fit, same⟩ := World.ofStore_spec kept.globals size
    refine ⟨⟨fit, fun some => ?_⟩, same⟩
    obtain ⟨t, here, held⟩ := admits.table some
    exact ⟨t, by rw [World.ofStore, kept.tables]; exact here, held⟩
  cases o with
  | done results s =>
    obtain ⟨numbers, store, count⟩ := kept
    obtain ⟨values, rfl⟩ := numbers.exists_map
    obtain ⟨admits', same⟩ := back store
    have length : values.length = type.results.length := by
      rw [← count type rfl, List.length_map]
    have read : (values.map Datum.num).filterMap Datum.value? = values := by
      rw [List.filterMap_map]
      exact List.filterMap_some
    simp only [Called.ofOutcome, read]
    exact ⟨⟨length, admits'⟩, by rw [Called.outcome, same]⟩
  | trap cause s =>
    obtain ⟨_, same⟩ := back kept
    exact ⟨trivial, by rw [Called.ofOutcome, Called.outcome, same]⟩
  | exhausted => exact ⟨trivial, rfl⟩

end Meaning

namespace Build

variable {b : Build} {tableExport : Option String} {types : List Signature} {i : Wasm.Instance}
  (linked : Lower.Linked b tableExport types i)

theorem fits_iff {shapes : List Shape} {results : List NumType} {rounds : Nat}
    {call : Nat → World → List Value → Called} {w : World} :
    w.Fits (b.setting tableExport shapes results) (b.layout shapes)
      (b.surroundings i.program rounds call) ↔ b.Admits tableExport w :=
  ⟨fun fits => ⟨fits.globals, fits.table⟩, fun admits => ⟨admits.globals, admits.table⟩⟩

/-- Calls of declared functions, as the machine makes them, are what they are meant to be. -/
def CallsAgree (b : Build) (tableExport : Option String)
    (meant : Nat → World → List Value → Called)
    (call : Nat → Wasm.Store → List Datum → Wasm.CallOutcome) : Prop :=
  ∀ (k : Nat) (f : Function), b.functions[k]? = some f → ∀ (w : World) (args : List Value),
    b.Admits tableExport w → args.length = f.signature.params.length →
      (meant k w args).Fits (b.Admits tableExport) f.signature.results.length ∧
        call (b.funcIndex k) w.store (args.map .num) = (meant k w args).outcome

theorem funcIndex_eq {k n : Nat} (index : (Lower.moduleLayout b).funcIndices[k]? = some n) :
    b.funcIndex k = n := by
  simp [funcIndex, index]

include linked

/-- Where calls agree, the machine has all that code of the build refers to. -/
theorem runnable {signature : Signature} {shapes : List Shape} {body : List ExprId}
    (typed : b.WellTypedBody tableExport signature shapes body) (scratch : List NumType) {rounds : Nat}
    {meant : Nat → World → List Value → Called}
    {call : Nat → Wasm.Store → List Datum → Wasm.CallOutcome}
    (agree : b.CallsAgree tableExport meant call) :
    Meaning.Runnable (b.setting tableExport shapes signature.results) (b.layout shapes)
      ⟨types, scratch⟩ (b.surroundings i.program rounds meant) (i.program.env rounds call) where
  laid := laid_layout typed.localWords typed.globalWords
  arena := rfl
  signatures := rfl
  rounds := rfl
  memory := rfl
  types := by
    intro n s here
    simp [Program.env, linked.listed, here]
  table := by
    intro func mem
    obtain ⟨f, here⟩ := linked.slots func mem
    refine ⟨f.signature, ?_⟩
    rw [setting, List.getElem?_map, Array.getElem?_toList, here, Option.map_some]
  funcs := by
    intro k s here
    obtain ⟨f, there, rfl⟩ := exists_function here
    obtain ⟨n, function, index, found, known⟩ := linked.funcs k f there
    refine ⟨n, index, ?_, fun w args fits length => ?_⟩
    · exact linked.signature_eq there index
    · obtain ⟨fits', same⟩ := agree k f there w args (fits_iff.1 fits) length
      rw [funcIndex_eq index] at same
      exact ⟨fits'.imp fun w => fits_iff.2, same⟩

variable (checked : i.program.Checked)

include checked

/-- Where calls agree, running the function of a well-typed body is what the body means. -/
theorem runBody_means {signature : Signature} {shapes : List Shape} {body : List ExprId}
    {g : Wasm.Func} (typed : b.WellTypedBody tableExport signature shapes body)
    (code : Lower.FunctionCode (Lower.moduleLayout b) types signature shapes body g) {n : Nat}
    (found : i.program.funcs[n]? = some (.code signature.funcType g.locals g.body)) {rounds : Nat}
    {meant : Nat → World → List Value → Called}
    {call : Nat → Wasm.Store → List Datum → Wasm.CallOutcome}
    (yields : Wasm.Yielding i.program.signatures call)
    (agree : b.CallsAgree tableExport meant call) {w : World} {args : List Value}
    (admits : b.Admits tableExport w) (length : args.length = signature.params.length) :
    ((b.surroundings i.program rounds meant).run body (entrySlots shapes args) w).Fits
        (b.Admits tableExport) signature.results.length ∧
      Wasm.runBody (i.program.env rounds call) signature.funcType g.locals g.body w.store
          (args.map .num) =
        ((b.surroundings i.program rounds meant).run body (entrySlots shapes args) w).outcome.body := by
  -- the code passed the check, so it leaves what it should where it falls off its end
  obtain ⟨plain, c, types', funcs, accepted⟩ := checked.code found
  have describes : c.Describes (i.program.env rounds call) := ⟨types', funcs, yields⟩
  cases code with
  | @mk _ scratch _ listed statements =>
    have enough : args.length ≤ (shapes.flatMap Shape.flatten).length :=
      length ▸ typed.params.length_le
    have results : signature.funcType.results.length = signature.results.length := List.length_map _
    obtain ⟨fits, ran⟩ := Meaning.runBody_eq (runnable linked typed scratch agree)
      typed.statements statements results
      (fun _ _ empty ran => Wasm.length_of_next plain describes accepted empty ran) enough
      (fits_iff.2 admits)
    rw [length] at ran
    exact ⟨fits.imp fun w => fits_iff.1, ran⟩

theorem calls_agree {known : Nat → Bool}
    (typed : ∀ (k : Nat) (f : Function) (scope : Scope) (body : List ExprId), known k = true →
      b.functions[k]? = some f → f.kind = .defined scope body →
        b.WellTypedBody tableExport f.signature scope.shapes body)
    (rounds depth room : Nat) :
    b.CallsAgree tableExport (b.calls i.program known rounds depth room)
      (i.program.invoke rounds depth room) := by
  -- on the depth of calls, which both sides count alike
  induction depth generalizing room with
  | zero => exact fun k f here w args admits length => ⟨trivial, rfl⟩
  | succ depth ih =>
    intro k f here w args admits length
    obtain ⟨n, function, index, found, known'⟩ := linked.funcs k f here
    have signature := linked.signature_eq here index
    have kept := i.program.invoke_kept linked.signatures linked.plain rounds (depth + 1) room
      n w.store w.store _ w.storeKept (Numbers.map args)
    rw [signature] at kept
    have machine := Meaning.ofOutcome_spec admits kept
    rw [Signature.funcType, List.length_map] at machine
    rw [calls, funcIndex_eq index, here]
    dsimp only [Option.map_some]
    cases well : known k with
    | false => exact machine
    | true =>
      cases kind : f.kind with
      | imported key => exact machine
      | defined scope body =>
        cases known' with
        | host other => cases kind.symm.trans other
        | @code scope' body' g other code =>
          cases kind.symm.trans other
          by_cases none : rounds = 0
          · subst none
            exact ⟨trivial, rfl⟩
          · obtain ⟨more, rfl⟩ := Nat.exists_eq_succ_of_ne_zero none
            simp only [none, if_false, Program.invoke]
            -- no room for the frame: both are exhausted
            by_cases small : room < i.program.frame n
            · simp only [small, if_true]
              refine ⟨trivial, Program.runChain_of_body ?_ more⟩
              simp only [Program.runOne, found, small, if_true]
              rfl
            · simp only [small, if_false]
              have typed' := typed k f scope body well here kind
              obtain ⟨fits, ran⟩ := runBody_means linked checked typed' code found
                (checked.yielding _ _ _) (ih _) admits length
              refine ⟨fits, Program.runChain_of_body ?_ more⟩
              simp only [Program.runOne, found, small, if_false]
              exact ran

end Build

end WasmBuilder
