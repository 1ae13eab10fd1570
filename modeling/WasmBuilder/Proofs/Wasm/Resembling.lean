import WasmBuilder.Proofs.Simplify.Agreement
import WasmBuilder.Proofs.Wasm.Relocation

/-!
Instances that answer alike.

Where one running module holds all functions of another one and their stores hold the same, calls of
the exports that both have answer the same, and leave stores that hold the same. So a host cannot tell
the two apart by calling these.
-/

set_option autoImplicit false

namespace WasmBuilder.Wasm

/-- Calling an export runs its function, if the arguments fit. -/
theorem Instance.call_run (bounds : Bounds) (name : String) (args : List Value) (i : Instance) :
    Instance.call bounds name args i =
      match i.exportedFunc? name with
      | none => .error (.noFunction name) i
      | some f =>
        if (i.funcType? f).any (·.params = args.map fun v => .num v.type) then
          match i.invoke bounds f args with
          | .done results store => .ok (results.filterMap Datum.value?) { i with store }
          | .trap cause store => .error (.trapped name cause) { i with store }
          | .exhausted => .error (.unfinished name) i
        else .error (.trapped name .illTyped) i := by
  unfold Instance.call
  simp only [bind, EStateM.bind, get, getThe, MonadStateOf.get, EStateM.get]
  cases i.exportedFunc? name with
  | none => rfl
  | some f =>
    dsimp only
    split
    · simp only [Instance.run, bind, EStateM.bind, get, getThe, MonadStateOf.get, EStateM.get]
      cases i.invoke bounds f args <;> rfl
    · rfl

namespace Relocation

structure Resembles (R : Relocation) (i j : Instance) : Prop where
  embeds : R.Embeds i.program j.program i.store j.store
  exports : ∀ (name : String) (f : Nat), i.exportedFunc? name = some f →
    ∃ g, j.exportedFunc? name = some g ∧ R.func f g

inductive AnswersAlike (R : Relocation) (i j : Instance) :
    EStateM.Result RunError Instance (List Value) → EStateM.Result RunError Instance (List Value) → Prop
  | ok {values : List Value} {t u : Store} (agree : R.Matches i.store j.store t u) :
      AnswersAlike R i j (.ok values { i with store := t }) (.ok values { j with store := u })
  | error {e : RunError} {t u : Store} (agree : R.Matches i.store j.store t u) :
      AnswersAlike R i j (.error e { i with store := t }) (.error e { j with store := u })

/-- What a host can tell of the exports of one instance it can tell of those of another one: they have
the same types, and where stores hold the same, calls of them answer the same and leave the same, as
often as there are calls. -/
structure Serves (R : Relocation) (i j : Instance) : Prop where
  exports : ∀ (name : String) (f : Nat), i.exportedFunc? name = some f → ∃ g,
    j.exportedFunc? name = some g ∧ j.funcType? g = i.funcType? f ∧
    ∀ (rounds depth room : Nat) (t u : Store) (args : List Datum), R.Matches i.store j.store t u →
      R.CallsAlike i.store j.store (i.program.invoke rounds depth room f t args)
        (j.program.invoke rounds depth room g u args)
  answers : ∀ (bounds : Bounds) (calls : List (String × List Value)) (t u : Store),
    R.Matches i.store j.store t u →
    (∀ call ∈ calls, (i.exportedFunc? call.1).isSome = true) →
    ∃ answers t' u', R.Matches i.store j.store t' u' ∧
      Instance.answers bounds calls { i with store := t } = (answers, { i with store := t' }) ∧
      Instance.answers bounds calls { j with store := u } = (answers, { j with store := u' })

namespace Resembles

variable {R : Relocation} {i j : Instance} (resembles : R.Resembles i j) {t u : Store}
  (agree : R.Matches i.store j.store t u)

include resembles agree

/-- An export that both have answers alike. -/
theorem call (bounds : Bounds) {name : String} (exported : (i.exportedFunc? name).isSome = true)
    (args : List Value) :
    R.AnswersAlike i j (Instance.call bounds name args { i with store := t })
      (Instance.call bounds name args { j with store := u }) := by
  obtain ⟨f, here⟩ := Option.isSome_iff_exists.1 exported
  obtain ⟨g, there, funcs⟩ := resembles.exports name f here
  have here' : Instance.exportedFunc? { i with store := t } name = some f := here
  have there' : Instance.exportedFunc? { j with store := u } name = some g := there
  have type : Instance.funcType? { j with store := u } g = Instance.funcType? { i with store := t } f :=
    resembles.embeds.signatures funcs
  have calls := resembles.embeds.invoke bounds.rounds bounds.room bounds.room f g funcs t u
    (args.map .num) agree
  rw [Instance.call_run, Instance.call_run, here', there']
  dsimp only
  rw [type]
  split
  · unfold Instance.invoke
    dsimp only
    generalize i.program.invoke bounds.rounds bounds.room bounds.room f t (args.map .num) = o at calls ⊢
    generalize j.program.invoke bounds.rounds bounds.room bounds.room g u (args.map .num) = o' at calls ⊢
    cases calls with
    | done agree => exact .ok agree
    | trap agree => exact .error agree
    | exhausted => exact .error agree
  · exact .error agree

theorem answers (bounds : Bounds) {calls : List (String × List Value)}
    (exported : ∀ call ∈ calls, (i.exportedFunc? call.1).isSome = true) :
    ∃ answers t' u', R.Matches i.store j.store t' u' ∧
      Instance.answers bounds calls { i with store := t } = (answers, { i with store := t' }) ∧
      Instance.answers bounds calls { j with store := u } = (answers, { j with store := u' }) := by
  induction calls generalizing t u with
  | nil => exact ⟨[], t, u, agree, rfl, rfl⟩
  | cons call rest ih =>
    obtain ⟨name, args⟩ := call
    have alike := resembles.call agree bounds (exported _ List.mem_cons_self) args
    have later {t u : Store} (agree : R.Matches i.store j.store t u) :=
      ih agree fun other mem => exported other (List.mem_cons_of_mem _ mem)
    unfold Instance.answers
    generalize Instance.call bounds name args { i with store := t } = answer at alike ⊢
    generalize Instance.call bounds name args { j with store := u } = answer' at alike ⊢
    -- a call that fails keeps the stores related, so the next ones go on from there
    cases alike with
    | @ok values _ _ agree =>
      obtain ⟨answers, t', u', agree, here, there⟩ := later agree
      refine ⟨.ok values :: answers, t', u', agree, ?_, ?_⟩
      · dsimp only
        rw [here]
      · dsimp only
        rw [there]
    | @error e _ _ agree =>
      obtain ⟨answers, t', u', agree, here, there⟩ := later agree
      refine ⟨.error e :: answers, t', u', agree, ?_, ?_⟩
      · dsimp only
        rw [here]
      · dsimp only
        rw [there]

omit agree in
theorem serves : R.Serves i j where
  exports name f here := by
    obtain ⟨g, there, funcs⟩ := resembles.exports name f here
    exact ⟨g, there, resembles.embeds.signatures funcs, fun rounds depth room t u args agree =>
      resembles.embeds.invoke rounds depth room f g funcs t u args agree⟩
  answers bounds _ _ _ agree exported := resembles.answers agree bounds exported

end Resembles

end Relocation

end WasmBuilder.Wasm
