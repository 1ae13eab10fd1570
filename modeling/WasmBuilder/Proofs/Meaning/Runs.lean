import Mathlib.Data.List.Forall2
import WasmBuilder.Proofs.Meaning.Basic
import WasmBuilder.Proofs.Typing.Provides
import WasmBuilder.Proofs.Wasm.Control

/-!
When code does what a meaning says.

The machine has the numbers of all variables in a row, and scratch locals behind them. Code runs a
meaning when it leaves the numbers of the value on the stack, above whatever was there, and changes
variables and the store in the same way.
-/

set_option autoImplicit false

namespace WasmBuilder.Meaning

open Lower (Layout Tables)
open Wasm (Datum Env Instr Machine Outcome)

def World.store (w : World) : Wasm.Store :=
  { w.rest with globals := (w.globals.flatten.map Datum.num).toArray }

def Fit (shapes : List Shape) (values : List (List Value)) : Prop :=
  List.Forall₂ (fun s value => value.length = s.width) shapes values

/-- A world with the global variables of a setting, and a table that holds the functions that it
should. -/
structure World.Fits (v : Setting) (l : Layout) (Γ : Surroundings) (w : World) : Prop where
  globals : Fit v.globals w.globals
  table : v.hasTable = true → l.Fills Γ.table w.rest

def Called.outcome : Called → Wasm.CallOutcome
  | .done results w => .done (results.map .num) w.store
  | .trap cause w => .trap cause w.store
  | .exhausted => .exhausted

def Called.Fits (fits : World → Prop) (count : Nat) : Called → Prop
  | .done results w => results.length = count ∧ fits w
  | .trap _ _ | .exhausted => True

theorem Called.Fits.imp {P Q : World → Prop} {count : Nat} {c : Called} (fits : c.Fits P count)
    (implies : ∀ w, P w → Q w) : c.Fits Q count := by
  cases c with
  | done results w => exact ⟨fits.1, implies w fits.2⟩
  | trap | exhausted => trivial

/-- The machine has what code of a setting refers to, and calls do what they are meant to do. -/
structure Runnable (v : Setting) (l : Layout) (K : Tables) (Γ : Surroundings) (e : Env) : Prop where
  laid : v.Laid l
  arena : Γ.arena = v.arena
  signatures : Γ.signatures = v.signatures
  rounds : e.rounds = Γ.rounds
  memory : e.memories[0]? = Γ.memory
  types : ∀ (i : Nat) (s : Signature), K.types[i]? = some s → e.types[i]? = some s.funcType
  table : ∀ func ∈ Γ.table, ∃ s, v.signatures[func]? = some s
  funcs : ∀ (func : Nat) (s : Signature), v.signatures[func]? = some s →
    ∃ index, l.funcIndices[func]? = some index ∧ e.signatures[index]? = some s.funcType ∧
      ∀ (w : World) (args : List Value), w.Fits v l Γ → args.length = s.params.length →
        (Γ.call func w args).Fits (World.Fits v l Γ) s.results.length ∧
          e.call index w.store (args.map .num) = (Γ.call func w args).outcome

/-- A machine in a state: variables come first among its locals. -/
structure Related (v : Setting) (l : Layout) (K : Tables) (Γ : Surroundings) (s : State)
    (m : Machine) : Prop where
  store : m.store = s.world.store
  fits : s.world.Fits v l Γ
  slots : Fit v.locals s.slots
  locals : ∃ scratch : List Datum, scratch.length = K.scratch.length ∧
    m.locals.toList = s.slots.flatten.map .num ++ scratch

def Ends (v : Setting) (l : Layout) (Γ : Surroundings) {α : Type} (post : α → State → Outcome → Prop) :
    Ending α → Outcome → Prop
  | .value a s, o => post a s o
  | .ret results w, .ret m =>
    results.length = v.results.length ∧ m.store = w.store ∧ w.Fits v l Γ ∧
      ∃ rest, m.stack = (results.map .num).reverse ++ rest
  | .trap cause w, .trap cause' store => cause = cause' ∧ store = w.store
  | .exhausted, .exhausted => True
  | _, _ => False

def Pushed (v : Setting) (l : Layout) (K : Tables) (Γ : Surroundings) (count : Nat)
    (below : List Datum) (value : List Value) (s : State) : Outcome → Prop
  | .next m =>
    value.length = count ∧ Related v l K Γ s m ∧ m.stack = (value.map .num).reverse ++ below
  | _ => False

/-- Code does what is meant, from a stack with some numbers on top. -/
def Runs (v : Setting) (l : Layout) (K : Tables) (Γ : Surroundings) (e : Env) (taken : List Value)
    (code : List Instr) (meant : EvalM (List Value)) (count : Nat) : Prop :=
  ∀ (s : State) (m : Machine) (below : List Datum), Related v l K Γ s m →
    m.stack = (taken.map .num).reverse ++ below →
    Ends v l Γ (Pushed v l K Γ count below) (meant s) (Instr.execSeq code e m)

section
variable {v : Setting} {l : Layout} {K : Tables} {Γ : Surroundings} {α : Type} {x : Ending α}
  {o : Outcome}

/-- Evaluation has a value, or both evaluation and control have stopped. -/
theorem Ends.cases {post : α → State → Outcome → Prop} (ends : Ends v l Γ post x o) :
    (∃ a s, x = .value a s ∧ post a s o) ∨
      (o.Stopped ∧ ∀ (β : Type) (f : α → State → Ending β) (post' : β → State → Outcome → Prop),
        Ends v l Γ post' (x.andThen f) o) := by
  cases x with
  | value a s => exact .inl ⟨a, s, rfl, ends⟩
  | ret results w =>
    cases o with
    | ret m => exact .inr ⟨trivial, fun _ _ _ => ends⟩
    | next | branch | tail | trap | exhausted => exact ends.elim
  | trap cause w =>
    cases o with
    | trap cause' store => exact .inr ⟨trivial, fun _ _ _ => ends⟩
    | next | branch | ret | tail | exhausted => exact ends.elim
  | exhausted =>
    cases o with
    | exhausted => exact .inr ⟨trivial, fun _ _ _ => ends⟩
    | next | branch | ret | tail | trap => exact ends.elim

theorem Pushed.exists_next {count : Nat} {below : List Datum} {value : List Value} {s : State}
    (pushed : Pushed v l K Γ count below value s o) :
    ∃ m, o = .next m ∧ value.length = count ∧ Related v l K Γ s m ∧
      m.stack = (value.map .num).reverse ++ below := by
  cases o with
  | next m => exact ⟨m, rfl, pushed⟩
  | branch | ret | tail | trap | exhausted => exact pushed.elim

end

namespace Runs

variable {v : Setting} {l : Layout} {K : Tables} {Γ : Surroundings} {e : Env}
  {taken : List Value} {code first second : List Instr} {meant : EvalM (List Value)}
  {count total : Nat}

theorem of_step {i : Instr}
    (step : ∀ (s : State) (m : Machine) (below : List Datum), Related v l K Γ s m →
      m.stack = (taken.map .num).reverse ++ below →
      Ends v l Γ (Pushed v l K Γ count below) (meant s) (i.exec e m)) :
    Runs v l K Γ e taken [i] meant count := by
  intro s m below related stack
  rw [Instr.execSeq_singleton]
  exact step s m below related stack

theorem nil {value : List Value} (length : value.length = count) :
    Runs v l K Γ e value [] (pure value) count :=
  fun _ _ _ related stack => ⟨length, related, stack⟩

/-- Code for a value, and then code that takes the value from above what was there already. -/
theorem bind {f : List Value → EvalM (List Value)} (one : Runs v l K Γ e [] first meant count)
    (two : ∀ value : List Value, value.length = count →
      Runs v l K Γ e (taken ++ value) second (f value) total) :
    Runs v l K Γ e taken (first ++ second) (meant >>= f) total := by
  intro s m below related stack
  rw [bind_apply]
  rcases (one s m m.stack related rfl).cases with ⟨value, s', meaning, pushed⟩ | ⟨stopped, same⟩
  · obtain ⟨m', run, length, related', stack'⟩ := pushed.exists_next
    rw [meaning, Instr.execSeq_append_next run]
    refine two value length s' m' below related' ?_
    rw [stack', stack, List.map_append, List.reverse_append, List.append_assoc]
  · rw [stopped.append]
    exact same _ _ _

/-- Code for a value whose numbers go on top of others that are part of the same value. -/
theorem above {value : List Value} (length : value.length = total)
    (runs : Runs v l K Γ e [] code meant count) :
    Runs v l K Γ e value code (meant >>= fun more => pure (value ++ more)) (total + count) := by
  rw [← List.append_nil code]
  refine runs.bind fun more length' => nil ?_
  rw [List.length_append, length, length']

end Runs

end WasmBuilder.Meaning
