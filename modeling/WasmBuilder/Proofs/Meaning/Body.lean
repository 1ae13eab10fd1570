import WasmBuilder.Proofs.Meaning.Basic
import WasmBuilder.Proofs.Meaning.Simulation
import WasmBuilder.Proofs.Typing.Lowers

/-!
Running the code of a body is what the body means.

Evaluation follows operands down to a bound that every well-typed expression keeps, so the depth plays
no part: the meaning of an expression is that of its node, made of the meanings of its operands.
-/

set_option autoImplicit false

namespace WasmBuilder.Meaning

namespace Surroundings

variable {Γ : Surroundings} {f g : ExprId → EvalM (List Value)}

theorem operands_congr {ids : List ExprId} (same : ∀ id ∈ ids, f id = g id) :
    operands f ids = operands g ids := by
  induction ids with
  | nil => rfl
  | cons id rest ih =>
    rw [operands, operands, same id List.mem_cons_self,
      ih fun x mem => same x (List.mem_cons_of_mem id mem)]

theorem statements_congr {ids : List ExprId} (same : ∀ id ∈ ids, f id = g id) :
    statements f ids = statements g ids := by
  induction ids with
  | nil => rfl
  | cons id rest ih =>
    rw [statements, statements, same id List.mem_cons_self,
      ih fun x mem => same x (List.mem_cons_of_mem id mem)]

theorem sequence_congr (value : Bool) {ids : List ExprId} (same : ∀ id ∈ ids, f id = g id) :
    sequence f value ids = sequence g value ids := by
  induction ids with
  | nil => rfl
  | cons id rest ih =>
    have later := ih fun x mem => same x (List.mem_cons_of_mem id mem)
    cases rest with
    | nil => rw [sequence, sequence, same id List.mem_cons_self]
    | cons next rest =>
      show (f id >>= fun _ => sequence f value (next :: rest)) = _
      rw [same id List.mem_cons_self, later]
      rfl

theorem node_congr {id : ExprId} {n : Node} (same : ∀ child ∈ n.children, f child = g child) :
    Γ.node f id n = Γ.node g id n := by
  cases n with
  | const | localGet | globalGet | memorySize | nop => rfl
  | localSet slot shape value | globalSet slot shape value =>
    simp only [node, same value List.mem_cons_self]
  | binary op left right =>
    simp only [node, same left List.mem_cons_self,
      same right (List.mem_cons_of_mem left List.mem_cons_self)]
  | unary op operand => simp only [node, same operand List.mem_cons_self]
  | call func args signature =>
    have values : operands f args = operands g args := operands_congr same
    simp only [node, values]
  | callIndirect index args signature =>
    have values := operands_congr fun x mem => same x (List.mem_append_left [index] mem)
    simp only [node, values, same index (List.mem_append_right args List.mem_cons_self)]
  | block items shape => exact sequence_congr _ same
  | group items => exact operands_congr same
  | extract composite index offset width => simp only [node, same composite List.mem_cons_self]
  | choose cond thenItems elseItems shape =>
    have yes := sequence_congr (Γ.hasValue id) fun x mem =>
      same x (List.mem_append_left elseItems (List.mem_cons_of_mem cond mem))
    have no := sequence_congr (Γ.hasValue id) fun x mem =>
      same x (List.mem_append_right (cond :: thenItems) mem)
    simp only [node, same cond List.mem_cons_self, yes, no]
  | loop init cond step body =>
    have part (ids : List ExprId) (among : ∀ x ∈ ids, x ∈ init ++ cond :: body ++ step) :
        statements f ids = statements g ids := statements_congr fun x mem => same x (among x mem)
    simp only [node, part init (by simp +contextual), part body (by simp +contextual),
      part step (by simp +contextual), same cond (by simp [Node.children])]
  | ret value =>
    cases value with
    | none => rfl
    | some value => simp only [node, same value List.mem_cons_self]
  | load type addr offset => simp only [node, same addr List.mem_cons_self]
  | store type addr value offset =>
    simp only [node, same addr List.mem_cons_self,
      same value (List.mem_cons_of_mem addr List.mem_cons_self)]
  | memoryGrow delta => simp only [node, same delta List.mem_cons_self]

theorem evalWithin_succ {depth : Nat} {id : ExprId} (shallow : Γ.arena.Shallow depth id) :
    Γ.evalWithin (depth + 1) id = Γ.evalWithin depth id := by
  induction depth generalizing id with
  | zero => exact shallow.elim
  | succ depth ih =>
    obtain ⟨node, here, below⟩ := shallow
    rw [evalWithin, evalWithin, here]
    exact node_congr fun child mem => ih (below child mem)

/-- The meaning of a well-typed expression is made of the meanings of its operands. -/
theorem eval_eq {v : Setting} (arena : Γ.arena = v.arena) {id : ExprId} {node : Node}
    (typed : v.WellTyped id) (here : v.arena.node id = .ok node) :
    Γ.eval id = Γ.node Γ.eval id node := by
  cases typed with
  | mk there _ _ operands =>
    cases here.symm.trans there
    rw [eval, Arena.pathBound, evalWithin, arena, here]
    refine node_congr fun child mem => ?_
    obtain ⟨depth, shallow⟩ := (operands child mem).exists_shallow
    have within := shallow.within_size
    rw [← arena] at within
    rw [eval, ← arena, Arena.pathBound, evalWithin_succ within]

end Surroundings

end WasmBuilder.Meaning

namespace WasmBuilder.Meaning

open Lower (Layout Tables Codes StatementCode ExprCode)
open Wasm (Datum Env Instr Machine)

theorem fit_split {shapes : List Shape} {numbers : List Value}
    (length : numbers.length = (shapes.flatMap Shape.flatten).length) :
    Fit shapes (split shapes numbers) ∧ (split shapes numbers).flatten = numbers := by
  induction shapes generalizing numbers with
  | nil => exact ⟨.nil, (List.length_eq_zero_iff.1 length).symm⟩
  | cons s shapes ih =>
    rw [List.flatMap_cons, List.length_append] at length
    have width : s.width = s.flatten.length := Shape.width_eq s
    have others : (numbers.drop s.width).length = (shapes.flatMap Shape.flatten).length := by
      rw [List.length_drop]
      omega
    obtain ⟨fit, whole⟩ := ih others
    constructor
    · exact .cons (by rw [List.length_take]; omega) fit
    · rw [split, List.flatten_cons, whole, List.take_append_drop]

section
variable {shapes : List Shape} {args : List Value}
  (enough : args.length ≤ (shapes.flatMap Shape.flatten).length)

include enough

theorem fit_entrySlots : Fit shapes (entrySlots shapes args) := by
  refine (fit_split ?_).1
  rw [List.length_append, List.length_map, List.length_drop]
  omega

theorem flatten_entrySlots : (entrySlots shapes args).flatten =
    args ++ ((shapes.flatMap Shape.flatten).drop args.length).map .zero := by
  refine (fit_split ?_).2
  rw [List.length_append, List.length_map, List.length_drop]
  omega

end

variable {v : Setting} {l : Layout} {K : Tables} {Γ : Surroundings} {e : Env}

section
variable (runnable : Runnable v l K Γ e) {body : List ExprId} (typed : ∀ id ∈ body, v.WellTyped id)

include runnable typed

theorem runs_statements {code : List Instr}
    (lowered : Codes (StatementCode l (ExprCode l K)) body code) :
    Runs v l K Γ e [] code (Surroundings.statements Γ.eval body) 0 := by
  have deep : l.arena.pathBound = Γ.arena.pathBound := by
    rw [runnable.laid.arena, runnable.arena]
  rw [ExprCode, deep] at lowered
  refine Runs.statements (performs runnable _) runnable.laid lowered fun id mem => ?_
  have well := typed id mem
  refine ⟨well, ?_⟩
  rw [runnable.arena]
  exact well.shallow

/-- The code of a well-typed body, as a function of the machine, does what the body means. Statements
leave nothing on the stack, so the code can only fall off its end where nothing is to be left. -/
theorem runBody_eq {code : List Instr} (lowered : Codes (StatementCode l (ExprCode l K)) body code)
    {type : Wasm.FuncType} (results : type.results.length = v.results.length)
    (leaves : ∀ m r : Machine, m.stack = [] → Instr.execSeq code e m = .next r →
      r.stack.length = type.results.length) {args : List Value}
    (enough : args.length ≤ (v.locals.flatMap Shape.flatten).length) {w : World}
    (fits : w.Fits v l Γ) :
    (Γ.run body (entrySlots v.locals args) w).Fits (World.Fits v l Γ) v.results.length ∧
      Wasm.runBody e type
        (((v.locals.flatMap Shape.flatten).drop args.length ++ K.scratch).map .num) code w.store
        (args.map .num) = (Γ.run body (entrySlots v.locals args) w).outcome.body := by
  have related : Related v l K Γ ⟨entrySlots v.locals args, w⟩ ⟨w.store, (args.map Datum.num ++
      (((v.locals.flatMap Shape.flatten).drop args.length ++ K.scratch).map Wasm.ValType.num).map
        Datum.zero).toArray, []⟩ := by
    refine ⟨rfl, fits, fit_entrySlots enough, K.scratch.map fun t => .num (.zero t),
      List.length_map _, ?_⟩
    rw [flatten_entrySlots enough]
    simp only [List.map_append, List.append_assoc, List.map_map]
    rfl
  -- code of statements does what they mean; what remains is how a body ends
  have ends := runs_statements runnable typed lowered _ _ [] related rfl
  have leaves := leaves ⟨w.store, (args.map Datum.num ++
    (((v.locals.flatMap Shape.flatten).drop args.length ++ K.scratch).map Wasm.ValType.num).map
      Datum.zero).toArray, []⟩
  simp only [Wasm.runBody, Surroundings.run]
  generalize Instr.execSeq code e _ = o at ends leaves ⊢
  cases meaning : Surroundings.statements Γ.eval body ⟨entrySlots v.locals args, w⟩ with
  | value a s =>
    rw [meaning] at ends
    obtain ⟨m, rfl, length, related', stack⟩ := ends.exists_next
    have none : type.results.length = 0 := by
      rw [← leaves m rfl rfl, stack, List.append_nil, List.length_reverse, List.length_map, length]
    refine ⟨⟨results ▸ none.symm, related'.fits⟩, ?_⟩
    simp [Machine.finish, none, Called.outcome, Wasm.CallOutcome.body, related'.store]
  | ret numbers w' =>
    rw [meaning] at ends
    match o, ends with
    | .ret m, ⟨length, store, fits', rest, stack⟩ =>
      refine ⟨⟨length, fits'⟩, ?_⟩
      have top : (numbers.map Datum.num).reverse.length = type.results.length := by
        rw [List.length_reverse, List.length_map, length, results]
      simp [Machine.finish, stack, ← top, Called.outcome, Wasm.CallOutcome.body, store]
  | trap cause w' =>
    rw [meaning] at ends
    match o, ends with
    | .trap _ _, ⟨same, store⟩ => exact ⟨trivial, by rw [same, store]; rfl⟩
  | exhausted =>
    rw [meaning] at ends
    match o, ends with
    | .exhausted, _ => exact ⟨trivial, rfl⟩

end

end WasmBuilder.Meaning
