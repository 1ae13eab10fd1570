import WasmBuilder.Proofs.Startup.Instance
import WasmBuilder.Proofs.Wasm.Resembling

/-!
Loops that test a condition before each round, and calls of functions by the host.

A loop is told by the machines at which its rounds begin. As long as the condition holds, a round
leads from one of these to the next one; where it does not hold the loop is left, and where a round
traps the loop does.
-/

set_option autoImplicit false

namespace WasmBuilder.Wasm

theorem toInt_ofNat_of_lt {w k : Nat} (small : 2 * k < 2 ^ w) : (BitVec.ofNat w k).toInt = k := by
  have low : (BitVec.ofNat w k).toNat = k := by
    rw [BitVec.toNat_ofNat]
    exact Nat.mod_eq_of_lt (by omega)
  rw [BitVec.toInt_eq_toNat_of_lt (by rw [low]; exact small), low]

theorem ofNat_slt {w : Nat} (n : BitVec w) {k : Nat} (inside : k ≤ n.toInt.toNat) :
    (BitVec.ofNat w k).slt n = decide (k < n.toInt.toNat) := by
  have low : (BitVec.ofNat w k).toInt = k := by
    obtain rfl | some_ := Nat.eq_zero_or_pos k
    · exact BitVec.toInt_zero
    · have bound : 2 * n.toInt < 2 ^ w := BitVec.two_mul_toInt_lt
      have small : (2 * k : Int) < 2 ^ w := by omega
      exact toInt_ofNat_of_lt (by exact_mod_cast small)
  rw [BitVec.slt_eq_decide, low]
  exact decide_eq_decide.2 (by omega)

def whileCode (cond body : List Instr) : List Instr :=
  [.block .empty
    [.loop .empty (cond ++ [Instr.unary (.eqz .w32), .brIf 1] ++ body ++ [Instr.br 0])]]

section
variable {e : Env} {cond body : List Instr} {states : Nat → Machine} {n : Nat}

structure Rounds (e : Env) (cond body : List Instr) (states : Nat → Machine) (n : Nat) : Prop where
  empty : ∀ k ≤ n, (states k).stack = []
  holds : ∀ k < n, Instr.execSeq cond e (states k) = .next ((states k).push (.ofBool true))
  goesOn : ∀ k < n, Instr.execSeq body e (states k) = .next (states (k + 1))

def roundOf (e : Env) (cond body : List Instr) : Machine → Outcome :=
  Instr.execSeq (cond ++ [Instr.unary (.eqz .w32), .brIf 1] ++ body ++ [Instr.br 0]) e

theorem round_of_true {m : Machine} (empty : m.stack = [])
    (holds : Instr.execSeq cond e m = .next (m.push (.ofBool true))) :
    roundOf e cond body m = match Instr.execSeq body e m with
      | .next m => .branch 0 m
      | o => o := by
  have test : Instr.execSeq [.unary (.eqz .w32), .brIf 1] e (m.push (.ofBool true)) = .next m := by
    obtain ⟨s, locals, stack⟩ := m
    cases empty
    rfl
  rw [roundOf, List.append_assoc, List.append_assoc, Instr.execSeq_append_next holds,
    Instr.execSeq_append_next test, Instr.execSeq_append]
  -- behind the body only the branch to the next round is left
  cases Instr.execSeq body e m <;> rfl

theorem round_of_false {m : Machine} (empty : m.stack = [])
    (stops : Instr.execSeq cond e m = .next (m.push (.ofBool false))) :
    roundOf e cond body m = .branch 1 m := by
  obtain ⟨s, locals, stack⟩ := m
  cases empty
  rw [roundOf, List.append_assoc, List.append_assoc, Instr.execSeq_append_next stops]
  rfl

/-- A block around a loop that is left by a branch out of the block, or by a trap. -/
theorem execSeq_whileCode {m : Machine} (empty : m.stack = []) :
    Instr.execSeq (whileCode cond body) e m =
      match m.repeatLoop 0 (roundOf e cond body) e.rounds with
      | .branch 0 inner => .next { inner with stack := [] }
      | .branch (l + 1) inner => .branch l inner
      | o => o := by
  obtain ⟨s, locals, stack⟩ := m
  cases empty
  simp only [whileCode, Instr.execSeq, Instr.exec, Env.blockType?, Machine.enter, Machine.enterLoop,
    List.length_nil, List.take_nil, List.drop_nil]
  unfold roundOf
  -- what is left of the loop is how it ended
  generalize Machine.repeatLoop _ _ _ _ = o
  cases o with
  | branch l => cases l <;> simp
  | _ => simp

namespace Rounds

variable (rounds : Rounds e cond body states n)

include rounds

/-- A round that is gone through counts down the bound. -/
theorem repeatLoop (k extra : Nat) (some_ : k ≤ n) :
    (states 0).repeatLoop 0 (roundOf e cond body) (k + extra) =
      (states k).repeatLoop 0 (roundOf e cond body) extra := by
  -- each round takes one off the bound and leaves the rest of it to the rounds behind
  induction k generalizing extra with
  | zero => rw [Nat.zero_add]
  | succ k ih =>
    have empty := rounds.empty (k + 1) some_
    have round : roundOf e cond body (states k) = .branch 0 (states (k + 1)) := by
      rw [round_of_true (rounds.empty k (by omega)) (rounds.holds k some_), rounds.goesOn k some_]
    have next : { states (k + 1) with stack := (states (k + 1)).stack.take 0 } = states (k + 1) := by
      rw [empty, List.take_nil, ← empty]
    rw [show k + 1 + extra = k + (extra + 1) by omega, ih (extra + 1) (by omega),
      Machine.repeatLoop, round]
    dsimp only
    rw [next]

theorem loop_last (enough : n < e.rounds) : ∃ extra,
    (states 0).repeatLoop 0 (roundOf e cond body) e.rounds =
      (states n).repeatLoop 0 (roundOf e cond body) (extra + 1) := by
  obtain ⟨extra, same⟩ := Nat.exists_eq_add_of_lt enough
  refine ⟨extra, ?_⟩
  rw [← rounds.repeatLoop n (extra + 1) (Nat.le_refl n), same, Nat.add_assoc]

theorem stops (enough : n < e.rounds)
    (ends : Instr.execSeq cond e (states n) = .next ((states n).push (.ofBool false))) :
    Instr.execSeq (whileCode cond body) e (states 0) = .next (states n) := by
  obtain ⟨extra, loop⟩ := rounds.loop_last enough
  have last := rounds.empty n (Nat.le_refl n)
  have left : (states n).repeatLoop 0 (roundOf e cond body) (extra + 1) = .branch 0 (states n) := by
    rw [Machine.repeatLoop, round_of_false last ends]
  rw [execSeq_whileCode (rounds.empty 0 (Nat.zero_le n)), loop, left, ← last]

/-- A trap in a round is a trap of the loop. -/
theorem traps (enough : n < e.rounds)
    (holds : Instr.execSeq cond e (states n) = .next ((states n).push (.ofBool true)))
    {cause : Trap} {s : Store} (trap : Instr.execSeq body e (states n) = .trap cause s) :
    Instr.execSeq (whileCode cond body) e (states 0) = .trap cause s := by
  obtain ⟨extra, loop⟩ := rounds.loop_last enough
  have left : (states n).repeatLoop 0 (roundOf e cond body) (extra + 1) = .trap cause s := by
    rw [Machine.repeatLoop, round_of_true (rounds.empty n (Nat.le_refl n)) holds, trap]
  rw [execSeq_whileCode (rounds.empty 0 (Nat.zero_le n)), loop, left]

end Rounds

end

/-- A function does what its body does, if there is room for its frame. -/
theorem Program.invoke_of_body {p : Program} {rounds depth room f : Nat} {type : FuncType}
    {locals : List ValType} {body : List Instr} (here : p.funcs[f]? = some (.code type locals body))
    (fits : p.frame f ≤ room) {s : Store} {args : List Datum} {o : CallOutcome}
    (ends : runBody (p.env (rounds + 1) (p.invoke (rounds + 1) depth (room - p.frame f))) type locals
      body s args = o.body) :
    p.invoke (rounds + 1) (depth + 1) room f s args = o := by
  rw [Program.invoke]
  apply Program.runChain_of_body
  rw [Program.runOne, here]
  dsimp only
  rw [if_neg (Nat.not_lt.2 fits)]
  exact ends

theorem Instance.invoke_of_body {i : Instance} {bounds : Bounds} {f : Nat} {type : FuncType}
    {locals : List ValType} {body : List Instr}
    (here : i.program.funcs[f]? = some (.code type locals body))
    (room : i.program.frame f ≤ bounds.room) (some_ : 0 < bounds.room) (rounds : 0 < bounds.rounds)
    {args : List Value} {o : CallOutcome}
    (ends : runBody (i.bodyEnv bounds f) type locals body i.store (args.map .num) = o.body) :
    i.invoke bounds f args = o := by
  obtain ⟨rounds', depth⟩ := bounds
  obtain ⟨depth, rfl⟩ := Nat.exists_eq_succ_of_ne_zero (Nat.pos_iff_ne_zero.1 some_)
  obtain ⟨rounds', rfl⟩ := Nat.exists_eq_succ_of_ne_zero (Nat.pos_iff_ne_zero.1 rounds)
  exact Program.invoke_of_body here room ends

/-- The export of a name is a function with this code. -/
structure Instance.Offers (i : Instance) (name : String) (f : Nat) (type : FuncType)
    (locals : List ValType) (body : List Instr) : Prop where
  exported : i.exportedFunc? name = some f
  code : i.program.funcs[f]? = some (.code type locals body)
  typed : i.funcType? f = some type

namespace Instance.Offers

variable {i : Instance} {name : String} {f : Nat} {type : FuncType} {locals : List ValType}
  {body : List Instr} (offers : i.Offers name f type locals body) {bounds : Bounds} {args : List Value}
  (fits : type.params = args.map fun v => .num v.type)

include offers fits

theorem call_eq : Instance.call bounds name args i =
    match i.invoke bounds f args with
    | .done results store => .ok (results.filterMap Datum.value?) { i with store }
    | .trap cause store => .error (.trapped name cause) { i with store }
    | .exhausted => .error (.unfinished name) i := by
  have typed : (i.funcType? f).any (·.params = args.map fun v => .num v.type) = true := by
    rw [offers.typed]
    exact decide_eq_true fits
  rw [Instance.call_run, offers.exported]
  exact if_pos typed

variable (room : i.program.frame f ≤ bounds.room) (some_ : 0 < bounds.room)
  (rounds : 0 < bounds.rounds)

include room some_ rounds

/-- A call by the host answers what the body of the function leaves on the stack. -/
theorem returns {m : Machine}
    (ends : Instr.execSeq body (i.bodyEnv bounds f)
        ⟨i.store, (args.map Datum.num ++ locals.map Datum.zero).toArray, []⟩ = .ret m ∨
      Instr.execSeq body (i.bodyEnv bounds f)
        ⟨i.store, (args.map Datum.num ++ locals.map Datum.zero).toArray, []⟩ = .next m)
    (enough : type.results.length ≤ m.stack.length) :
    Instance.call bounds name args i =
      .ok ((m.stack.take type.results.length).reverse.filterMap Datum.value?)
        { i with store := m.store } := by
  have done : runBody (i.bodyEnv bounds f) type locals body i.store (args.map .num) =
      (CallOutcome.done (m.stack.take type.results.length).reverse m.store).body := by
    unfold runBody
    dsimp only
    rcases ends with ends | ends <;> rw [ends] <;> exact if_neg (Nat.not_lt.2 enough)
  rw [offers.call_eq fits, Instance.invoke_of_body offers.code room some_ rounds done]

/-- A trap of the body is one of the call. -/
theorem traps {cause : Trap} {s : Store} (trap : Instr.execSeq body (i.bodyEnv bounds f)
      ⟨i.store, (args.map Datum.num ++ locals.map Datum.zero).toArray, []⟩ = .trap cause s) :
    Instance.call bounds name args i = .error (.trapped name cause) { i with store := s } := by
  have ends : runBody (i.bodyEnv bounds f) type locals body i.store (args.map .num) =
      (CallOutcome.trap cause s).body := by
    unfold runBody
    dsimp only
    rw [trap]
    rfl
  rw [offers.call_eq fits, Instance.invoke_of_body offers.code room some_ rounds ends]

end Instance.Offers

section
variable {i : Instance} (signatures : i.program.signatures = i.program.funcs.map FuncInstance.type)
  (plain : ∀ (n : Nat) (f : FuncInstance), i.program.funcs[n]? = some f → f.IsPlain)

include signatures plain

/-- A call by the host leaves the code and the tables of an instance as they are, however it ends. -/
theorem Instance.call_kept (bounds : Bounds) (name : String) (args : List Value) {t : Store}
    (kept : StoreKept i.store t) : ∃ u, StoreKept i.store u ∧
      ((∃ values, Instance.call bounds name args { i with store := t } =
          .ok values { i with store := u }) ∨
        ∃ e, Instance.call bounds name args { i with store := t } = .error e { i with store := u }) := by
  have numbers : Numbers (args.map .num) := by
    intro d mem
    obtain ⟨v, -, rfl⟩ := List.mem_map.1 mem
    exact ⟨v, rfl⟩
  rw [Instance.call_run]
  split
  next => exact ⟨t, kept, .inr ⟨_, rfl⟩⟩
  next f exported =>
    split
    · have ends : CallKept i.store i.program.signatures[f]?
          (Instance.invoke { i with store := t } bounds f args) :=
        i.program.invoke_kept signatures plain bounds.rounds bounds.room bounds.room f i.store t _ kept
          numbers
      cases run : Instance.invoke { i with store := t } bounds f args with
      | done results store =>
        rw [run] at ends
        exact ⟨store, ends.2.1, .inl ⟨_, rfl⟩⟩
      | trap cause store =>
        rw [run] at ends
        exact ⟨store, ends, .inr ⟨_, rfl⟩⟩
      | exhausted => exact ⟨t, kept, .inr ⟨_, rfl⟩⟩
    · exact ⟨t, kept, .inr ⟨_, rfl⟩⟩

theorem Instance.answers_kept (bounds : Bounds) (calls : List (String × List Value)) {t : Store}
    (kept : StoreKept i.store t) : ∃ u, StoreKept i.store u ∧
      (Instance.answers bounds calls { i with store := t }).2 = { i with store := u } := by
  induction calls generalizing t with
  | nil => exact ⟨t, kept, rfl⟩
  | cons call rest ih =>
    obtain ⟨name, args⟩ := call
    obtain ⟨u, kept, run⟩ := Instance.call_kept signatures plain bounds name args kept
    obtain ⟨v, kept, last⟩ := ih kept
    refine ⟨v, kept, ?_⟩
    rw [Instance.answers]
    rcases run with ⟨values, run⟩ | ⟨e, run⟩ <;> rw [run] <;> exact last

end

end WasmBuilder.Wasm
