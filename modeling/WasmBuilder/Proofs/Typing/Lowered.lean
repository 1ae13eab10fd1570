import WasmBuilder.Proofs.Typing.Provides
import WasmBuilder.Proofs.Wasm.Effect

/-!
The code of a well-typed expression leaves what the expression leaves.

Slots decide how many values a statement drops, which type a block gets and which scratch locals a
run goes through, while the code itself decides what is pushed. The two agree on every node.
-/

set_option autoImplicit false

namespace WasmBuilder.Setting

open Lower (Layout Tables Codes StatementCode SequenceCode NodeCode CodeWithin)
open Wasm (Effect Instr)

variable {v : Setting} {l : Layout} {K : Tables}

def Effective (v : Setting) (l : Layout) (K : Tables) (sub : ExprId → List Instr → Prop) : Prop :=
  ∀ (id : ExprId) (code : List Instr) (ts : List NumType), sub id code → v.WellTyped id →
    v.Leaves id ts → ∀ c, v.Provided l K c → Effect c code [] (ts.map .num)

section
variable {c : Wasm.Context} {base : Nat} {ts : List NumType} {f : Nat → Instr}

theorem effect_gets {is : List Nat}
    (each : List.Forall₂ (fun i t => Effect c [f i] [] [.num t]) is ts) :
    Effect c (is.map f) [] (ts.map .num) :=
  Effect.gets (List.forall₂_map_right_iff.2 each)

theorem effect_sets {is : List Nat}
    (each : List.Forall₂ (fun i t => Effect c [f i] [.num t] []) is ts) :
    Effect c (is.reverse.map f) (ts.map .num) [] :=
  Effect.sets (List.forall₂_map_right_iff.2 each)

variable (provided : v.Provided l K c)

include provided

theorem effect_localGets (lies : Lower.Lies (v.locals.flatMap Shape.flatten) base ts) :
    Effect c (((List.range ts.length).map (base + ·)).map .localGet) [] (ts.map .num) :=
  effect_gets ((provided.locals_of_lies lies).imp fun _ _ there => .localGet there)

theorem effect_globalGets (lies : Lower.Lies (v.globals.flatMap Shape.flatten) base ts) :
    Effect c (((List.range ts.length).map (base + ·)).map .globalGet) [] (ts.map .num) :=
  effect_gets ((provided.globals_of_lies lies).imp fun _ _ there => .globalGet there)

theorem effect_localSets (lies : Lower.Lies (v.locals.flatMap Shape.flatten) base ts) :
    Effect c (((List.range ts.length).map (base + ·)).reverse.map .localSet) (ts.map .num) [] :=
  effect_sets ((provided.locals_of_lies lies).imp fun _ _ there => .localSet there)

theorem effect_globalSets (lies : Lower.Lies (v.globals.flatMap Shape.flatten) base ts) :
    Effect c (((List.range ts.length).map (base + ·)).reverse.map .globalSet) (ts.map .num) [] :=
  effect_sets ((provided.globals_of_lies lies).imp fun _ _ there => .globalSet there rfl)

end

section
variable {sub : ExprId → List Instr → Prop} (each : v.Effective l K sub) {c : Wasm.Context}
  (provided : v.Provided l K c)

include each provided

theorem effect_codes {ids : List ExprId} {code : List Instr} {ts : List NumType}
    (codes : Codes sub ids code) (typed : ∀ id ∈ ids, v.WellTyped id)
    (slots : Arena.concatSlots v.arena.slots ids = .ok ts) : Effect c code [] (ts.map .num) := by
  induction codes generalizing ts with
  | nil =>
    cases slots
    exact .nil []
  | @cons id rest code others first _ ih =>
    obtain ⟨us, vs, head, tail, rfl⟩ := Arena.concatSlots_cons_eq_ok_iff.1 slots
    rw [List.map_append]
    refine Effect.beside ?_ (ih (fun x mem => typed x (List.mem_cons_of_mem id mem)) tail)
    exact each id code us first (typed id List.mem_cons_self) head c provided

variable (laid : v.Laid l)

include laid

theorem effect_statement {id : ExprId} {code : List Instr} (lowered : StatementCode l sub id code)
    (typed : v.WellTyped id) : Effect c code [] [] := by
  cases lowered with
  | @mk code ts value slots =>
    rw [laid.arena] at slots
    have leaves := each id code ts value typed slots c provided
    have dropped := Effect.drops (c := c) (ts.map .num)
    rw [List.map_map] at dropped
    exact leaves.append dropped

theorem effect_statements {ids : List ExprId} {code : List Instr}
    (lowered : Codes (StatementCode l sub) ids code) (typed : ∀ id ∈ ids, v.WellTyped id) :
    Effect c code [] [] := by
  induction lowered with
  | nil => exact .nil []
  | @cons id rest code others first _ ih =>
    refine Effect.append ?_ (ih fun x mem => typed x (List.mem_cons_of_mem id mem))
    exact effect_statement each provided laid first (typed id List.mem_cons_self)

/-- A block or an arm leaves what its last item leaves, if it has a value. -/
theorem effect_sequence {id : ExprId} {items : List ExprId} {code : List Instr} {ts : List NumType}
    (lowered : SequenceCode l sub (!ts.isEmpty) items code) (leaves : v.Leaves id ts)
    (ends : v.EndsAs id items) (typed : ∀ item ∈ items, v.WellTyped item) :
    Effect c code [] (ts.map .num) := by
  by_cases none : ts = []
  · subst none
    cases lowered with
    | statements all => exact effect_statements each provided laid all typed
  · have value : (!ts.isEmpty) = true := by simpa using none
    rw [value] at lowered
    cases lowered with
    | empty =>
      obtain ⟨last, final, _⟩ := ends ts leaves none
      cases final
    | @value items ids last code final split others result =>
      subst split
      have before := effect_statements each provided laid others fun x mem =>
        typed x (List.mem_append_left [last] mem)
      have end_ : v.WellTyped last := typed last (List.mem_append_right ids List.mem_cons_self)
      exact before.append (each last final ts result end_ (ends.last leaves none rfl) c provided)

theorem effect_node {id : ExprId} {node : Node} {code : List Instr} {ts : List NumType}
    (lowered : NodeCode l K sub id node code) (here : v.arena.node id = .ok node)
    (leaves : v.Leaves id ts) (consistent : v.Consistent id node)
    (operands : ∀ child ∈ node.children, v.WellTyped child) : Effect c code [] (ts.map .num) := by
  have slots := Arena.nodeSlots_of_slots here leaves
  have operand {child : ExprId} {code : List Instr} {us : List NumType} (mem : child ∈ node.children)
      (value : sub child code) (leaves : v.Leaves child us) : Effect c code [] (us.map .num) :=
    each child code us value (operands child mem) leaves c provided
  cases lowered with
  | const value =>
    cases slots
    exact .const value
  | @localGet slot base shape at_ =>
    cases slots
    have reads := effect_localGets provided (laid.local_lies at_ consistent)
    rwa [List.map_map, ← Shape.width_eq] at reads
  | @localSet slot base shape value code at_ stored =>
    cases slots
    obtain ⟨holds, same⟩ := consistent
    have writes := effect_localSets provided (laid.local_lies at_ holds)
    rw [← List.map_reverse, List.map_map, ← Shape.width_eq] at writes
    exact (operand List.mem_cons_self stored same).append writes
  | @globalGet global base shape at_ =>
    cases slots
    have reads := effect_globalGets provided (laid.global_lies at_ consistent)
    rwa [List.map_map, ← Shape.width_eq] at reads
  | @globalSet global base shape value code at_ stored =>
    cases slots
    obtain ⟨holds, same⟩ := consistent
    have writes := effect_globalSets provided (laid.global_lies at_ holds)
    rw [← List.map_reverse, List.map_map, ← Shape.width_eq] at writes
    exact (operand List.mem_cons_self stored same).append writes
  | @binary op left right code other first second =>
    cases slots
    have one := operand List.mem_cons_self first consistent.1
    have two := operand (List.mem_cons_of_mem left List.mem_cons_self) second consistent.2
    exact (one.beside two).append (.binary op)
  | @unary op value code stored =>
    cases slots
    exact (operand List.mem_cons_self stored consistent).append (.unary op)
  | @call func index args signature code values at_ =>
    cases slots
    obtain ⟨declared, fits⟩ := consistent
    obtain ⟨i, there, typed⟩ := provided.funcs func signature declared
    cases there.symm.trans (Lower.funcIndex_eq_ok_iff.1 at_)
    exact (effect_codes each provided values operands fits).append (.call typed)
  | @callIndirect index args signature type code slot values chosen listed =>
    cases slots
    obtain ⟨hasTable, fits, selects⟩ := consistent
    obtain ⟨t, table, element, address⟩ := provided.table hasTable
    have before := effect_codes each provided values
      (fun x mem => operands x (List.mem_append_left [index] mem)) fits
    have selected := operand (List.mem_append_right args List.mem_cons_self) chosen selects
    have typed := provided.types type signature listed
    exact (before.beside selected).append (.callIndirect typed table element address)
  | @block items shape us code known body =>
    rw [laid.arena] at known
    cases leaves.symm.trans known
    exact effect_sequence each provided laid body leaves consistent operands
  | @group items code values => exact effect_codes each provided values operands slots
  | @extractLocal composite index offset width slot base shape read at_ =>
    rw [laid.arena] at read
    obtain ⟨all, whole, fits⟩ := consistent
    obtain ⟨us, found, _, rfl⟩ := Arena.nodeSlots_extract_eq_ok_iff.1 slots
    cases whole.symm.trans found
    cases operands composite List.mem_cons_self with
    | mk there known holds =>
      cases read.symm.trans there
      cases Arena.nodeSlots_of_slots read whole
      have lies := laid.local_lies at_ holds
      rw [lies.slice_eq fits laid.localWords]
      exact effect_localGets provided (lies.slice fits)
  | @extractGlobal composite index offset width global base shape read at_ =>
    rw [laid.arena] at read
    obtain ⟨all, whole, fits⟩ := consistent
    obtain ⟨us, found, _, rfl⟩ := Arena.nodeSlots_extract_eq_ok_iff.1 slots
    cases whole.symm.trans found
    cases operands composite List.mem_cons_self with
    | mk there known holds =>
      cases read.symm.trans there
      cases Arena.nodeSlots_of_slots read whole
      have lies := laid.global_lies at_ holds
      rw [lies.slice_eq fits laid.globalWords]
      exact effect_globalGets provided (lies.slice fits)
  | @extract composite index offset width all code spilled _ _ known fits value locals =>
    rw [laid.arena] at known
    obtain ⟨us, found, _, rfl⟩ := Arena.nodeSlots_extract_eq_ok_iff.1 slots
    cases known.symm.trans found
    have at_ := provided.locals_of_scratch laid.scratchBase locals.getElem?_type
    -- the whole run goes into scratch locals, and the part comes back
    have stores : Effect c _ (all.map .num) [] :=
      effect_sets (at_.imp fun i t there => .localSet there)
    have loads : Effect c _ [] _ := effect_gets ((List.forall₂_take width
      (List.forall₂_drop offset at_)).imp fun i t there => .localGet there)
    exact ((operand List.mem_cons_self value known).append stores).append loads
  | @chooseBoth cond thenItems elseItems shape us code first second type known decided typed yes no =>
    rw [laid.arena] at known
    cases leaves.symm.trans known
    obtain ⟨condition, ends, ends'⟩ := consistent
    refine (operand List.mem_cons_self decided condition).append ?_
    have inner := provided.withLabel (ts.map .num)
    refine .ifElse (provided.blockType typed) ?_ ?_
    · exact effect_sequence each inner laid yes leaves ends fun x mem =>
        operands x (List.mem_append_left elseItems (List.mem_cons_of_mem cond mem))
    · exact effect_sequence each inner laid no leaves ends' fun x mem =>
        operands x (List.mem_append_right (cond :: thenItems) mem)
  | @chooseOne cond thenItems shape code first known decided yes =>
    rw [laid.arena] at known
    cases leaves.symm.trans known
    obtain ⟨condition, ends, _⟩ := consistent
    refine (operand List.mem_cons_self decided condition).append (.ifThen rfl ?_)
    have arm : SequenceCode l sub (!([] : List NumType).isEmpty) thenItems first := yes
    exact effect_sequence each (provided.withLabel []) laid arm leaves ends fun x mem =>
      operands x (List.mem_append_left [] (List.mem_cons_of_mem cond mem))
  | @loop init step body cond initCode condCode bodyCode stepCode before test inside behind =>
    cases slots
    have part {ids : List ExprId} (sub' : ∀ x ∈ ids, x ∈ init ++ cond :: body ++ step) :
        ∀ x ∈ ids, v.WellTyped x := fun x mem => operands x (sub' x mem)
    have started := effect_statements each provided laid before (part (by simp +contextual))
    -- within the loop there are two more labels, and neither passes anything on
    have inner := (provided.withLabel []).withLabel []
    have tested : Effect ((c.withLabel []).withLabel []) condCode [] [.i32] :=
      each cond condCode [.i32] test (operands cond (by simp [Node.children])) consistent _ inner
    have second : ((c.withLabel []).withLabel []).labels[1]? = some [] := rfl
    have leaving := tested.append ((Effect.unary (.eqz .w32)).append (.brIf second))
    have around := ((leaving.append (effect_statements each inner laid inside
      (part (by simp +contextual)))).append (effect_statements each inner laid behind
      (part (by simp +contextual)))).append (Effect.br (l := 0) rfl)
    refine started.append (.block rfl (.loop rfl ?_))
    simpa using around
  | leave =>
    cases slots
    have none : c.results = [] := by rw [provided.results, consistent, List.map_nil]
    exact none ▸ Effect.ret []
  | @ret value code result =>
    cases slots
    have all : Effect c code [] c.results :=
      provided.results ▸ operand List.mem_cons_self result consistent
    exact all.append (.ret [])
  | @load type addr offset code place =>
    cases slots
    obtain ⟨hasMemory, address, small⟩ := consistent
    obtain ⟨t, memory, wide⟩ := provided.memory hasMemory
    exact (operand List.mem_cons_self place address).append (.load memory wide small)
  | @store type addr value offset code other place stored =>
    cases slots
    obtain ⟨hasMemory, address, number, small⟩ := consistent
    obtain ⟨t, memory, wide⟩ := provided.memory hasMemory
    have one := operand List.mem_cons_self place address
    have two := operand (List.mem_cons_of_mem addr List.mem_cons_self) stored number
    exact (one.beside two).append (.store memory wide small)
  | memorySize =>
    cases slots
    obtain ⟨t, memory, wide⟩ := provided.memory consistent
    exact .memorySize memory wide
  | @memoryGrow delta code amount =>
    cases slots
    obtain ⟨hasMemory, number⟩ := consistent
    obtain ⟨t, memory, wide⟩ := provided.memory hasMemory
    exact (operand List.mem_cons_self amount number).append (.memoryGrow memory wide)
  | nop =>
    cases slots
    exact .nil []

end

/-- Code of well-typed expressions takes nothing and leaves the slots of the expression, at every
depth of nesting. -/
theorem effective_codeWithin (laid : v.Laid l) (depth : Nat) :
    v.Effective l K (CodeWithin l K depth) := by
  induction depth with
  | zero => exact fun id code ts lowered => lowered.elim
  | succ depth ih =>
    rintro id code ts ⟨node, read, lowered⟩ (⟨here, _, consistent, operands⟩) leaves c provided
    rw [laid.arena] at read
    cases read.symm.trans here
    exact effect_node ih provided laid lowered here leaves consistent operands

/-- The code of a body ends with the results of its function, or never. -/
theorem effect_body {c : Wasm.Context} {body : List ExprId} {code : List Instr} (laid : v.Laid l)
    (provided : v.Provided l K c) (typed : v.BodyTyped body)
    (lowered : Codes (StatementCode l (Lower.ExprCode l K)) body code) :
    Effect c code [] (v.results.map .num) := by
  have each := effective_codeWithin (K := K) laid l.arena.pathBound
  -- with results the last statement returns, and nothing is known behind it
  by_cases none : v.results = []
  · rw [none]
    exact effect_statements each provided laid lowered typed.statements
  · obtain ⟨last, value, final, returns⟩ := typed.returns none
    obtain ⟨front, rfl⟩ := List.getLast?_eq_some_iff.1 final
    obtain ⟨one, two, rfl, before, behind⟩ := lowered.append
    refine (effect_statements each provided laid before fun x mem =>
      typed.statements x (List.mem_append_left [last] mem)).append ?_
    have well : v.WellTyped last :=
      typed.statements last (List.mem_append_right front List.mem_cons_self)
    cases behind with
    | cons statement nothing =>
      cases nothing
      cases statement with
      | mk expr slots =>
        obtain ⟨node, read, code⟩ := expr
        rw [laid.arena] at read slots
        cases read.symm.trans returns
        cases Arena.nodeSlots_of_slots read slots
        cases code with
        | ret result =>
          cases well with
          | mk there _ consistent operands =>
            cases returns.symm.trans there
            have all : Effect c _ [] c.results := provided.results ▸ effective_codeWithin laid _
              value _ _ result (operands value List.mem_cons_self) consistent c provided
            rw [List.map_nil, List.append_nil, List.append_nil]
            exact all.append (.ret _)

end WasmBuilder.Setting
