import WasmBuilder.Proofs.Expr.Depth
import WasmBuilder.Proofs.Meaning.Steps
import WasmBuilder.Proofs.Meaning.Variables

/-!
Code of well-typed expressions does what the expressions mean.
-/

set_option autoImplicit false

namespace WasmBuilder.Meaning

open Lower (Layout Tables Codes StatementCode SequenceCode NodeCode CodeWithin)
open Wasm (Env Instr)

variable {v : Setting} {l : Layout} {K : Tables} {Γ : Surroundings} {e : Env}

def Performs (v : Setting) (l : Layout) (K : Tables) (Γ : Surroundings) (e : Env) (depth : Nat) :
    Prop :=
  ∀ (id : ExprId) (code : List Instr) (ts : List NumType), CodeWithin l K depth id code →
    v.WellTyped id → v.arena.Shallow depth id → v.Leaves id ts →
    Runs v l K Γ e [] code (Γ.evalWithin depth id) ts.length

structure Sound (v : Setting) (depth : Nat) (id : ExprId) : Prop where
  typed : v.WellTyped id
  shallow : v.arena.Shallow depth id

theorem sequence_false (eval : ExprId → EvalM (List Value)) (items : List ExprId) :
    Surroundings.sequence eval false items = Surroundings.statements eval items := by
  induction items with
  | nil => rfl
  | cons id rest ih =>
    cases rest with
    | nil => rfl
    | cons next rest => exact congrArg (fun later => eval id >>= fun _ => later) ih

theorem length_part {α : Type} {all : List α} {offset width : Nat}
    (fits : offset + width ≤ all.length) : ((all.drop offset).take width).length = width := by
  rw [List.length_take, List.length_drop]
  omega

namespace Runs

theorem hasValue_eq (runnable : Runnable v l K Γ e) {id : ExprId} {ts : List NumType}
    (leaves : v.Leaves id ts) : Γ.hasValue id = !ts.isEmpty := by
  unfold Surroundings.hasValue
  rw [runnable.arena, leaves]

theorem evalWithin_eq (runnable : Runnable v l K Γ e) {depth : Nat} {id : ExprId} {node : Node}
    (shallow : v.arena.Shallow depth id) (here : v.arena.node id = .ok node) :
    ∃ less, depth = less + 1 ∧ Γ.evalWithin depth id = Γ.node (Γ.evalWithin less) id node := by
  cases depth with
  | zero => exact shallow.elim
  | succ less =>
    refine ⟨less, rfl, ?_⟩
    rw [Surroundings.evalWithin, runnable.arena, here]

section
variable {depth : Nat} (each : Performs v l K Γ e depth)

include each

/-- Operands leave their values one after the other. -/
theorem operands {ids : List ExprId} {code : List Instr} {ts : List NumType}
    (codes : Codes (CodeWithin l K depth) ids code) (sound : ∀ id ∈ ids, Sound v depth id)
    (slots : Arena.concatSlots v.arena.slots ids = .ok ts) :
    Runs v l K Γ e [] code (Surroundings.operands (Γ.evalWithin depth) ids) ts.length := by
  induction codes generalizing ts with
  | nil =>
    cases slots
    exact .nil rfl
  | @cons id rest code others first _ ih =>
    obtain ⟨us, vs, head, tail, rfl⟩ := Arena.concatSlots_cons_eq_ok_iff.1 slots
    obtain ⟨typed, shallow⟩ := sound id List.mem_cons_self
    have later := ih (fun x mem => sound x (List.mem_cons_of_mem id mem)) tail
    refine Runs.bind (each id code us first typed shallow head) fun value length => ?_
    rw [List.nil_append, List.length_append]
    exact later.above length

theorem statement {id : ExprId} {code others : List Instr} {meant : EvalM (List Value)} {count : Nat}
    (laid : v.Laid l) (lowered : StatementCode l (CodeWithin l K depth) id code)
    (sound : Sound v depth id) (rest : Runs v l K Γ e [] others meant count) :
    Runs v l K Γ e [] (code ++ others) (Γ.evalWithin depth id >>= fun _ => meant) count := by
  cases lowered with
  | @mk code ts value slots =>
    rw [laid.arena] at slots
    rw [List.append_assoc]
    refine Runs.bind (each id code ts value sound.typed sound.shallow slots) fun result length => ?_
    exact drops length rest

theorem statements {ids : List ExprId} {code : List Instr} (laid : v.Laid l)
    (lowered : Codes (StatementCode l (CodeWithin l K depth)) ids code)
    (sound : ∀ id ∈ ids, Sound v depth id) :
    Runs v l K Γ e [] code (Surroundings.statements (Γ.evalWithin depth) ids) 0 := by
  induction lowered with
  | nil => exact .nil rfl
  | @cons id rest code others first _ ih =>
    have later := ih fun x mem => sound x (List.mem_cons_of_mem id mem)
    exact statement each laid first (sound id List.mem_cons_self) later

theorem concat {ids : List ExprId} {last : ExprId} {code final : List Instr} {ts : List NumType}
    (laid : v.Laid l) (others : Codes (StatementCode l (CodeWithin l K depth)) ids code)
    (result : CodeWithin l K depth last final) (leaves : v.Leaves last ts)
    (sound : ∀ id ∈ ids ++ [last], Sound v depth id) :
    Runs v l K Γ e [] (code ++ final) (Surroundings.sequence (Γ.evalWithin depth) true (ids ++ [last]))
      ts.length := by
  induction others with
  | nil =>
    obtain ⟨typed, shallow⟩ := sound last List.mem_cons_self
    have value := each last final ts result typed shallow leaves
    rw [← List.append_nil ([] ++ final)]
    exact value.bind fun value length => .nil length
  | @cons id rest code others first _ ih =>
    have later := ih fun x mem => sound x (List.mem_cons_of_mem id mem)
    have run := statement each laid first (sound id List.mem_cons_self) later
    rw [List.append_assoc]
    cases rest <;> exact run

theorem sequence {id : ExprId} {items : List ExprId} {code : List Instr} {ts : List NumType}
    (runnable : Runnable v l K Γ e)
    (lowered : SequenceCode l (CodeWithin l K depth) (!ts.isEmpty) items code)
    (leaves : v.Leaves id ts) (ends : v.EndsAs id items)
    (sound : ∀ item ∈ items, Sound v depth item) :
    Runs v l K Γ e [] code (Surroundings.sequence (Γ.evalWithin depth) (Γ.hasValue id) items)
      ts.length := by
  rw [hasValue_eq runnable leaves]
  by_cases none : ts = []
  · subst none
    cases lowered with
    | statements all =>
      rw [List.isEmpty_nil, Bool.not_true, sequence_false]
      exact statements each runnable.laid all sound
  · have value : (!ts.isEmpty) = true := by simpa using none
    rw [value] at lowered ⊢
    cases lowered with
    | empty =>
      obtain ⟨last, final, _⟩ := ends ts leaves none
      cases final
    | @value items ids last code final split others result =>
      subst split
      exact concat each runnable.laid others result (ends.last leaves none rfl) sound

/-- Code of a node does what the node means. -/
theorem node {id : ExprId} {node : Node} {code : List Instr} {ts : List NumType}
    (runnable : Runnable v l K Γ e) (lowered : NodeCode l K (CodeWithin l K depth) id node code)
    (here : v.arena.node id = .ok node) (leaves : v.Leaves id ts) (consistent : v.Consistent id node)
    (sound : ∀ child ∈ node.children, Sound v depth child) :
    Runs v l K Γ e [] code (Γ.node (Γ.evalWithin depth) id node) ts.length := by
  have laid := runnable.laid
  have slots := Arena.nodeSlots_of_slots here leaves
  have operand {child : ExprId} {code : List Instr} {us : List NumType}
      (mem : child ∈ node.children) (value : CodeWithin l K depth child code)
      (leaves : v.Leaves child us) :
      Runs v l K Γ e [] code (Γ.evalWithin depth child) us.length :=
    each child code us value (sound child mem).typed (sound child mem).shallow leaves
  cases lowered with
  | const value =>
    cases slots
    exact .const value
  | @localGet slot base shape at_ =>
    cases slots
    have reads := runs_localGets runnable at_ consistent
    rw [List.map_map] at reads
    rwa [← Shape.width_eq]
  | @localSet slot base shape value code at_ stored =>
    cases slots
    obtain ⟨holds, same⟩ := consistent
    refine (operand List.mem_cons_self stored same).bind fun numbers length => ?_
    have writes := runs_localSets runnable at_ holds (length.trans (Shape.width_eq shape).symm)
    rwa [← List.map_reverse, List.map_map] at writes
  | @globalGet global base shape at_ =>
    cases slots
    have reads := runs_globalGets runnable at_ consistent
    rw [List.map_map] at reads
    rwa [← Shape.width_eq]
  | @globalSet global base shape value code at_ stored =>
    cases slots
    obtain ⟨holds, same⟩ := consistent
    refine (operand List.mem_cons_self stored same).bind fun numbers length => ?_
    have writes := runs_globalSets runnable at_ holds (length.trans (Shape.width_eq shape).symm)
    rwa [← List.map_reverse, List.map_map] at writes
  | @binary op left right code other first second =>
    cases slots
    rw [List.append_assoc]
    refine (operand List.mem_cons_self first consistent.1).bind fun a length => ?_
    refine (operand (List.mem_cons_of_mem left List.mem_cons_self) second consistent.2).bind
      fun b length' => ?_
    obtain ⟨x, rfl⟩ := List.length_eq_one_iff.1 length
    obtain ⟨y, rfl⟩ := List.length_eq_one_iff.1 length'
    exact .binary op x y
  | @unary op value code stored =>
    cases slots
    refine (operand List.mem_cons_self stored consistent).bind fun a length => ?_
    obtain ⟨x, rfl⟩ := List.length_eq_one_iff.1 length
    exact .unary op x
  | @call func index args signature code values at_ =>
    cases slots
    obtain ⟨declared, fits⟩ := consistent
    refine (operands each values sound fits).bind fun numbers length => ?_
    exact .call runnable declared (Lower.funcIndex_eq_ok_iff.1 at_) length
  | @callIndirect index args signature type code slot values chosen listed =>
    cases slots
    obtain ⟨hasTable, fits, selects⟩ := consistent
    rw [List.append_assoc]
    refine (operands each values (fun x mem => sound x (List.mem_append_left [index] mem)) fits).bind
      fun numbers length => ?_
    refine (operand (List.mem_append_right args List.mem_cons_self) chosen selects).bind
      fun one length' => ?_
    obtain ⟨x, rfl⟩ := List.length_eq_one_iff.1 length'
    exact .callIndirect runnable hasTable listed length
  | @block items shape us code known body =>
    rw [laid.arena] at known
    cases leaves.symm.trans known
    exact sequence each runnable body leaves consistent sound
  | @group items code values => exact operands each values sound slots
  | @extractLocal composite index offset width slot base shape read at_ =>
    rw [laid.arena] at read
    obtain ⟨all, whole, fits⟩ := consistent
    obtain ⟨us, found, _, rfl⟩ := Arena.nodeSlots_extract_eq_ok_iff.1 slots
    cases whole.symm.trans found
    obtain ⟨typed, shallow⟩ := sound composite List.mem_cons_self
    obtain ⟨less, rfl, meaning⟩ := evalWithin_eq runnable shallow read
    cases typed with
    | mk there known holds =>
      cases read.symm.trans there
      cases Arena.nodeSlots_of_slots read whole
      have count := length_part fits
      have reads := runs_localSlice runnable at_ holds (Shape.width_eq shape ▸ fits)
      rw [Surroundings.node, meaning, count]
      exact reads
  | @extractGlobal composite index offset width global base shape read at_ =>
    rw [laid.arena] at read
    obtain ⟨all, whole, fits⟩ := consistent
    obtain ⟨us, found, _, rfl⟩ := Arena.nodeSlots_extract_eq_ok_iff.1 slots
    cases whole.symm.trans found
    obtain ⟨typed, shallow⟩ := sound composite List.mem_cons_self
    obtain ⟨less, rfl, meaning⟩ := evalWithin_eq runnable shallow read
    cases typed with
    | mk there known holds =>
      cases read.symm.trans there
      cases Arena.nodeSlots_of_slots read whole
      have count := length_part fits
      have reads := runs_globalSlice runnable at_ holds (Shape.width_eq shape ▸ fits)
      rw [Surroundings.node, meaning, count]
      exact reads
  | @extract composite index offset width all code spilled _ _ known fits value locals =>
    rw [laid.arena] at known
    obtain ⟨us, found, _, rfl⟩ := Arena.nodeSlots_extract_eq_ok_iff.1 slots
    cases known.symm.trans found
    rw [List.append_assoc]
    refine (operand List.mem_cons_self value known).bind fun numbers length => ?_
    rw [length_part fits]
    exact runs_spill runnable locals length fits
  | @chooseBoth cond thenItems elseItems shape us code first second type known decided typed yes no =>
    rw [laid.arena] at known
    cases leaves.symm.trans known
    obtain ⟨condition, ends, ends'⟩ := consistent
    refine (operand List.mem_cons_self decided condition).bind fun one length => ?_
    obtain ⟨c, rfl⟩ := List.length_eq_one_iff.1 length
    refine .ifElse runnable typed ?_ ?_ c
    · exact sequence each runnable yes leaves ends fun x mem =>
        sound x (List.mem_append_left elseItems (List.mem_cons_of_mem cond mem))
    · exact sequence each runnable no leaves ends' fun x mem =>
        sound x (List.mem_append_right (cond :: thenItems) mem)
  | @chooseOne cond thenItems shape code first known decided yes =>
    rw [laid.arena] at known
    cases leaves.symm.trans known
    obtain ⟨condition, ends, _⟩ := consistent
    refine (operand List.mem_cons_self decided condition).bind fun one length => ?_
    obtain ⟨c, rfl⟩ := List.length_eq_one_iff.1 length
    have arm : SequenceCode l (CodeWithin l K depth) (!([] : List NumType).isEmpty) thenItems first :=
      yes
    refine .ifThen ?_ c
    exact sequence each runnable arm leaves ends fun x mem =>
      sound x (List.mem_append_left [] (List.mem_cons_of_mem cond mem))
  | @loop init step body cond initCode condCode bodyCode stepCode before test inside behind =>
    cases slots
    have part {ids : List ExprId} (among : ∀ x ∈ ids, x ∈ init ++ cond :: body ++ step) :
        ∀ x ∈ ids, Sound v depth x := fun x mem => sound x (among x mem)
    have started := statements each laid before (part (by simp +contextual))
    have tested := operand (by simp [Node.children]) test consistent
    have first := statements each laid inside (part (by simp +contextual))
    have second := statements each laid behind (part (by simp +contextual))
    have round : Runs v l K Γ e [] (bodyCode ++ stepCode)
        (Surroundings.statements (Γ.evalWithin depth) body >>= fun _ =>
          Surroundings.statements (Γ.evalWithin depth) step) 0 := by
      refine first.bind fun value none => ?_
      rw [List.length_eq_zero_iff.1 none]
      exact second
    have around := tested.loop round
    refine started.bind fun value none => ?_
    rw [List.length_eq_zero_iff.1 none]
    simp only [runnable.rounds, ← List.append_assoc] at around
    exact around
  | leave =>
    cases slots
    have none : ([] : List Value).length = v.results.length := congrArg List.length consistent.symm
    exact .ret none
  | @ret value code result =>
    cases slots
    refine (operand List.mem_cons_self result consistent).bind fun numbers length => ?_
    exact .ret length
  | @load type addr offset code place =>
    cases slots
    obtain ⟨_, address, _⟩ := consistent
    refine (operand List.mem_cons_self place address).bind fun one length => ?_
    obtain ⟨x, rfl⟩ := List.length_eq_one_iff.1 length
    exact .load runnable type offset x
  | @store type addr value offset code other place stored =>
    cases slots
    obtain ⟨_, address, number, _⟩ := consistent
    rw [List.append_assoc]
    refine (operand List.mem_cons_self place address).bind fun one length => ?_
    refine (operand (List.mem_cons_of_mem addr List.mem_cons_self) stored number).bind
      fun other length' => ?_
    obtain ⟨x, rfl⟩ := List.length_eq_one_iff.1 length
    obtain ⟨y, rfl⟩ := List.length_eq_one_iff.1 length'
    exact .store runnable type offset x y
  | memorySize =>
    cases slots
    exact .memorySize runnable
  | @memoryGrow delta code amount =>
    cases slots
    obtain ⟨_, number⟩ := consistent
    refine (operand List.mem_cons_self amount number).bind fun one length => ?_
    obtain ⟨x, rfl⟩ := List.length_eq_one_iff.1 length
    exact .memoryGrow runnable x
  | nop =>
    cases slots
    exact .nil rfl

end

end Runs

/-- Code of a well-typed expression does what the expression means, however deep it is nested. -/
theorem performs (runnable : Runnable v l K Γ e) (depth : Nat) : Performs v l K Γ e depth := by
  induction depth with
  | zero => exact fun id code ts lowered => lowered.elim
  | succ depth ih =>
    rintro id code ts ⟨node, read, lowered⟩ (⟨here, _, consistent, operands⟩) shallow leaves
    rw [runnable.laid.arena] at read
    cases read.symm.trans here
    obtain ⟨_, there, below⟩ := shallow
    cases read.symm.trans there
    have meaning : Γ.evalWithin (depth + 1) id = Γ.node (Γ.evalWithin depth) id node := by
      rw [Surroundings.evalWithin, runnable.arena, read]
    rw [meaning]
    exact Runs.node ih runnable lowered read leaves consistent fun child mem =>
      ⟨operands child mem, below child mem⟩

end WasmBuilder.Meaning
