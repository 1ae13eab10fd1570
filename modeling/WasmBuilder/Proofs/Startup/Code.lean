import WasmBuilder.Proofs.Lowering.Module
import WasmBuilder.Proofs.Startup.Contributions
import WasmBuilder.Proofs.Wasm.Confined

/-!
Code that control falls through.

The code of an expression depends on the code of its operands alone. So where no expression uses a
return, control falls through the code of every expression that is none. Statements that stand for
contributions have the code of each of them, in order, as far as the first result, whose code ends in a
return. So to run this code is to carry out what is due.
-/

set_option autoImplicit false

namespace WasmBuilder.Lower

open Wasm (Confined Instr)

section
variable {l : Layout} {K : Tables} {sub other : ExprId → List Instr → Prop} {code : List Instr}

theorem Codes.imp {ids : List ExprId} (codes : Codes sub ids code)
    (each : ∀ id ∈ ids, ∀ code, sub id code → other id code) : Codes other ids code := by
  induction codes with
  | nil => exact .nil
  | @cons id rest _ _ first _ ih =>
    exact .cons (each id List.mem_cons_self _ first)
      (ih fun id mem => each id (List.mem_cons_of_mem _ mem))

theorem Codes.concat {first second : List ExprId} {more : List Instr} (one : Codes sub first code)
    (two : Codes sub second more) : Codes sub (first ++ second) (code ++ more) := by
  induction one with
  | nil => exact two
  | cons head _ ih =>
    rw [List.append_assoc]
    exact .cons head ih

theorem StatementCode.imp {id : ExprId} (lowered : StatementCode l sub id code)
    (each : ∀ code, sub id code → other id code) : StatementCode l other id code := by
  cases lowered with
  | mk value slots => exact .mk (each _ value) slots

theorem statements_imp {ids : List ExprId} (codes : Codes (StatementCode l sub) ids code)
    (each : ∀ id ∈ ids, ∀ code, sub id code → other id code) :
    Codes (StatementCode l other) ids code :=
  codes.imp fun id mem _ lowered => lowered.imp (each id mem)

theorem SequenceCode.imp {value : Bool} {items : List ExprId}
    (lowered : SequenceCode l sub value items code)
    (each : ∀ id ∈ items, ∀ code, sub id code → other id code) :
    SequenceCode l other value items code := by
  cases lowered with
  | statements all => exact .statements (statements_imp all each)
  | empty => exact .empty
  | value split others result =>
    subst split
    exact .value rfl (statements_imp others fun id mem => each id (List.mem_append_left _ mem))
      (each _ (by simp) _ result)

/-- Code of a node depends on its operands alone. -/
theorem NodeCode.imp {id : ExprId} {node : Node} (lowered : NodeCode l K sub id node code)
    (each : ∀ child ∈ node.children, ∀ code, sub child code → other child code) :
    NodeCode l K other id node code := by
  cases lowered with
  | const v => exact .const v
  | localGet at_ => exact .localGet at_
  | localSet at_ operand => exact .localSet at_ (each _ List.mem_cons_self _ operand)
  | globalGet at_ => exact .globalGet at_
  | globalSet at_ operand => exact .globalSet at_ (each _ List.mem_cons_self _ operand)
  | binary first second =>
    exact .binary (each _ (by simp [Node.children]) _ first) (each _ (by simp [Node.children]) _ second)
  | unary value => exact .unary (each _ List.mem_cons_self _ value)
  | call operands at_ => exact .call (operands.imp each) at_
  | callIndirect operands chosen listed =>
    exact .callIndirect (operands.imp fun id mem => each id (List.mem_append_left _ mem))
      (each _ (by simp [Node.children]) _ chosen) listed
  | block slots body => exact .block slots (body.imp each)
  | group operands => exact .group (operands.imp each)
  -- a variable whose field is read is no operand of the code
  | extractLocal read at_ => exact .extractLocal read at_
  | extractGlobal read at_ => exact .extractGlobal read at_
  | extract noLocal noGlobal slots fits value locals =>
    exact .extract noLocal noGlobal slots fits (each _ List.mem_cons_self _ value) locals
  | chooseBoth slots decided leaves yes no =>
    exact .chooseBoth slots (each _ (by simp [Node.children]) _ decided) leaves
      (yes.imp fun id mem => each id (by simp [Node.children, mem]))
      (no.imp fun id mem => each id (by simp [Node.children, mem]))
  | chooseOne slots decided yes =>
    exact .chooseOne slots (each _ (by simp [Node.children]) _ decided)
      (yes.imp fun id mem => each id (by simp [Node.children, mem]))
  | loop before test inside behind =>
    exact .loop (statements_imp before fun id mem => each id (by simp [Node.children, mem]))
      (each _ (by simp [Node.children]) _ test)
      (statements_imp inside fun id mem => each id (by simp [Node.children, mem]))
      (statements_imp behind fun id mem => each id (by simp [Node.children, mem]))
  | leave => exact .leave
  | ret result => exact .ret (each _ List.mem_cons_self _ result)
  | load place => exact .load (each _ List.mem_cons_self _ place)
  | store place stored =>
    exact .store (each _ (by simp [Node.children]) _ place) (each _ (by simp [Node.children]) _ stored)
  | memorySize => exact .memorySize
  | memoryGrow amount => exact .memoryGrow (each _ List.mem_cons_self _ amount)
  | nop => exact .nop

/-- Where operands stand in front of what uses them, it does not matter how deep lowering looks, so
long as it looks deep enough. -/
theorem CodeWithin.deepen (ordered : l.arena.Ordered) {depth deep : Nat} {id : ExprId}
    (coded : CodeWithin l K depth id code) (enough : id < deep) : CodeWithin l K deep id code := by
  induction deep generalizing depth id code with
  | zero => exact absurd enough (Nat.not_lt_zero id)
  | succ deep ih =>
    cases depth with
    | zero => cases coded
    | succ depth =>
      obtain ⟨node, here, coded⟩ := coded
      refine ⟨node, here, coded.imp fun child mem code coded => ih coded ?_⟩
      obtain ⟨_, entry⟩ := Arena.node_eq_ok_iff.1 here
      exact Nat.lt_of_lt_of_le (ordered id _ entry child mem) (Nat.le_of_lt_succ enough)

theorem exprCode_iff (ordered : l.arena.Ordered) {id : ExprId} {node : Node}
    (here : l.arena.node id = .ok node) :
    ExprCode l K id code ↔ NodeCode l K (ExprCode l K) id node code := by
  have old : id < l.arena.size := Arena.lt_size_of_node here
  have earlier : ∀ child ∈ node.children, child < id := by
    obtain ⟨_, entry⟩ := Arena.node_eq_ok_iff.1 here
    exact ordered id _ entry
  constructor
  · rintro ⟨_, here', coded⟩
    cases here.symm.trans here'
    refine coded.imp fun child mem code coded => coded.deepen ordered ?_
    exact Nat.lt_of_lt_of_le (earlier child mem) (Nat.le_succ_of_le (Nat.le_of_lt old))
  · intro coded
    refine ⟨node, here, coded.imp fun child mem code coded => coded.deepen ordered ?_⟩
    exact Nat.lt_trans (earlier child mem) old

end

section
variable {l : Layout} {K : Tables} {sub : ExprId → List Instr → Prop} {code : List Instr}

theorem confined_codes {ids : List ExprId} (codes : Codes sub ids code)
    (each : ∀ id ∈ ids, ∀ code, sub id code → Confined 0 code) : Confined 0 code := by
  induction codes with
  | nil => exact .nil
  | @cons id _ _ _ first _ ih =>
    exact (each id List.mem_cons_self _ first).append
      (ih fun id mem => each id (List.mem_cons_of_mem _ mem))

theorem confined_statement {id : ExprId} (lowered : StatementCode l sub id code)
    (each : ∀ code, sub id code → Confined 0 code) : Confined 0 code := by
  cases lowered with
  | mk value slots => exact (each _ value).append (.map (fun _ => .drop) _)

theorem confined_statements {ids : List ExprId} (codes : Codes (StatementCode l sub) ids code)
    (each : ∀ id ∈ ids, ∀ code, sub id code → Confined 0 code) : Confined 0 code :=
  confined_codes codes fun id mem _ lowered => confined_statement lowered (each id mem)

theorem confined_sequence {value : Bool} {items : List ExprId}
    (lowered : SequenceCode l sub value items code)
    (each : ∀ id ∈ items, ∀ code, sub id code → Confined 0 code) : Confined 0 code := by
  cases lowered with
  | statements all => exact confined_statements all each
  | empty => exact .nil
  | value split others result =>
    subst split
    exact (confined_statements others fun id mem => each id (List.mem_append_left _ mem)).append
      (each _ (by simp) _ result)

/-- Control falls through the code of a node that is no return, if it does for the operands. -/
theorem confined_node {id : ExprId} {node : Node} (goesOn : node.isReturn = false)
    (lowered : NodeCode l K sub id node code)
    (each : ∀ child ∈ node.children, ∀ code, sub child code → Confined 0 code) :
    Confined 0 code := by
  cases lowered with
  | const v => exact .const v
  | localGet => exact .map (fun _ => .localGet _) _
  | globalGet => exact .map (fun _ => .globalGet _) _
  | extractLocal | extractGlobal =>
    exact .map (fun _ => by first | exact .localGet _ | exact .globalGet _) _
  | localSet _ operand =>
    exact (each _ List.mem_cons_self _ operand).append (.map (fun _ => .localSet _) _)
  | globalSet _ operand =>
    exact (each _ List.mem_cons_self _ operand).append (.map (fun _ => .globalSet _) _)
  | binary first second =>
    exact ((each _ (by simp [Node.children]) _ first).append
      (each _ (by simp [Node.children]) _ second)).append (.binary _)
  | unary value => exact (each _ List.mem_cons_self _ value).append (.unary _)
  | call operands => exact (confined_codes operands each).append (.call _)
  | callIndirect operands chosen =>
    exact ((confined_codes operands fun id mem => each id (List.mem_append_left _ mem)).append
      (each _ (by simp [Node.children]) _ chosen)).append (.callIndirect _ _)
  | block _ body => exact confined_sequence body each
  | group operands => exact confined_codes operands each
  | extract _ _ _ _ value =>
    exact ((each _ List.mem_cons_self _ value).append (.map (fun _ => .localSet _) _)).append
      (.map (fun _ => .localGet _) _)
  | chooseBoth _ decided _ yes no =>
    have first := confined_sequence yes fun id mem => each id (by simp [Node.children, mem])
    have second := confined_sequence no fun id mem => each id (by simp [Node.children, mem])
    exact (each _ (by simp [Node.children]) _ decided).append
      (.ifElse _ (first.mono (Nat.zero_le 1)) (second.mono (Nat.zero_le 1)))
  | chooseOne _ decided yes =>
    have first := confined_sequence yes fun id mem => each id (by simp [Node.children, mem])
    exact (each _ (by simp [Node.children]) _ decided).append
      (.ifThen _ (first.mono (Nat.zero_le 1)))
  | loop before test inside behind =>
    have first := confined_statements before fun id mem => each id (by simp [Node.children, mem])
    have decided := each _ (by simp [Node.children]) _ test
    have second := confined_statements inside fun id mem => each id (by simp [Node.children, mem])
    have third := confined_statements behind fun id mem => each id (by simp [Node.children, mem])
    -- the jumps go to the loop and to the block around it
    have test := ((decided.mono (Nat.zero_le 2)).append (.unary (.eqz .w32))).append
      (.brIf (Nat.one_lt_two))
    have round := ((test.append (second.mono (Nat.zero_le 2))).append
      (third.mono (Nat.zero_le 2))).append (.br Nat.zero_lt_two)
    apply first.append
    apply Confined.block
    apply Confined.loop
    simpa using round
  | leave | ret => cases goesOn
  | load place => exact (each _ List.mem_cons_self _ place).append (.load _ _)
  | store place stored =>
    exact ((each _ (by simp [Node.children]) _ place).append
      (each _ (by simp [Node.children]) _ stored)).append (.store _ _)
  | memorySize => exact .memorySize 0
  | memoryGrow amount => exact (each _ List.mem_cons_self _ amount).append (.memoryGrow 0)
  | nop => exact .nil

theorem confined_codeWithin (calm : l.arena.Calm) {depth : Nat} {id : ExprId}
    (passes : l.arena.Passes id) (coded : CodeWithin l K depth id code) : Confined 0 code := by
  induction depth generalizing id code with
  | zero => cases coded
  | succ depth ih =>
    obtain ⟨node, here, coded⟩ := coded
    obtain ⟨_, here', goesOn⟩ := passes
    cases here.symm.trans here'
    exact confined_node goesOn coded fun child mem _ coded => ih (calm id node here child mem) coded

end

end WasmBuilder.Lower

namespace WasmBuilder

open Contribution (statement result due)
open Wasm (Confined Env Instr Machine Outcome)

namespace Wasm

/-- Where control goes at the end of a body: it falls off the end or returns, with a machine of which
`P` holds, unless it has come to an end for good. -/
def Outcome.Settles (P : Machine → Prop) : Outcome → Prop
  | .next m | .ret m => P m
  | .trap .. | .exhausted => True
  | .branch .. | .tail .. => False

theorem Confined.settles_append {code others : List Instr} (confined : Confined 0 code) {e : Env}
    {m : Machine} {P : Machine → Prop}
    (behind : ∀ n, Instr.execSeq code e m = .next n → (Instr.execSeq others e n).Settles P) :
    (Instr.execSeq (code ++ others) e m).Settles P := by
  rw [Instr.execSeq_append]
  have below := confined e m
  cases ended : Instr.execSeq code e m with
  | next n => exact behind n ended
  | trap | exhausted => trivial
  | branch l n =>
    rw [ended] at below
    exact absurd below (Nat.not_lt_zero l)
  | ret | tail =>
    rw [ended] at below
    cases below

end Wasm

namespace Lower

variable {l : Layout} {K : Tables} {sub : ExprId → List Instr → Prop} {cs : List Contribution}
  {code : List Instr}

/-- Code of contributions, as far as the first result. What is behind its return does not matter. -/
inductive DueCode (l : Layout) (sub : ExprId → List Instr → Prop) :
    List Contribution → List Instr → Prop
  | nil : DueCode l sub [] []
  | statement {id : ExprId} {cs : List Contribution} {code others : List Instr}
      (coded : StatementCode l sub id code) (confined : Confined 0 code)
      (behind : DueCode l sub cs others) : DueCode l sub (statement id :: cs) (code ++ others)
  | result {value : ExprId} {code : List Instr} (coded : sub value code) (confined : Confined 0 code)
      (cs : List Contribution) (more : List Instr) :
      DueCode l sub (result value :: cs) (code ++ .ret :: more)

/-- Contributions are carried out one after the other, each once, from one machine to another. -/
inductive Executed (l : Layout) (sub : ExprId → List Instr → Prop) (e : Env) :
    List Contribution → Machine → Machine → Prop
  | nil {m : Machine} : Executed l sub e [] m m
  | statement {id : ExprId} {cs : List Contribution} {code : List Instr} {m n k : Machine}
      (coded : StatementCode l sub id code) (run : Instr.execSeq code e m = .next n)
      (others : Executed l sub e cs n k) : Executed l sub e (statement id :: cs) m k
  | result {value : ExprId} {cs : List Contribution} {code : List Instr} {m n k : Machine}
      (coded : sub value code) (run : Instr.execSeq code e m = .next n)
      (others : Executed l sub e cs n k) : Executed l sub e (result value :: cs) m k

theorem dueCode_of_stands (ordered : l.arena.Ordered) (calm : l.arena.Calm) {body : List ExprId}
    (stands : l.arena.Stands cs body)
    (codes : Codes (StatementCode l (ExprCode l K)) body code) : DueCode l (ExprCode l K) cs code := by
  have falls {id : ExprId} (passes : l.arena.Passes id) (code : List Instr)
      (coded : ExprCode l K id code) : Confined 0 code := confined_codeWithin calm passes coded
  induction stands generalizing code with
  | nil =>
    cases codes
    exact .nil
  | statement passes _ ih =>
    cases codes with
    | cons first others =>
      exact .statement first (confined_statement first (falls passes)) (ih others)
  | @result id value here cs body =>
    cases codes with
    | @cons _ _ _ others first _ =>
      cases first with
      | @mk _ ts returned _ =>
        cases (exprCode_iff ordered here).1 returned with
        | @ret _ inner coded =>
          have passes : l.arena.Passes value := calm id _ here value List.mem_cons_self
          have whole : inner ++ [Instr.ret] ++ (ts.map fun _ => .drop) ++ others =
              inner ++ .ret :: ((ts.map fun _ => .drop) ++ others) := by simp
          rw [whole]
          exact .result coded (falls passes inner coded) cs _
  | @items cs before after items id shape _ here silent ih =>
    obtain ⟨code, third, rfl, codes, behind⟩ := codes.append
    obtain ⟨first, second, rfl, front, inside⟩ := codes.append
    -- the items of the block are statements, so their code is that of the block
    have block : ExprCode l K id second :=
      (exprCode_iff ordered here).2 (.block silent (.statements inside))
    have whole : first ++ second ++ third =
        first ++ ((second ++ ([] : List NumType).map fun _ => .drop) ++ third) := by simp
    rw [whole]
    exact ih (front.concat (.cons (.mk block silent) behind))

/-- To run the code of contributions is to carry out what is due. -/
theorem DueCode.settles (coded : DueCode l sub cs code) (e : Env) (m : Machine) :
    (Instr.execSeq code e m).Settles (Executed l sub e (due cs) m) := by
  induction coded generalizing m with
  | nil => exact Executed.nil
  | @statement id cs code others coded confined _ ih =>
    apply confined.settles_append
    intro n run
    have rest := ih n
    cases ended : Instr.execSeq others e n with
    | next k | ret k =>
      rw [ended] at rest
      exact .statement coded run rest
    | trap | exhausted => trivial
    | branch | tail =>
      rw [ended] at rest
      exact rest
  | @result value code coded confined cs more =>
    apply confined.settles_append
    intro n run
    exact .result coded run .nil

end Lower

end WasmBuilder
