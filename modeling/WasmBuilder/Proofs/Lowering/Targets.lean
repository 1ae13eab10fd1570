import WasmBuilder.Proofs.Course.Sheds
import WasmBuilder.Proofs.Lowering.Module
import WasmBuilder.Proofs.Wasm.Termination

/-!
Which functions the code of a body calls, and where it repeats anything.

A call in code comes of a call among the expressions of the body, and names the function itself or
goes through a constant slot of the table. With calls through constant slots made directly, code only
names the functions that its expressions call. Code has a loop only where an expression is a loop.
-/

set_option autoImplicit false

namespace WasmBuilder

namespace Wasm.Instr

variable {target? : Nat → Nat → Option Nat} {known : Nat → Prop} {mayRepeat : Prop}

def Obeys (known : Nat → Prop) (mayRepeat : Prop) (i : Instr) : Prop :=
  i.CallsKnown known ∧ (i.isLoop = true → mayRepeat)

def isAlone : Instr → Bool
  | .call _ | .callIndirect _ _ | .block _ _ | .loop _ _ | .ifThen _ _ | .ifElse _ _ _ => false
  | _ => true

def OpensIndirect (code : List Instr) : Prop := ∃ t table, code.head? = some (.callIndirect t table)

theorem fuse_cases (i : Instr) (rest : List Instr) :
    fuse target? i rest = i :: rest ∨ ∃ slot t n more, i = .const (.i32 slot) ∧
      rest = .callIndirect t 0 :: more ∧ fuse target? i rest = .call n :: more := by
  unfold fuse
  split
  next slot t more =>
    split
    next n _ => exact .inr ⟨slot, t, n, more, rfl, rfl, rfl⟩
    next => exact .inl rfl
  next => exact .inl rfl

theorem fuse_nil (i : Instr) : fuse target? i [] = [i] := by
  unfold fuse
  split
  next eq => cases eq
  next => rfl

theorem fuse_append (i : Instr) (first : List Instr) {second : List Instr}
    (opens : ¬OpensIndirect second) :
    fuse target? i (first ++ second) = fuse target? i first ++ second := by
  cases first with
  | nil =>
    rw [List.nil_append, fuse_nil]
    rcases @fuse_cases target? i second with same | ⟨_, t, _, more, _, is, _⟩
    · exact same
    · exact absurd ⟨t, 0, by rw [is]; rfl⟩ opens
  | cons j rest =>
    rw [List.cons_append]
    unfold fuse
    split
    next slot t more eq =>
      cases eq
      cases found : target? slot.toNat t <;> simp [found]
    next other =>
      split
      next slot t more eq =>
        cases eq
        exact absurd rfl (other slot t (rest ++ second) rfl)
      next => rfl

theorem opensIndirect_directSeq {code : List Instr} (opens : OpensIndirect (directSeq target? code)) :
    OpensIndirect code := by
  obtain ⟨t, table, opens⟩ := opens
  cases code with
  | nil => cases opens
  | cons i rest =>
    rw [directSeq] at opens
    rcases @fuse_cases target? (direct target? i) (directSeq target? rest) with
      same | ⟨_, _, _, _, _, _, same⟩
    · rw [same] at opens
      -- no other instruction becomes a call through the table
      cases i <;> cases opens
      exact ⟨t, table, rfl⟩
    · rw [same] at opens
      cases opens

theorem directSeq_append (first : List Instr) {second : List Instr} (opens : ¬OpensIndirect second) :
    directSeq target? (first ++ second) = directSeq target? first ++ directSeq target? second := by
  induction first with
  | nil => rfl
  | cons i rest ih =>
    rw [List.cons_append, directSeq, directSeq, ih,
      fuse_append _ _ fun opened => opens (opensIndirect_directSeq opened)]

mutual

theorem isPlain_direct (i : Instr) : (i.direct target?).isPlain = i.isPlain := by
  cases i with
  | block t body | loop t body | ifThen t body => exact isPlainSeq_directSeq body
  | ifElse t first second =>
    exact congrArg₂ (· && ·) (isPlainSeq_directSeq first) (isPlainSeq_directSeq second)
  | _ => rfl

theorem isPlainSeq_directSeq (is : List Instr) :
    isPlainSeq (directSeq target? is) = isPlainSeq is := by
  cases is with
  | nil => rfl
  | cons i rest =>
    have one := isPlain_direct i
    have others := isPlainSeq_directSeq rest
    rw [directSeq, isPlainSeq, ← one, ← others]
    rcases @fuse_cases target? (i.direct target?) (directSeq target? rest) with
      same | ⟨_, _, _, more, is, opens, same⟩
    · rw [same, isPlainSeq]
    · rw [same, is, opens]
      rfl

end

end Wasm.Instr

namespace Lower

open Wasm (Instr)
open Wasm.Instr (Obeys OpensIndirect directSeq partsSeq)

structure Aims (target? : Nat → Nat → Option Nat) (known : Nat → Prop) (mayRepeat : Prop)
    (code : List Instr) : Prop where
  opens : ¬OpensIndirect code
  parts : ∀ i ∈ partsSeq (directSeq target? code), i.Obeys known mayRepeat

namespace Aims

variable {target? : Nat → Nat → Option Nat} {known : Nat → Prop} {mayRepeat : Prop}
  {first second code : List Instr}

theorem nil : Aims target? known mayRepeat [] := ⟨nofun, fun _ mem => by cases mem⟩

theorem append (one : Aims target? known mayRepeat first) (two : Aims target? known mayRepeat second) :
    Aims target? known mayRepeat (first ++ second) where
  opens := by
    cases first with
    | nil => exact two.opens
    | cons i rest => exact one.opens
  parts i mem := by
    rw [Instr.directSeq_append first two.opens, Instr.partsSeq_append] at mem
    rcases List.mem_append.1 mem with inFirst | inSecond
    · exact one.parts i inFirst
    · exact two.parts i inSecond

theorem single {i : Instr} (opens : ∀ t table, i ≠ .callIndirect t table)
    (parts : ∀ p ∈ (i.direct target?).parts, p.Obeys known mayRepeat) :
    Aims target? known mayRepeat [i] where
  opens := by
    rintro ⟨t, table, is⟩
    exact opens t table (Option.some.inj is)
  parts p mem := by
    rw [directSeq, directSeq, Instr.fuse_nil, partsSeq, partsSeq, List.append_nil] at mem
    exact parts p mem

theorem alone {i : Instr} (isAlone : i.isAlone = true) : Aims target? known mayRepeat [i] := by
  have itself : i.direct target? = i ∧ i.parts = [i] ∧ i.Obeys known mayRepeat := by
    cases i <;> first | exact ⟨rfl, rfl, trivial, nofun⟩ | cases isAlone
  obtain ⟨same, parts, obeys⟩ := itself
  apply single
  · rintro t table rfl
    cases isAlone
  · intro p mem
    rw [same, parts, List.mem_singleton] at mem
    exact mem ▸ obeys

theorem map {α : Type} {f : α → Instr} (isAlone : ∀ x, (f x).isAlone = true) (xs : List α) :
    Aims target? known mayRepeat (xs.map f) := by
  induction xs with
  | nil => exact nil
  | cons x rest ih => exact (alone (isAlone x)).append ih

section
variable {l : Layout} {K : Tables} {sub : ExprId → List Instr → Prop}

theorem of_codes {ids : List ExprId}
    (each : ∀ id ∈ ids, ∀ code, sub id code → Aims target? known mayRepeat code)
    (codes : Codes sub ids code) : Aims target? known mayRepeat code := by
  induction codes with
  | nil => exact nil
  | cons first _ ih =>
    apply append (each _ List.mem_cons_self _ first)
    exact ih fun id mem => each id (List.mem_cons_of_mem _ mem)

theorem of_statements {ids : List ExprId}
    (each : ∀ id ∈ ids, ∀ code, sub id code → Aims target? known mayRepeat code)
    (codes : Codes (StatementCode l sub) ids code) : Aims target? known mayRepeat code := by
  refine of_codes (fun id mem code lowered => ?_) codes
  cases lowered with
  | mk value => exact (each id mem _ value).append (map (fun _ => rfl) _)

theorem of_sequence {value : Bool} {items : List ExprId}
    (each : ∀ id ∈ items, ∀ code, sub id code → Aims target? known mayRepeat code)
    (lowered : SequenceCode l sub value items code) : Aims target? known mayRepeat code := by
  cases lowered with
  | statements all => exact of_statements each all
  | empty => exact nil
  | value split others result =>
    subst split
    apply append
    · exact of_statements (fun id mem => each id (List.mem_append_left _ mem)) others
    · exact each _ (by simp) _ result

/-- Behind a constant slot whose function is known, a call through the table is one of this function. -/
theorem through {slot : BitVec 32} {t n : Nat} (target : target? slot.toNat t = some n)
    (knows : known n) : Aims target? known mayRepeat [.const (.i32 slot), .callIndirect t 0] where
  opens := by
    rintro ⟨t, table, is⟩
    cases is
  parts p mem := by
    have fused : directSeq target? [.const (.i32 slot), .callIndirect t 0] = [.call n] := by
      simp [directSeq, Instr.direct, Instr.fuse, target]
    rw [fused] at mem
    cases List.mem_singleton.1 mem
    exact ⟨knows, fun loops => by cases loops⟩

/-- Code of a node calls what its operands do and its own function, and repeats what they do and its
own body. -/
theorem of_node {id : ExprId} {node : Node}
    (each : ∀ child ∈ node.children, ∀ code, sub child code → Aims target? known mayRepeat code)
    (direct : ∀ func args signature n, node = .call func args signature → l.funcIndex func = .ok n →
      known n)
    (indirect : ∀ index args signature code t, node = .callIndirect index args signature →
      sub index code → K.types[t]? = some signature → ∃ slot n, code = [.const (.i32 slot)] ∧
        target? slot.toNat t = some n ∧ known n)
    (loops : ∀ init cond step body, node = .loop init cond step body → mayRepeat)
    (lowered : NodeCode l K sub id node code) : Aims target? known mayRepeat code := by
  cases lowered with
  | const | leave | memorySize => exact alone rfl
  | nop => exact nil
  | localGet | globalGet | extractLocal | extractGlobal =>
    exact map (fun _ => rfl) _
  | localSet _ operand | globalSet _ operand =>
    exact (each _ (by simp [Node.children]) _ operand).append
      (map (fun _ => rfl) _)
  | binary first second | store first second =>
    have one := each _ (by simp [Node.children]) _ first
    have two := each _ (by simp [Node.children]) _ second
    exact (one.append two).append (alone rfl)
  | unary value | ret value | load value | memoryGrow value =>
    exact (each _ (by simp [Node.children]) _ value).append (alone rfl)
  | call operands at_ =>
    apply append (of_codes each operands)
    refine single (by simp) fun p mem => ?_
    cases List.mem_singleton.1 mem
    exact ⟨direct _ _ _ _ rfl at_, fun loops => by cases loops⟩
  -- the slot is a constant, so it is known which function is called
  | callIndirect operands chosen listed =>
    obtain ⟨slot, n, rfl, target, knows⟩ := indirect _ _ _ _ _ rfl chosen listed
    have args := of_codes (fun id mem => each id (List.mem_append_left _ mem)) operands
    rw [List.append_assoc]
    exact args.append (through target knows)
  | block _ body => exact of_sequence each body
  | group operands => exact of_codes each operands
  | extract _ _ _ _ value =>
    have inside := each _ (by simp [Node.children]) _ value
    exact (inside.append (map (fun _ => rfl) _)).append
      (map (fun _ => rfl) _)
  | chooseBoth _ decided _ yes no =>
    apply append (each _ (by simp [Node.children]) _ decided)
    have one := of_sequence (fun id mem => each id (by simp [Node.children, mem])) yes
    have two := of_sequence (fun id mem => each id (by simp [Node.children, mem])) no
    refine single (by simp) fun p mem => ?_
    rcases List.mem_cons.1 mem with rfl | inside
    · exact ⟨trivial, fun loops => by cases loops⟩
    · rcases List.mem_append.1 inside with inFirst | inSecond
      · exact one.parts p inFirst
      · exact two.parts p inSecond
  | chooseOne _ decided yes =>
    apply append (each _ (by simp [Node.children]) _ decided)
    have one := of_sequence (fun id mem => each id (by simp [Node.children, mem])) yes
    refine single (by simp) fun p mem => ?_
    rcases List.mem_cons.1 mem with rfl | inside
    · exact ⟨trivial, fun loops => by cases loops⟩
    · exact one.parts p inside
  -- the only code that is repeated
  | loop before test inside behind =>
    have init := of_statements (fun id mem => each id (by simp [Node.children, mem])) before
    have cond := each _ (by simp [Node.children]) _ test
    have body := of_statements (fun id mem => each id (by simp [Node.children, mem])) inside
    have step := of_statements (fun id mem => each id (by simp [Node.children, mem])) behind
    have test : Aims target? known mayRepeat [.unary (.eqz .w32)] := alone rfl
    have leave : Aims target? known mayRepeat [.brIf 1] := alone rfl
    have again : Aims target? known mayRepeat [.br 0] := alone rfl
    have round := (((cond.append (test.append leave)).append body).append step).append again
    have repeats : mayRepeat := loops _ _ _ _ rfl
    apply append init
    refine single (by simp) fun p mem => ?_
    rcases List.mem_cons.1 mem with rfl | mem
    · exact ⟨trivial, fun loops => by cases loops⟩
    · refine (single (i := .loop .empty _) (by simp) fun p mem => ?_).parts p mem
      rcases List.mem_cons.1 mem with rfl | mem
      · exact ⟨trivial, fun _ => repeats⟩
      · exact round.parts p mem

end

end Aims

/-- Whatever an expression calls is known, and it may repeat what it repeats. -/
structure Follows (l : Layout) (types : List Signature) (target? : Nat → Nat → Option Nat)
    (known : Nat → Prop) (mayRepeat : Prop) (root : ExprId) : Prop where
  direct : ∀ (id : ExprId) (func : Nat) (args : List ExprId) (signature : Signature) (n : Nat),
    l.arena.Within root id → l.arena.node id = .ok (.call func args signature) →
    l.funcIndex func = .ok n → known n
  indirect : ∀ (id index : ExprId) (args : List ExprId) (signature : Signature) (t : Nat),
    l.arena.Within root id → l.arena.node id = .ok (.callIndirect index args signature) →
    types[t]? = some signature → ∃ slot n, l.arena.node index = .ok (.const (.i32 slot)) ∧
      target? slot.toNat t = some n ∧ known n
  loops : ∀ (id : ExprId) (init : List ExprId) (cond : ExprId) (step body : List ExprId),
    l.arena.Within root id → l.arena.node id = .ok (.loop init cond step body) → mayRepeat

section
variable {target? : Nat → Nat → Option Nat} {known : Nat → Prop} {mayRepeat : Prop}

theorem Follows.aims {l : Layout} {K : Tables} {root : ExprId}
    (follows : Follows l K.types target? known mayRepeat root) {depth : Nat} {id : ExprId}
    {code : List Instr} (within : l.arena.Within root id) (coded : CodeWithin l K depth id code) :
    Aims target? known mayRepeat code := by
  induction depth generalizing id code with
  | zero => exact coded.elim
  | succ depth ih =>
    obtain ⟨node, here, lowered⟩ := coded
    apply Aims.of_node _ _ _ _ lowered
    · intro child mem code coded
      exact ih (within.child here mem) coded
    · rintro func args signature n rfl at_
      exact follows.direct id func args signature n within here at_
    · rintro index args signature code t rfl chosen listed
      obtain ⟨slot, n, constant, target, knows⟩ :=
        follows.indirect id index args signature t within here listed
      refine ⟨slot, n, ?_, target, knows⟩
      cases depth with
      | zero => exact chosen.elim
      | succ depth =>
        obtain ⟨node, there, chosen⟩ := chosen
        cases Except.ok.inj (there.symm.trans constant)
        cases chosen
        rfl
    · rintro init cond step body rfl
      exact follows.loops id init cond step body within here

theorem FunctionCode.obeys {l : Layout} {types : List Signature} {signature : Signature}
    {shapes : List Shape} {body : List ExprId} {g : Wasm.Func}
    (code : FunctionCode l types signature shapes body g)
    (each : ∀ root ∈ body, Follows (l.withVariables shapes) types target? known mayRepeat root) :
    ∀ i ∈ partsSeq (directSeq target? g.body), i.Obeys known mayRepeat := by
  cases code with
  | @mk _ scratch instrs typed statements =>
    have all : Aims target? known mayRepeat instrs := by
      refine Aims.of_statements (fun root inBody code coded => ?_) statements
      have follows : Follows (l.withVariables shapes) (Tables.mk types scratch).types target? known
        mayRepeat root := each root inBody
      exact follows.aims .self coded
    exact all.parts

end

end Lower

end WasmBuilder
