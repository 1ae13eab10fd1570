import Mathlib.Algebra.Order.Ring.Nat
import Mathlib.Algebra.Order.BigOperators.Group.List
import WasmBuilder.Proofs.Wasm.Dispatch

/-!
Programs that always come to an end.

Code without loops runs each of its instructions at most once, and waits for the functions that it
calls. Where every function calls only functions of a lower rank, all of them end, however deep calls
may nest and whatever room there is. From some depth and room on, what a call leaves is the same.
-/

set_option autoImplicit false

namespace WasmBuilder.Wasm

namespace Instr

mutual

def parts : Instr → List Instr
  | .block t body => .block t body :: partsSeq body
  | .loop t body => .loop t body :: partsSeq body
  | .ifThen t body => .ifThen t body :: partsSeq body
  | .ifElse t first second => .ifElse t first second :: (partsSeq first ++ partsSeq second)
  | i => [i]

def partsSeq : List Instr → List Instr
  | [] => []
  | i :: rest => parts i ++ partsSeq rest

end

def CallsKnown (known : Nat → Prop) : Instr → Prop
  | .call f => known f
  | .callIndirect _ _ => False
  | _ => True

def isLoop : Instr → Bool
  | .loop _ _ => true
  | _ => false

theorem mem_parts_self (i : Instr) : i ∈ i.parts := by
  cases i <;> simp [parts]

theorem partsSeq_append (first second : List Instr) :
    partsSeq (first ++ second) = partsSeq first ++ partsSeq second := by
  induction first with
  | nil => rfl
  | cons i rest ih => rw [List.cons_append, partsSeq, partsSeq, ih, List.append_assoc]

end Instr

def Outcome.stops : Outcome → Bool
  | .exhausted | .tail .. => false
  | _ => true

namespace Machine

variable (m : Machine)

theorem pushResult_stops (r : Except Trap Value) : (m.pushResult r).stops = true := by
  cases r <;> rfl

theorem drop_stops : m.drop.stops = true := by
  unfold drop
  split <;> rfl

theorem binary_stops (op : Value → Value → Except Trap Value) : (m.binary op).stops = true := by
  unfold binary
  split
  · exact pushResult_stops _ _
  · rfl

theorem unary_stops (op : Value → Except Trap Value) : (m.unary op).stops = true := by
  unfold unary
  split
  · exact pushResult_stops _ _
  · rfl

theorem localGet_stops (i : Nat) : (m.localGet i).stops = true := by
  unfold localGet
  split <;> rfl

theorem localSet_stops (i : Nat) : (m.localSet i).stops = true := by
  unfold localSet
  repeat' split
  all_goals rfl

theorem globalGet_stops (i : Nat) : (m.globalGet i).stops = true := by
  unfold globalGet
  split <;> rfl

theorem globalSet_stops (i : Nat) : (m.globalSet i).stops = true := by
  unfold globalSet
  repeat' split
  all_goals rfl

variable (e : Env)

theorem load_stops (t : NumType) (arg : MemArg) : (m.load e t arg).stops = true := by
  unfold load loadBytes
  repeat' split
  all_goals rfl

theorem storeNum_stops (t : NumType) (arg : MemArg) : (m.storeNum e t arg).stops = true := by
  unfold storeNum storeBytes put
  repeat' split
  all_goals rfl

theorem memorySize_stops (index : Nat) : (m.memorySize e index).stops = true := by
  unfold memorySize
  split <;> rfl

theorem memoryGrow_stops (index : Nat) : (m.memoryGrow e index).stops = true := by
  unfold memoryGrow
  repeat' split
  all_goals rfl

end Machine

def EndAlike (f g : Machine → Outcome) : Prop := ∀ m, f m = g m ∧ (f m).stops = true

namespace EndAlike

variable {f g : Machine → Outcome}

theorem of_stops (stops : ∀ m, (f m).stops = true) : EndAlike f f := fun m => ⟨rfl, stops m⟩

theorem enter (alike : EndAlike f g) (params arity : Nat) :
    EndAlike (Machine.enter params arity f) (Machine.enter params arity g) := by
  intro m
  obtain ⟨same, stops⟩ := alike { m with stack := m.stack.take params }
  unfold Machine.enter
  rw [← same]
  refine ⟨rfl, ?_⟩
  revert stops
  cases f { m with stack := m.stack.take params } with
  | branch l inner => cases l <;> exact fun _ => rfl
  | next | ret | trap => exact fun _ => rfl
  | tail | exhausted => exact fun stops => stops

theorem popCondition {f g : Bool → Machine → Outcome} (each : ∀ b, EndAlike (f b) (g b)) :
    EndAlike (fun m => m.popCondition f) (fun m => m.popCondition g) := by
  intro m
  dsimp only [Machine.popCondition]
  split
  · exact each _ _
  · exact ⟨rfl, rfl⟩

theorem seq {i i' : Machine → Outcome} (first : EndAlike i i') (rest : EndAlike f g) :
    EndAlike (fun m => match i m with | .next m => f m | o => o)
      (fun m => match i' m with | .next m => g m | o => o) := by
  intro m
  obtain ⟨same, stops⟩ := first m
  dsimp only
  rw [← same]
  revert stops
  cases i m with
  | next m' => exact fun _ => rest m'
  | branch | ret | tail | trap | exhausted => exact fun stops => ⟨rfl, stops⟩

/-- Calls that come to the same end are executed alike. -/
theorem call {e e' : Env} (signatures : e'.signatures = e.signatures) {func : Nat}
    (calls : ∀ s args, e.call func s args = e'.call func s args ∧ e.call func s args ≠ .exhausted) :
    EndAlike (Machine.call e func) (Machine.call e' func) := by
  intro m
  unfold Machine.call
  rw [signatures]
  cases e.signatures[func]? with
  | none => exact ⟨rfl, rfl⟩
  | some t =>
    obtain ⟨same, ends⟩ := calls m.store (m.stack.take t.params.length).reverse
    dsimp only
    rw [← same]
    revert ends
    cases e.call func m.store (m.stack.take t.params.length).reverse with
    | exhausted => exact fun ends => absurd rfl ends
    | done | trap => exact fun _ => ⟨rfl, rfl⟩

end EndAlike

/-- Surroundings that tell code apart by nothing but how often it may repeat a loop: what they do for
calls comes to the same end. -/
structure Env.EndAlike (known : Nat → Prop) (e e' : Env) : Prop where
  types : e'.types = e.types
  signatures : e'.signatures = e.signatures
  memories : e'.memories = e.memories
  calls : ∀ func, known func → ∀ s args,
    e.call func s args = e'.call func s args ∧ e.call func s args ≠ .exhausted

section
variable {e e' : Env} {known : Nat → Prop}

mutual

/-- Code without loops comes to an end, however often loops may be repeated. -/
theorem Instr.ends_alike (around : e.EndAlike known e') (i : Instr) (plain : i.isPlain = true)
    (parts : ∀ p ∈ i.parts, p.CallsKnown known ∧ p.isLoop = false) :
    EndAlike (i.exec e) (i.exec e') := by
  have typed (t : BlockType) : e'.blockType? t = e.blockType? t := by
    cases t <;> simp [Env.blockType?, around.types]
  cases i with
  | call f => exact .call around.signatures (around.calls f (parts _ (mem_parts_self _)).1)
  -- neither stands in code without loops whose calls are known
  | callIndirect t table => exact (parts _ (mem_parts_self _)).1.elim
  | loop t body => cases (parts _ (mem_parts_self _)).2
  | block t body =>
    have inside := ends_alike_seq around body plain fun p mem => parts p (List.mem_cons_of_mem _ mem)
    intro m
    simp only [Instr.exec, typed]
    cases e.blockType? t with
    | none => exact ⟨rfl, rfl⟩
    | some f => exact inside.enter _ _ m
  | ifThen t body =>
    have inside := ends_alike_seq around body plain fun p mem => parts p (List.mem_cons_of_mem _ mem)
    intro m
    simp only [Instr.exec, typed]
    cases e.blockType? t with
    | none => exact ⟨rfl, rfl⟩
    | some f =>
      refine EndAlike.popCondition (fun b => ?_) m
      cases b with
      | false => exact .of_stops fun _ => rfl
      | true => exact inside.enter _ _
  | ifElse t first second =>
    obtain ⟨one, two⟩ := Bool.and_eq_true_iff.1 plain
    have yes := ends_alike_seq around first one fun p mem =>
      parts p (List.mem_cons_of_mem _ (List.mem_append_left _ mem))
    have no := ends_alike_seq around second two fun p mem =>
      parts p (List.mem_cons_of_mem _ (List.mem_append_right _ mem))
    intro m
    simp only [Instr.exec, typed]
    cases e.blockType? t with
    | none => exact ⟨rfl, rfl⟩
    | some f =>
      refine EndAlike.popCondition (fun b => ?_) m
      cases b with
      | false => exact no.enter _ _
      | true => exact yes.enter _ _
  | load t arg =>
    have same : Machine.load e t arg = Machine.load e' t arg := by
      funext m
      unfold Machine.load Machine.loadBytes Store.memory?
      rw [around.memories]
    exact fun m => ⟨congrFun same m, m.load_stops e t arg⟩
  | store t arg =>
    have same : Machine.storeNum e t arg = Machine.storeNum e' t arg := by
      funext m
      unfold Machine.storeNum Machine.storeBytes
      rw [around.memories]
    exact fun m => ⟨congrFun same m, m.storeNum_stops e t arg⟩
  | memorySize index =>
    have same : Machine.memorySize e index = Machine.memorySize e' index := by
      funext m
      unfold Machine.memorySize Store.memory?
      rw [around.memories]
    exact fun m => ⟨congrFun same m, m.memorySize_stops e index⟩
  | memoryGrow index =>
    have same : Machine.memoryGrow e index = Machine.memoryGrow e' index := by
      funext m
      unfold Machine.memoryGrow Store.memory?
      rw [around.memories]
    exact fun m => ⟨congrFun same m, m.memoryGrow_stops e index⟩
  | brIf l =>
    intro m
    unfold Instr.exec
    refine EndAlike.popCondition (fun b => ?_) m
    cases b <;> exact .of_stops fun _ => rfl
  | drop => exact .of_stops Machine.drop_stops
  | binary op => exact .of_stops fun m => m.binary_stops op.eval
  | unary op => exact .of_stops fun m => m.unary_stops op.eval
  | localGet i => exact .of_stops fun m => m.localGet_stops i
  | localSet i => exact .of_stops fun m => m.localSet_stops i
  | globalGet i => exact .of_stops fun m => m.globalGet_stops i
  | globalSet i => exact .of_stops fun m => m.globalSet_stops i
  | const | br | ret => exact .of_stops fun _ => rfl
  | _ => cases plain

theorem Instr.ends_alike_seq (around : e.EndAlike known e') (is : List Instr) (plain : isPlainSeq is = true)
    (parts : ∀ p ∈ partsSeq is, p.CallsKnown known ∧ p.isLoop = false) :
    EndAlike (execSeq is e) (execSeq is e') := by
  cases is with
  | nil => exact .of_stops fun _ => rfl
  | cons i rest =>
    obtain ⟨one, others⟩ := Bool.and_eq_true_iff.1 plain
    have first := ends_alike around i one fun p mem => parts p (List.mem_append_left _ mem)
    have behind := ends_alike_seq around rest others fun p mem => parts p (List.mem_append_right _ mem)
    exact first.seq behind

end

theorem runBody_ends (around : e.EndAlike known e') {body : List Instr} (plain : Instr.isPlainSeq body = true)
    (parts : ∀ p ∈ Instr.partsSeq body, p.CallsKnown known ∧ p.isLoop = false) (type : FuncType)
    (locals : List ValType) (s : Store) (args : List Datum) : ∃ o : CallOutcome,
      o ≠ .exhausted ∧ runBody e type locals body s args = o.body ∧
      runBody e' type locals body s args = o.body := by
  obtain ⟨same, stops⟩ := Instr.ends_alike_seq around body plain parts
    ⟨s, (args ++ locals.map Datum.zero).toArray, []⟩
  have finished (m : Machine) : ∃ o : CallOutcome, o ≠ .exhausted ∧
      m.finish type.results.length = o.body := by
    unfold Machine.finish
    split
    · exact ⟨.trap .illTyped m.store, nofun, rfl⟩
    · exact ⟨.done _ m.store, nofun, rfl⟩
  unfold runBody
  dsimp only
  rw [← same]
  revert stops
  cases Instr.execSeq body e ⟨s, (args ++ locals.map Datum.zero).toArray, []⟩ with
  | next m | branch _ m | ret m =>
    obtain ⟨o, ends, finish⟩ := finished m
    exact fun _ => ⟨o, ends, finish, finish⟩
  | trap cause t => exact fun _ => ⟨.trap cause t, nofun, rfl, rfl⟩
  | tail | exhausted => exact fun stops => absurd stops Bool.false_ne_true

end

/-- Functions of plain code without loops, each of which calls only such functions of a lower rank by
name. -/
structure Program.Descends (p : Program) (rank : Nat → Nat) (among : Nat → Prop) : Prop where
  code : ∀ {f : Nat} {type : FuncType} {locals : List ValType} {body : List Instr}, among f →
    p.funcs[f]? = some (.code type locals body) → Instr.isPlainSeq body = true ∧
      ∀ i ∈ Instr.partsSeq body, i.CallsKnown (fun g => among g ∧ rank g < rank f) ∧ i.isLoop = false

theorem Program.exists_frame_le (p : Program) : ∃ frame, ∀ f, p.frame f ≤ frame := by
  refine ⟨p.frames.toList.sum + 1, fun f => ?_⟩
  unfold Program.frame
  rw [Array.getD_eq_getD_getElem?]
  cases here : p.frames[f]? with
  | none => exact Nat.le_add_left 1 _
  | some size =>
    have mem : size ∈ p.frames.toList := List.mem_of_getElem? (by rwa [Array.getElem?_toList])
    exact Nat.le_succ_of_le (List.le_sum_of_mem mem)

section
variable {p : Program} {rank : Nat → Nat} {among : Nat → Prop}

theorem callHost_ends (key : ImportKey) (f : HostFunction) (s : Store) (args : List Value) :
    callHost key f s args ≠ .exhausted := by
  unfold callHost
  dsimp only
  split <;> exact nofun

theorem Program.Descends.runOne_ends (descends : p.Descends rank among)
    (rounds rounds' room room' : Nat)
    {call call' : (room : Nat) → Nat → Store → List Datum → CallOutcome} {f : Nat} (mem : among f)
    (enough : p.frame f ≤ room ↔ p.frame f ≤ room')
    (calls : ∀ g, among g → rank g < rank f → ∀ s args,
      call (room - p.frame f) g s args = call' (room' - p.frame f) g s args ∧
        call (room - p.frame f) g s args ≠ .exhausted) (s : Store) (args : List Datum) :
    ∃ o : CallOutcome, o ≠ .exhausted ∧ p.runOne rounds room call f s args = o.body ∧
      p.runOne rounds' room' call' f s args = o.body := by
  unfold runOne
  cases here : p.funcs[f]? with
  | none => exact ⟨.trap .illTyped s, nofun, rfl, rfl⟩
  | some function =>
    cases function with
    | host key host =>
      refine ⟨_, callHost_ends key host s (args.filterMap Datum.value?), ?_, ?_⟩ <;>
      · dsimp only
        cases callHost key host s (args.filterMap Datum.value?) <;> rfl
    | code type locals body =>
      obtain ⟨plain, parts⟩ := descends.code mem here
      dsimp only
      by_cases fits : p.frame f ≤ room
      · rw [if_neg (Nat.not_lt.2 fits), if_neg (Nat.not_lt.2 (enough.1 fits))]
        have around : (p.env rounds (call (room - p.frame f))).EndAlike
            (fun g => among g ∧ rank g < rank f) (p.env rounds' (call' (room' - p.frame f))) :=
          ⟨rfl, rfl, rfl, fun g known => calls g known.1 known.2⟩
        exact runBody_ends around plain parts type locals s args
      · rw [if_pos (Nat.not_le.1 fits), if_pos (Nat.not_le.1 (mt enough.2 fits))]
        exact ⟨.trap .callDepth s, nofun, rfl, rfl⟩

theorem Program.Descends.invoke_ends (descends : p.Descends rank among)
    {rounds : Nat} (depth room : Nat) {f : Nat} (mem : among f) (s : Store) (args : List Datum) :
    p.invoke (rounds + 1) depth room f s args ≠ .exhausted := by
  induction depth generalizing room f s args with
  | zero => exact nofun
  | succ depth ih =>
    obtain ⟨o, ends, run, -⟩ := descends.runOne_ends (rounds + 1) (rounds + 1) room room mem Iff.rfl
      (fun g known _ s args => ⟨rfl, ih _ known s args⟩) s args
    rw [invoke, runChain_of_body run]
    exact ends

/-- What a call leaves does not depend on how deep calls may nest, once they may nest deeper than the
rank of the function, nor on the room, once it takes as many of the largest frames. -/
theorem Program.Descends.invoke_settles (descends : p.Descends rank among)
    {frame : Nat} (largest : ∀ f, p.frame f ≤ frame)
    {rounds rounds' depth depth' room room' : Nat} {f : Nat} (mem : among f) (deep : rank f < depth)
    (deep' : rank f < depth') (spacious : (rank f + 1) * frame ≤ room)
    (spacious' : (rank f + 1) * frame ≤ room') (s : Store) (args : List Datum) :
    p.invoke (rounds + 1) depth room f s args = p.invoke (rounds' + 1) depth' room' f s args := by
  induction depth generalizing depth' room room' f s args with
  | zero => cases deep
  | succ depth ih =>
    cases depth' with
    | zero => cases deep'
    | succ depth' =>
      have fits : frame ≤ (rank f + 1) * frame := Nat.le_mul_of_pos_left frame (Nat.succ_pos _)
      have own := largest f
      -- what is left suffices for functions of a lower rank
      have left {g room : Nat} (lower : rank g < rank f) (spacious : (rank f + 1) * frame ≤ room) :
          (rank g + 1) * frame ≤ room - p.frame f := by
        have grows : (rank g + 1 + 1) * frame ≤ (rank f + 1) * frame :=
          Nat.mul_le_mul_right frame (Nat.succ_le_succ lower)
        rw [Nat.add_mul (rank g + 1) 1 frame] at grows
        omega
      have calls (g : Nat) (known : among g) (lower : rank g < rank f) (s : Store)
          (args : List Datum) :
          p.invoke (rounds + 1) depth (room - p.frame f) g s args =
            p.invoke (rounds' + 1) depth' (room' - p.frame f) g s args :=
        ih known (by omega) (by omega) (left lower spacious) (left lower spacious') s args
      obtain ⟨o, -, run, run'⟩ := descends.runOne_ends (rounds + 1) (rounds' + 1) room room' mem
        ⟨fun _ => by omega, fun _ => by omega⟩
        (fun g known lower s args =>
          ⟨calls g known lower s args, descends.invoke_ends _ _ known s args⟩) s args
      rw [invoke, invoke, runChain_of_body run, runChain_of_body run']

end

end WasmBuilder.Wasm
