import WasmBuilder.Proofs.Demo.Compiled
import WasmBuilder.Proofs.Lowering.Dispatch
import WasmBuilder.Proofs.Lowering.Straight
import WasmBuilder.Proofs.Lowering.Undisturbed
import WasmBuilder.Proofs.Simplify.Agreement
import WasmBuilder.Proofs.Variables.Binding

/-!
Which operators the functions reach that call through the table.

The operators get the next slots of the table, whichever these are, and keep them. What the functions
of the library are is read off their declarations and stays until the module is made, so it is known
which function a selector reaches: one selects by the slot in the table, not by the place in the
library.
-/

set_option autoImplicit false

namespace WasmBuilder

namespace Body

variable {b : Body} {t : NumType}

theorem read_number {name : String} {index : Nat} {storage : Storage}
    (here : b.locals.lookup name = some (index, ⟨name, .num t, storage⟩)) :
    read name b = .ok (.plain b.arena.size)
      { b with arena := b.arena.push (.localGet index (.num t)) (some (.num t)) } := by
  have means : b.Means name .local index ⟨name, .num t, storage⟩ :=
    resolve_eq_some_iff.1 (by rw [resolve, here])
  exact read_of_known means nofun

theorem binary_number {kind : BinaryKind} {op : BinOp} {left right : ExprId}
    (select : kind.select t = some op) (first : b.arena.label left = .ok (.num t))
    (second : b.arena.label right = .ok (.num t)) :
    binary kind left right b = .ok b.arena.size { b with
      arena := b.arena.push (.binary op left right) (some (.num op.resultType)) } := by
  have typed {id : ExprId} (label : b.arena.label id = .ok (.num t)) :
      primitiveOf id b = .ok t b := by
    rw [primitiveOf, ask_run, Arena.infer_of_label label]
    rfl
  simp only [binary, bind, EStateM.bind, typed first, typed second, ne_eq, not_true_eq_false,
    if_false, select]
  rfl

end Body

namespace Demo

open Body Lower
open Wasm (Bounds CallOutcome Datum Instance Instr Program)

structure Pair (scope : Scope) : Prop where
  first : scope.lookup "a" = some (0, ⟨"a", .num .i32, .param⟩)
  second : scope.lookup "b" = some (1, ⟨"b", .num .i32, .param⟩)

def readPair (a : Arena) : Arena :=
  (a.push (.localGet 0 (.num .i32)) (some (.num .i32))).push (.localGet 1 (.num .i32))
    (some (.num .i32))

def operateOnPair (a : Arena) (op : IntArith) : Arena :=
  (readPair a).push (.binary (.intArith .w32 op) a.size (a.size + 1)) (some (.num .i32))

def callOnPair (a : Arena) (index : Node) : Arena :=
  ((readPair a).push index (some (.num .i32))).push
    (.callIndirect (readPair a).size [a.size, a.size + 1] ⟨[.i32, .i32], [.i32]⟩) (some (.num .i32))

section
variable (a : Arena) (index : Node)

theorem continues_readPair : a.Continues (readPair a) := fun id node here =>
  Arena.continues_push _ _ _ id node (a.continues_push _ _ id node here)

theorem continues_operateOnPair (op : IntArith) : (readPair a).Continues (operateOnPair a op) :=
  (readPair a).continues_push _ _

theorem continues_callOnPair : (readPair a).Continues (callOnPair a index) := fun id node here =>
  Arena.continues_push _ _ _ id node (Arena.continues_push _ _ _ id node here)

theorem node_readPair :
    (readPair a).node a.size = .ok (.localGet 0 (.num .i32)) ∧
      (readPair a).node (a.size + 1) = .ok (.localGet 1 (.num .i32)) := by
  constructor
  · exact Arena.continues_push _ _ _ _ _ (a.node_push_size _ _)
  · rw [← a.size_push (.localGet 0 (.num .i32)) (some (.num .i32))]
    exact Arena.node_push_size ..

theorem label_readPair :
    (readPair a).label a.size = .ok (.num .i32) ∧
      (readPair a).label (a.size + 1) = .ok (.num .i32) := by
  constructor
  · rw [readPair, Arena.label_push_of_lt (by simp), Arena.label_push_size]
  · rw [← a.size_push (.localGet 0 (.num .i32)) (some (.num .i32))]
    exact Arena.label_push_size ..

theorem label_callOnPair : (callOnPair a index).label ((readPair a).size + 1) = .ok (.num .i32) := by
  rw [← (readPair a).size_push index (some (.num .i32))]
  exact Arena.label_push_size ..

end

theorem readPair_run {α : Type} {b : Body} (pair : Pair b.locals)
    (f : Operand → Operand → BodyM α) :
    (do let first ← read "a"; let second ← read "b"; f first second : BodyM α) b =
      f (.plain b.arena.size) (.plain (b.arena.size + 1)) { b with arena := readPair b.arena } := by
  have second := read_number (b := { b with
    arena := b.arena.push (.localGet 0 (.num .i32)) (some (.num .i32)) }) pair.second
  rw [Arena.size_push] at second
  exact (bind_of_ok (read_number pair.first)).trans (bind_of_ok second)

theorem returnBoth_run {step : ExprId → ExprId → BodyM ExprId} {b : Body} (pair : Pair b.locals)
    (result : b.result = .num .i32) {arena : Arena} {value : ExprId}
    (made : step b.arena.size (b.arena.size + 1) { b with arena := readPair b.arena } =
      .ok value { b with arena })
    (label : arena.label value = .ok (.num .i32)) :
    returnBoth step b = .ok ⟨⟩ (b.returning arena value) := by
  have ends := giveResult_number (b := { b with arena }) result label
  exact (readPair_run pair _).trans ((bind_of_ok made).trans ends)

section
variable {b c : Build} {k : Nat}

theorem adds_returnBoth {isIndirect : Bool} {id : String} {step : ExprId → ExprId → BodyM ExprId}
    {arena : Arena} {value : ExprId} (matched : b.Matched)
    (made : ∀ body : Body, body.arena = readPair b.arena → body.callables = b.callables →
      step b.arena.size (b.arena.size + 1) body = .ok value { body with arena })
    (continues : (readPair b.arena).Continues arena) (label : arena.label value = .ok (.num .i32))
    (done : Build.define isIndirect (operatorDecl id) (returnBoth step) b = .ok (k, ⟨⟩) c) :
    b.Adds isIndirect (operatorDecl id) .i32 arena value k c := by
  have pair : Pair (b.begun (operatorDecl id)).locals := ⟨rfl, rfl⟩
  have goes : b.arena.Continues arena := fun id node here =>
    continues id node (continues_readPair _ id node here)
  exact Build.adds_define matched rfl rfl rfl goes
    (returnBoth_run pair rfl (made _ rfl rfl) label) done

theorem adds_operator {id : String} {kind : BinaryKind} {op : IntArith} (matched : b.Matched)
    (select : kind.select .i32 = some (.intArith .w32 op))
    (done : Build.indirect (operatorDecl id) (returnBoth (binary kind)) b = .ok (k, ⟨⟩) c) :
    b.Adds true (operatorDecl id) .i32 (operateOnPair b.arena op) (readPair b.arena).size k c := by
  refine adds_returnBoth matched (fun body same _ => ?_) (continues_operateOnPair _ op)
    (Arena.label_push_size ..) done
  obtain ⟨first, second⟩ := label_readPair b.arena
  rw [binary_number select (same ▸ first) (same ▸ second), same]
  rfl

/-- The call of a function through the slot that it was told when it was declared. -/
theorem adds_callViaTable {id name : String} {callee slot : Nat} (matched : b.Matched)
    (declared : b.callables[callee]? =
      some ⟨name, callee, .indirect slot, (operatorDecl name).params, .num .i32⟩)
    (done : Build.func (operatorDecl id) (returnBoth fun a b => do
      let out ← call callee [a, b]
      return out.id) b = .ok (k, ⟨⟩) c) :
    b.Adds false (operatorDecl id) .i32 (callOnPair b.arena (.const (.i32 (BitVec.ofNat 32 slot))))
      ((readPair b.arena).size + 1) k c := by
  let index : Node := .const (.i32 (BitVec.ofNat 32 slot))
  refine adds_returnBoth matched (fun body same known => ?_) (continues_callOnPair _ index)
    (label_callOnPair _ index) done
  have next := (readPair b.arena).size_push index (some (.num .i32))
  have made : i32 slot body = .ok (readPair b.arena).size
      { body with arena := (readPair b.arena).push index (some (.num .i32)) } := by
    -- the slot comes in as a number of 64 bits, whose lower half is the constant
    have narrow : (BitVec.ofInt 64 slot).setWidth 32 = BitVec.ofNat 32 slot := by
      rw [BitVec.ofInt_natCast, BitVec.setWidth_ofNat_of_le (by decide)]
    rw [← same, show index = .const (.i32 ((BitVec.ofInt 64 slot).setWidth 32)) by rw [narrow]]
    rfl
  have counted : ¬[b.arena.size, b.arena.size + 1].length ≠ (operatorDecl name).params.length :=
    fun other => other rfl
  have called : call callee [b.arena.size, b.arena.size + 1] body =
      .ok (.plain ((readPair b.arena).size + 1)) { body with arena := callOnPair b.arena index } := by
    rw [call_run, show body.callables[callee]? = _ from known ▸ declared]
    dsimp only
    rw [if_neg counted, bind_of_ok made, ← next]
    rfl
  exact bind_of_ok called

def selectorDecl (id : String) : FunctionDecl :=
  { operatorDecl id with params := (operatorDecl id).params ++ [("op", .i32)] }

theorem adds_selector {id : String} (matched : b.Matched)
    (done : Build.func (selectorDecl id) (do
      let a ← read "a"
      let b ← read "b"
      let index ← read "op"
      let out ← raw (.callIndirect index.id [a.id, b.id] ⟨[.i32, .i32], [.i32]⟩) .i32
      giveResult [out.id]) b = .ok (k, ⟨⟩) c) :
    b.Adds false (selectorDecl id) .i32 (callOnPair b.arena (.localGet 2 (.num .i32)))
      ((readPair b.arena).size + 1) k c := by
  let index : Node := .localGet 2 (.num .i32)
  let body := b.begun (selectorDecl id)
  have pair : Pair body.locals := ⟨rfl, rfl⟩
  have third : body.locals.lookup "op" = some (2, ⟨"op", .num .i32, .param⟩) := rfl
  have next := (readPair b.arena).size_push index (some (.num .i32))
  have chosen := read_number (b := { body with arena := readPair b.arena }) third
  have called : raw (.callIndirect (readPair b.arena).size [b.arena.size, b.arena.size + 1]
      ⟨[.i32, .i32], [.i32]⟩) .i32
        { body with arena := (readPair b.arena).push index (some (.num .i32)) } =
      .ok (.plain ((readPair b.arena).size + 1)) { body with arena := callOnPair b.arena index } := by
    rw [← next]
    rfl
  have ends := giveResult_number (b := { body with arena := callOnPair b.arena index }) rfl
    (label_callOnPair b.arena index)
  have goes : b.arena.Continues (callOnPair b.arena index) := fun id node here =>
    continues_callOnPair _ index id node (continues_readPair _ id node here)
  exact Build.adds_define matched rfl rfl rfl goes
    ((readPair_run pair _).trans ((bind_of_ok chosen).trans ((bind_of_ok called).trans ends))) done

end

inductive Operates (b : Build) (k : Nat) (op : BinOp) : Prop
  | mk {value left right : ExprId} (returns : b.Returns k ⟨[.i32, .i32], [.i32]⟩ value)
      (here : b.arena.node value = .ok (.binary op left right))
      (first : b.arena.node left = .ok (.localGet 0 (.num .i32)))
      (second : b.arena.node right = .ok (.localGet 1 (.num .i32))) : Operates b k op

/-- A function that hands its first two parameters to a function of the table, whose slot is what
another expression gives. -/
inductive Picks (b : Build) (k : Nat) (params : List NumType) (index : Node) : Prop
  | mk {value left right chosen : ExprId} (returns : b.Returns k ⟨params, [.i32]⟩ value)
      (here : b.arena.node value =
        .ok (.callIndirect chosen [left, right] ⟨[.i32, .i32], [.i32]⟩))
      (first : b.arena.node left = .ok (.localGet 0 (.num .i32)))
      (second : b.arena.node right = .ok (.localGet 1 (.num .i32)))
      (selected : b.arena.node chosen = .ok index) : Picks b k params index

def Seats (b : Build) (slot : Nat) (op : BinOp) : Prop :=
  ∃ k, b.table.functions[slot]? = some k ∧ Operates b k op

def Offers (b : Build) (name : String) (params : List NumType) (index : Node) : Prop :=
  ∃ k, (name, k) ∈ b.exports ∧ Picks b k params index

inductive Operator where
  | add
  | sub
  | mul
  deriving DecidableEq

namespace Operator

def place : Operator → Nat
  | add => 0
  | sub => 1
  | mul => 2

def op : Operator → IntArith
  | add => .add
  | sub => .sub
  | mul => .mul

def apply (x y : BitVec 32) : Operator → BitVec 32
  | add => x + y
  | sub => x - y
  | mul => x * y

end Operator

structure Equipped (slot : Nat) (b : Build) : Prop where
  operators : ∀ o : Operator, Seats b (slot + o.place) (.intArith .w32 o.op)
  dispatch : Offers b "dispatch" [.i32, .i32, .i32] (.localGet 2 (.num .i32))
  subViaTable : Offers b "subViaTable" [.i32, .i32] (.const (.i32 (BitVec.ofNat 32 (slot + 1))))

section
variable {b c : Build} {k slot : Nat} {op : BinOp} {params : List NumType} {index : Node}

section
variable (stays : b.Endures c)

include stays

theorem Operates.endures (operates : Operates b k op) : Operates c k op := by
  cases operates with
  | @mk value left right returns here first second =>
    have spared : b.arena.Spared (.binary op left right) := ⟨_, first, rfl, nofun⟩
    exact ⟨returns.endures stays, stays.arena _ _ here spared, stays.arena.fixed first rfl,
      stays.arena.fixed second rfl⟩

theorem Picks.endures (picks : Picks b k params index) (fixed : index.isFixed = true) :
    Picks c k params index := by
  obtain ⟨returns, here, first, second, selected⟩ := picks
  exact ⟨returns.endures stays, stays.arena.fixed here rfl, stays.arena.fixed first rfl,
    stays.arena.fixed second rfl, stays.arena.fixed selected fixed⟩

variable (goesOn : b.Later c)

include goesOn

theorem Seats.later (seats : Seats b slot op) : Seats c slot op := by
  obtain ⟨k, listed, operates⟩ := seats
  rw [IndirectTable.functions_getElem?] at listed
  obtain ⟨e, here, rfl⟩ := Option.map_eq_some_iff.1 listed
  refine ⟨e.1, ?_, operates.endures stays⟩
  rw [IndirectTable.functions_getElem?, goesOn.table _ e here]
  rfl

theorem Offers.later {name : String} (offers : Offers b name params index)
    (fixed : index.isFixed = true) : Offers c name params index := by
  obtain ⟨k, exported, picks⟩ := offers
  exact ⟨k, goesOn.exports.subset exported, picks.endures stays fixed⟩

/-- What else is declared and simplified leaves the library as it is. -/
theorem Equipped.later (equipped : Equipped slot b) : Equipped slot c where
  operators o := (equipped.operators o).later stays goesOn
  dispatch := equipped.dispatch.later stays goesOn rfl
  subViaTable := equipped.subViaTable.later stays goesOn rfl

end

theorem seats_of_adds {id : String} {op : IntArith}
    (adds : b.Adds true (operatorDecl id) .i32 (operateOnPair b.arena op)
      (readPair b.arena).size k c) :
    Seats c b.table.size (.intArith .w32 op) := by
  obtain ⟨name, kind, here, told⟩ := adds.callable
  obtain ⟨first, second⟩ := node_readPair b.arena
  have goes : (readPair b.arena).Continues c.arena := fun id node here =>
    adds.continues id node (continues_operateOnPair _ op id node here)
  exact ⟨k, (adds.matched.slot_iff here).1 (told rfl), adds.returns,
    adds.continues _ _ (Arena.node_push_size ..), goes _ _ first, goes _ _ second⟩

theorem picks_of_adds {isIndirect : Bool} {decl : FunctionDecl}
    (adds : b.Adds isIndirect decl .i32 (callOnPair b.arena index) ((readPair b.arena).size + 1) k c) :
    Picks c k decl.params.flatten index := by
  obtain ⟨first, second⟩ := node_readPair b.arena
  have chosen : ((readPair b.arena).push index (some (.num .i32))).Continues c.arena :=
    fun id node here => adds.continues id node (Arena.continues_push _ _ _ id node here)
  have goes : (readPair b.arena).Continues c.arena := fun id node here =>
    adds.continues id node (continues_callOnPair _ index id node here)
  refine ⟨adds.returns, adds.continues _ _ ?_, goes _ _ first, goes _ _ second,
    chosen _ _ (Arena.node_push_size ..)⟩
  rw [← (readPair b.arena).size_push index (some (.num .i32))]
  exact Arena.node_push_size ..

/-- Where the library is mounted, its operators are in the next slots of the table. -/
theorem equipped_of_mount (matched : b.Matched) (new : b.mounted? "indirect" = none) {args : Arguments}
    {library : Library} (done : mount .indirect args b = .ok library c) : Equipped b.table.size c := by
  obtain ⟨d, built, adopted⟩ := Build.mount_eq_ok new done
  obtain ⟨⟨add, ⟨⟩⟩, b₁, run₁, built⟩ := exists_of_bind_eq_ok built
  obtain ⟨⟨sub, ⟨⟩⟩, b₂, run₂, built⟩ := exists_of_bind_eq_ok built
  obtain ⟨⟨mul, ⟨⟩⟩, b₃, run₃, built⟩ := exists_of_bind_eq_ok built
  obtain ⟨⟨dispatch, ⟨⟩⟩, b₄, run₄, built⟩ := exists_of_bind_eq_ok built
  obtain ⟨⟨subViaTable, ⟨⟩⟩, b₅, run₅, built⟩ := exists_of_bind_eq_ok built
  cases built
  have first := adds_operator matched rfl run₁
  have second := adds_operator first.matched rfl run₂
  have third := adds_operator second.matched rfl run₃
  have fourth := adds_selector third.matched run₄
  -- the callable that the last function calls was told its slot when it was declared
  obtain ⟨name, kind, callee, told⟩ := second.callable
  cases told rfl
  have declared := (third.later.trans fourth.later).callables _ _ callee
  have fifth := adds_callViaTable fourth.matched declared run₅
  have n₂ := first.next second
  have n₃ := second.next third
  have n₄ := third.next fourth
  have n₅ := fourth.next fifth
  have size := fifth.size_callables
  have pending : d.pending = subViaTable :: dispatch :: mul :: sub :: add :: b.pending := by
    rw [fifth.pending, fourth.pending, third.pending, second.pending, first.pending]
  have awaited : ∀ e ∈ [("add", add), ("sub", sub), ("mul", mul), ("dispatch", dispatch),
      ("subViaTable", subViaTable)], e.2 ∈ d.pending ∧ e.2 < d.callables.size := by
    simp [pending]
    omega
  have distinct : [add, sub, mul, dispatch, subViaTable].Nodup := by
    simp
    omega
  have exports := Build.exports_adopt_of_pending fifth.matched awaited distinct adopted
  -- what a function is when it is declared, it still is behind the later ones and the exports
  have later₅ : d.Later c := ((Build.quiets_adopt _ _).of_ok adopted).1.tidies.course.later
  have endures₅ : d.Endures c := ((Build.endures_adopt _ _).of_ok adopted).1
  have later₄ := fifth.later.trans later₅
  have endures₄ := fifth.endures.trans endures₅
  have later₃ := fourth.later.trans later₄
  have endures₃ := fourth.endures.trans endures₄
  have later₂ := third.later.trans later₃
  have endures₂ := third.endures.trans endures₃
  have later₁ := second.later.trans later₂
  have endures₁ := second.endures.trans endures₂
  have size₁ : b₁.table.size = b.table.size + 1 := first.size rfl
  have size₂ : b₂.table.size = b.table.size + 2 := by rw [second.size rfl, size₁]
  refine ⟨fun o => ?_, ?_, ?_⟩
  · cases o with
    | add => exact (seats_of_adds first).later endures₁ later₁
    | sub => exact size₁ ▸ (seats_of_adds second).later endures₂ later₂
    | mul => exact size₂ ▸ (seats_of_adds third).later endures₃ later₃
  · exact ⟨dispatch, by simp [exports], (picks_of_adds fourth).endures endures₄ rfl⟩
  · exact ⟨subViaTable, by simp [exports],
      size₁ ▸ (picks_of_adds fifth).endures endures₅ rfl⟩

end

def operatorType : Wasm.FuncType := ⟨[.num .i32, .num .i32], [.num .i32]⟩

def operatorCode (op : IntArith) : List Instr :=
  [.localGet 0, .localGet 1, .binary (.intArith .w32 op), .ret]

def pickCode (index : Instr) (t : Nat) : List Instr :=
  [.localGet 0, .localGet 1, index, .callIndirect t 0, .ret]

theorem size_operatorCode (context : Wasm.Context) (op : IntArith) :
    Wasm.Frame.size context operatorType [] (operatorCode op) = 1 := by
  cases op <;> cbv

/-- An expression that is lowered to one instruction, which gives the slot to pick. -/
structure Finds (params : List NumType) (node : Node) (index : Instr) : Prop where
  straight : node.isStraight = true
  alone : node.children = []
  bases : ∀ c : Build, ((moduleLayout c).withVariables (params.map .num)).localBase 0 = .ok 0 ∧
    ((moduleLayout c).withVariables (params.map .num)).localBase 1 = .ok 1
  code : ∀ (c : Build) (K : Tables) (sub : ExprId → List Instr → Prop) (id : ExprId)
    (code : List Instr), NodeCode ((moduleLayout c).withVariables (params.map .num)) K sub id node
      code → code = [index]
  size : ∀ (context : Wasm.Context) (t : Nat), context.types[t]? = some operatorType →
    Wasm.Frame.size context ⟨params.map .num, [.num .i32]⟩ [] (pickCode index t) = 2

theorem finds_param : Finds [.i32, .i32, .i32] (.localGet 2 (.num .i32)) (.localGet 2) where
  straight := rfl
  alone := rfl
  bases _ := ⟨rfl, rfl⟩
  code _ _ _ _ _ coded := by
    cases coded with
    | localGet at_ =>
      cases at_
      rfl
  size context t typed := by
    simp only [Wasm.Frame.size, pickCode, Wasm.Frame.traceSeq, Wasm.Frame.trace, typed]
    cbv

theorem finds_const (v : BitVec 32) : Finds [.i32, .i32] (.const (.i32 v)) (.const (.i32 v)) where
  straight := rfl
  alone := rfl
  bases _ := ⟨rfl, rfl⟩
  code _ _ _ _ _ coded := by
    cases coded
    rfl
  size context t typed := by
    simp only [Wasm.Frame.size, pickCode, Wasm.Frame.traceSeq, Wasm.Frame.trace, typed]
    cbv

section
variable {p : Program} {rounds depth room n : Nat} {s : Wasm.Store} {x y : BitVec 32}

theorem invoke_operator {o : Operator}
    (code : p.funcs[n]? = some (.code operatorType [] (operatorCode o.op)))
    (fits : p.frame n ≤ room) :
    p.invoke (rounds + 1) (depth + 1) room n s [.num (.i32 x), .num (.i32 y)] =
      .done [.num (.i32 (o.apply x y))] s := by
  apply Program.invoke_of_body code fits
  cases o <;> rfl

/-- Code that picks a function of the table returns what this function makes of the operands. -/
theorem execSeq_pickCode {linked : Wasm.Store} {index : Instr} {t : Nat} {slot v : BitVec 32}
    {locals : Array Datum} {call : Nat → Wasm.Store → List Datum → CallOutcome}
    (first : locals[0]? = some (.num (.i32 x))) (second : locals[1]? = some (.num (.i32 y)))
    (chosen : ∀ stack, index.exec (p.env rounds call) ⟨s, locals, stack⟩ =
      .next ⟨s, locals, .num (.i32 slot) :: stack⟩)
    (target : p.target? linked slot.toNat t = some n) (tables : s.tables = linked.tables)
    (signature : p.signatures[n]? = some operatorType)
    (answer : call n s [.num (.i32 x), .num (.i32 y)] = .done [.num (.i32 v)] s) :
    Instr.execSeq (pickCode index t) (p.env rounds call) ⟨s, locals, []⟩ =
      .ret ⟨s, locals, [.num (.i32 v)]⟩ := by
  have operands : Instr.execSeq [.localGet 0, .localGet 1, index] (p.env rounds call)
      ⟨s, locals, []⟩ = .next ⟨s, locals, [.num (.i32 slot), .num (.i32 y), .num (.i32 x)]⟩ := by
    simp only [Instr.execSeq, Instr.exec, Wasm.Machine.localGet, first, second, Wasm.Machine.push,
      chosen]
  have direct : Instr.exec (.call n) (p.env rounds call)
      ⟨s, locals, [.num (.i32 y), .num (.i32 x)]⟩ = .next ⟨s, locals, [.num (.i32 v)]⟩ := by
    have operands : ([.num (.i32 y), .num (.i32 x)].take 2).reverse =
      [Datum.num (.i32 x), .num (.i32 y)] := rfl
    simp only [Instr.exec, Wasm.Machine.call, Program.env, signature, operatorType,
      List.length_cons, List.length_nil, operands, answer]
    rfl
  -- the slot is on the stack, as if it stood in the code
  have called := @Wasm.exec_callIndirect p linked rounds call slot t n target
    ⟨s, locals, [.num (.i32 y), .num (.i32 x)]⟩ tables
  have through : Instr.execSeq [.callIndirect t 0] (p.env rounds call)
      ⟨s, locals, [.num (.i32 slot), .num (.i32 y), .num (.i32 x)]⟩ =
      .next ⟨s, locals, [.num (.i32 v)]⟩ := called.trans direct
  have split : pickCode index t =
    [Instr.localGet 0, .localGet 1, index] ++ ([Instr.callIndirect t 0] ++ [Instr.ret]) := rfl
  rw [split, Instr.execSeq_append_next operands, Instr.execSeq_append_next through]
  rfl

end

/-- What the functions of the library answer where its operators are in the table from this slot on. -/
structure Calculates (bounds : Bounds) (slot : Nat) (i : Instance) : Prop where
  dispatch : ∀ (o : Operator) (x y : BitVec 32),
    Instance.call bounds "dispatch" [.i32 x, .i32 y, .i32 (BitVec.ofNat 32 (slot + o.place))] i =
      .ok [.i32 (o.apply x y)] i
  subViaTable : ∀ x y : BitVec 32,
    Instance.call bounds "subViaTable" [.i32 x, .i32 y] i = .ok [.i32 (x - y)] i

section
variable {c : Build} {k : Nat} {tableExport : Option String} {m : Wasm.Module}
  (done : c.lower tableExport = .ok m) {host : Imports} {offered : List (ImportKey × Nat)}
  {made : List Wasm.Memory} {journal : List HostCall} {i : Instance}
  (linked : Wasm.link m host offered made journal = some i)

include done linked

theorem Operates.code {op : IntArith} (operates : Operates c k (.intArith .w32 op)) :
    ∃ n, c.indexOf? k = some n ∧
      i.program.funcs[n]? = some (.code operatorType [] (operatorCode op)) ∧
      i.program.frame n = 1 := by
  cases operates with
  | @mk value left right returns here first second =>
    have straight : c.arena.Straight value := .mk here rfl fun child mem => by
      rcases List.mem_pair.1 mem with rfl | rfl
      · exact .mk first rfl nofun
      · exact .mk second rfl nofun
    obtain ⟨n, types, scratch, depth, code, context, index, -, -, coded, function, frame⟩ :=
      returns.code straight done linked
    have is : code = [.localGet 0, .localGet 1, .binary (.intArith .w32 op)] := by
      obtain ⟨depth, coded⟩ := nodeCode_of_within coded here
      cases coded with
      | binary one two =>
        rw [code_of_param one first rfl, code_of_param two second rfl]
        rfl
    subst is
    exact ⟨n, index, function, frame.trans (size_operatorCode context op)⟩

theorem Picks.code {params : List NumType} {node : Node} {index : Instr}
    (picks : Picks c k params node) (finds : Finds params node index) :
    ∃ n t, c.indexOf? k = some n ∧ m.types[t]? = some operatorType ∧
      i.program.funcs[n]? = some (.code ⟨params.map .num, [.num .i32]⟩ [] (pickCode index t)) ∧
      i.program.frame n = 2 := by
  cases picks with
  | @mk value left right chosen returns here first second selected =>
    have straight : c.arena.Straight value := .mk here rfl fun child mem => by
      rcases List.mem_append.1 mem with operand | last
      · rcases List.mem_pair.1 operand with rfl | rfl
        · exact .mk first rfl nofun
        · exact .mk second rfl nofun
      · rw [List.mem_singleton.1 last]
        exact .mk selected finds.straight (by simp [finds.alone])
    obtain ⟨n, types, scratch, depth, code, context, number, listed, same, coded, function, frame⟩ :=
      returns.code straight done linked
    have is : ∃ t, m.types[t]? = some operatorType ∧ code ++ [Instr.ret] = pickCode index t := by
      obtain ⟨base, base'⟩ := finds.bases c
      obtain ⟨depth, coded⟩ := nodeCode_of_within coded here
      cases coded with
      | @callIndirect _ _ _ t before inSlot operands slot known =>
        have pair : before = [.localGet 0, .localGet 1] := by
          cases operands with
          | cons one rest =>
            cases rest with
            | cons two none =>
              cases none
              rw [code_of_param one first base, code_of_param two second base']
              rfl
        obtain ⟨depth, slot⟩ := nodeCode_of_within slot selected
        have found : inSlot = [index] := finds.code _ _ _ _ _ slot
        have known : types[t]? = some ⟨[.i32, .i32], [.i32]⟩ := known
        refine ⟨t, ?_, by rw [pair, found]; rfl⟩
        rw [listed, List.getElem?_map, known]
        rfl
    obtain ⟨t, typed, is⟩ := is
    rw [is] at function frame
    refine ⟨n, t, number, typed, function, frame.trans (finds.size context t ?_)⟩
    rw [same, List.getElem?_toArray, typed]

variable (valid : m.isValid = true) {bounds : Bounds} (room : 3 ≤ bounds.room)
  (rounds : 0 < bounds.rounds) {s : Wasm.Store} (tables : s.tables = i.store.tables)

include valid room rounds tables

/-- A function that picks from the table answers with the operator in the slot that it is given. -/
theorem call_of_offers {name : String} {params : List NumType} {node : Node} {index : Instr}
    {o : Operator} {slot : Nat} (offers : Offers c name params node)
    (finds : Finds params node index) (seats : Seats c slot (.intArith .w32 o.op))
    {x y : BitVec 32} {rest : List Value}
    (typed : params = (.i32 x :: .i32 y :: rest).map Value.type)
    (chosen : ∀ (e : Wasm.Env) (stack : List Datum),
      index.exec e ⟨s, ((Value.i32 x :: .i32 y :: rest).map Datum.num).toArray, stack⟩ =
        .next ⟨s, ((Value.i32 x :: .i32 y :: rest).map Datum.num).toArray,
          .num (.i32 (BitVec.ofNat 32 slot)) :: stack⟩) :
    Instance.call bounds name (.i32 x :: .i32 y :: rest) { i with store := s } =
      .ok [.i32 (o.apply x y)] { i with store := s } := by
  obtain ⟨k, exported, picks⟩ := offers
  obtain ⟨k', listed, operates⟩ := seats
  obtain ⟨types, -, known⟩ := linked_of_link done linked
  obtain ⟨n, t, number, type, function, frame⟩ := picks.code done linked finds
  obtain ⟨n', number', function', frame'⟩ := operates.code done linked
  have target : i.program.signatures[n']? = some operatorType ∧
      i.program.target? i.store (BitVec.ofNat 32 slot).toNat t = some n' := by
    obtain ⟨⟨declared, -, signature, -, -⟩, -, -, -⟩ := operates
    have target := target_of_link done linked listed declared number' (t := t)
      (by rw [type, signature]; rfl)
    rwa [signature] at target
  have here : Instance.Offers { i with store := s } name n ⟨params.map .num, [.num .i32]⟩ []
      (pickCode index t) := by
    refine ⟨(exportedFunc?_of_mem done linked valid exported).trans number, function, ?_⟩
    show i.program.signatures[n]? = _
    rw [known.signatures, Array.getElem?_map, function]
    rfl
  obtain ⟨rounds', room'⟩ := bounds
  obtain ⟨r, rfl⟩ := Nat.exists_eq_succ_of_ne_zero (Nat.pos_iff_ne_zero.1 rounds)
  obtain ⟨d, rfl⟩ := Nat.exists_eq_add_of_le' room
  -- the operator runs in what the frame of the function that picks it leaves of the room
  have fits : i.program.frame n ≤ d + 3 := by omega
  have fits' : i.program.frame n' ≤ d + 3 - i.program.frame n := by omega
  have answer := @invoke_operator i.program r (d + 1) _ n' s x y o function' fits'
  have ends : Instr.execSeq (pickCode index t)
      (Instance.bodyEnv { i with store := s } ⟨r + 1, d + 3⟩ n)
      ⟨s, ((Value.i32 x :: .i32 y :: rest).map Datum.num ++
        ([] : List Wasm.ValType).map Datum.zero).toArray, []⟩ =
      .ret ⟨s, ((Value.i32 x :: .i32 y :: rest).map Datum.num).toArray,
        [.num (.i32 (o.apply x y))]⟩ := by
    rw [List.map_nil, List.append_nil]
    exact execSeq_pickCode rfl rfl (chosen _) target.2 tables target.1 answer
  exact here.returns (by simp [typed]) fits (Nat.succ_pos _) rounds (.inl ends) (Nat.le_refl 1)

theorem calculates_of_equipped {slot : Nat} (equipped : Equipped slot c) :
    Calculates bounds slot { i with store := s } where
  dispatch o _ _ := call_of_offers done linked valid room rounds tables equipped.dispatch finds_param
    (equipped.operators o) rfl fun _ _ => rfl
  subViaTable _ _ := call_of_offers done linked valid room rounds tables equipped.subViaTable
    (finds_const _) (equipped.operators .sub) rfl fun _ _ => rfl

end

/-- Whatever is declared in front of the library and behind it, its functions calculate: what selects
an operator is its slot, that is its place in the library behind the functions that were in the table
before, and the function that goes through a slot of its own subtracts. -/
theorem dispatch_calculates {permits : Session → Body.Step → Prop} {s t : Session} {args : Arguments}
    {library : Library} {b c : Build} {handed : List Operand} {options : CompileOptions}
    {m : Wasm.Module} {host : Imports} {starting bounds : Bounds} {journal journal' : List HostCall}
    {i : Instance} (reached : Session.Reached permits s) (idle : s.body = none)
    (new : s.build.mounted? "indirect" = none)
    (mounted : mount .indirect args s.build = .ok library b)
    (leads : Session.Leads permits ⟨b, none, handed⟩ t) (idle' : t.body = none)
    (done : Build.assemble options t.build = .ok m c) (valid : m.isValid = true)
    (ran : Wasm.instantiate m host starting journal = .ok i journal') (room : 3 ≤ bounds.room)
    (rounds : 0 < bounds.rounds) (calls : List (String × List Value)) :
    Calculates bounds s.build.table.size (i.answers bounds calls).2 := by
  have matched : s.build.Matched := by
    rw [← Session.current_of_idle idle]
    exact Session.matched_of_reached reached
  have ⟨_, _, lowered, _⟩ := Build.assemble_eq_ok done
  have equipped := equipped_of_mount matched new mounted
  have later := leads.later
  have endures := leads.endures
  rw [Session.current_of_idle idle', Session.current_of_idle rfl] at later endures
  have later' := ((Build.tidies_assemble options).of_ok done).1.course.later
  have endures' := ((Build.endures_assemble options).of_ok done).1
  have equipped := equipped.later (endures.trans endures') (later.trans later')
  obtain ⟨made, linked, store, link, kept, rfl⟩ := exists_kept lowered ran
  obtain ⟨types, -, known⟩ := linked_of_link lowered link
  obtain ⟨u, kept, last⟩ := Instance.answers_kept known.signatures known.plain bounds calls kept
  rw [last]
  exact calculates_of_equipped lowered link valid room rounds kept.tables equipped

def firstBuild : Build where
  arena := ⟨#[⟨.localGet 0 (.num .i32), some (.num .i32)⟩, ⟨.ret (some 0), some .none⟩]⟩
  functions := #[⟨"first", [.num .i32, .num .i32], .num .i32, .defined
    ⟨#[⟨"a", .num .i32, .param⟩, ⟨"b", .num .i32, .param⟩]⟩ [1]⟩]
  callables := #[⟨"first", 0, .indirect 0, (operatorDecl "first").params, .num .i32⟩]
  pending := [0]
  table := ⟨#[(0, ⟨0, "first", (operatorDecl "first").params, .num .i32⟩)]⟩

theorem reached_firstBuild :
    ∃ handed, Session.Reached (fun _ _ => True) ⟨firstBuild, none, handed⟩ := by
  let draft : Build.Draft := ⟨true, "first", operatorDecl "first"⟩
  have opened : Session.Reached (fun _ _ => True)
      ⟨{}, some (.function draft, Build.newBody {} draft.scope .local .i32), []⟩ :=
    Session.Reached.start.next
      (.openFunction rfl (Build.openFunction_of_free rfl (by simp [Build.isTaken, Session.fresh])))
  have read := opened.take rfl (.read "a") trivial rfl
  have given := read.take rfl (.giveResult [0]) trivial rfl
  refine ⟨_, given.close rfl ?_⟩
  cbv

def besideFirst : Build := Build.left (mount .indirect []) firstBuild

def besideFirstModule : Wasm.Module where
  types := [⟨[.num .i32, .num .i32], [.num .i32]⟩,
    ⟨[.num .i32, .num .i32, .num .i32], [.num .i32]⟩]
  funcs := [⟨0, [], [.localGet 0, .ret]⟩, ⟨0, [], operatorCode .add⟩, ⟨0, [], operatorCode .sub⟩,
    ⟨0, [], operatorCode .mul⟩, ⟨1, [], pickCode (.localGet 2) 0⟩,
    ⟨0, [], pickCode (.const (.i32 2)) 0⟩]
  tables := [tableType 4]
  exports := [⟨"add", .func, 1⟩, ⟨"sub", .func, 2⟩, ⟨"mul", .func, 3⟩, ⟨"dispatch", .func, 4⟩,
    ⟨"subViaTable", .func, 5⟩]
  elements := [⟨.active 0 [.const (.i32 0)], .func, [.func 0, .func 1, .func 2, .func 3]⟩]

set_option maxRecDepth 10000 in
theorem mount_besideFirst : mount .indirect [] firstBuild =
    .ok ⟨[("add", 1), ("sub", 2), ("mul", 3), ("dispatch", 4), ("subViaTable", 5)]⟩ besideFirst := by
  cbv

set_option maxRecDepth 10000 in
theorem lowersTo_besideFirst : besideFirst.LowersTo besideFirstModule where
  usable := by cbv
  settled := by cbv
  lowered := by cbv

theorem isValid_besideFirstModule : besideFirstModule.isValid = true := by decide +kernel

theorem assemble_besideFirst : Build.assemble {} besideFirst = .ok besideFirstModule besideFirst :=
  Build.assemble_of_lower lowersTo_besideFirst.usable (lowersTo_besideFirst.simplified true)
    lowersTo_besideFirst.lowered fun _ => isValid_besideFirstModule

/-- Behind one function, the first operator is the one that the selector 1 reaches. -/
theorem dispatch_calculates_of_first : ∃ (s : Session) (library : Library) (i : Instance)
    (journal : List HostCall), Session.Reached (fun _ _ => True) s ∧ s.body = none ∧
    s.build.mounted? "indirect" = none ∧ s.build.table.size = 1 ∧
    mount .indirect [] s.build = .ok library besideFirst ∧
    Build.assemble {} besideFirst = .ok besideFirstModule besideFirst ∧
    besideFirstModule.isValid = true ∧
    Wasm.instantiate besideFirstModule {} {} [] = .ok i journal ∧
    Calculates {} 1 (i.answers {} [("add", [.i32 10, .i32 3])]).2 := by
  obtain ⟨handed, reached⟩ := reached_firstBuild
  obtain ⟨i, journal, made, -⟩ := Session.exists_of_answersMade
    (show Session.answersMade [] (Wasm.instantiate besideFirstModule {} {} []) = some [] by cbv)
  let mounted : Session := ⟨besideFirst, none, []⟩
  have leads : Session.Leads (fun _ _ => True) mounted mounted := .refl
  have calculates := dispatch_calculates reached rfl rfl mount_besideFirst leads rfl
    assemble_besideFirst isValid_besideFirstModule made (show 3 ≤ Bounds.room {} by decide)
    (by decide) [("add", [.i32 10, .i32 3])]
  exact ⟨_, _, i, journal, reached, rfl, rfl, rfl, mount_besideFirst, assemble_besideFirst,
    isValid_besideFirstModule, made, calculates⟩

/-- The selector 0 reaches that function there, where only the call through a slot of its own subtracts
as it should. -/
theorem dispatch_reaches_first : ∃ (s : Session) (library : Library) (i : Instance)
    (journal : List HostCall), Session.Reached (fun _ _ => True) s ∧ s.body = none ∧
    mount .indirect [] s.build = .ok library besideFirst ∧
    Build.assemble {} besideFirst = .ok besideFirstModule besideFirst ∧
    Wasm.instantiate besideFirstModule {} {} [] = .ok i journal ∧
    (i.answers {} [("dispatch", [.i32 10, .i32 3, .i32 0]), ("subViaTable", [.i32 10, .i32 3])]).1 =
      [.ok [.i32 10], .ok [.i32 7]] ∧
    (10 : BitVec 32) + 3 ≠ 10 := by
  obtain ⟨handed, reached⟩ := reached_firstBuild
  obtain ⟨i, journal, made, answers⟩ := Session.exists_of_answersMade
    (show Session.answersMade [("dispatch", [.i32 10, .i32 3, .i32 0]),
        ("subViaTable", [.i32 10, .i32 3])] (Wasm.instantiate besideFirstModule {} {} []) =
      some [.ok [.i32 10], .ok [.i32 7]] by
      cbv)
  exact ⟨_, _, i, journal, reached, rfl, mount_besideFirst, assemble_besideFirst, made, answers,
    by decide⟩

end Demo

end WasmBuilder
