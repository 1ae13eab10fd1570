import WasmBuilder.Proofs.Lowering.Scratch
import WasmBuilder.Wasm.Machine

/-!
What code an expression gets, apart from the tables that lowering fills on the way.

Lowering adds function types and scratch locals as it goes and never takes any away, so each piece
of code can be described by the tables as they are at the end: `NodeCode` says what code a node
gets, given the code of its operands.
-/

set_option autoImplicit false

namespace WasmBuilder.Lower

open Wasm (Instr BlockType)

/-- The function types and the types of the scratch locals that code refers to. -/
structure Tables where
  types : List Signature
  scratch : List NumType

structure Tables.Extends (old new : Tables) : Prop where
  types : old.types <+: new.types
  scratch : old.scratch <+: new.scratch

namespace Tables.Extends

variable {a b c : Tables}

theorem refl (a : Tables) : Tables.Extends a a := ⟨List.prefix_rfl, List.prefix_rfl⟩

theorem trans (first : a.Extends b) (second : b.Extends c) : a.Extends c :=
  ⟨first.types.trans second.types, first.scratch.trans second.scratch⟩

end Tables.Extends

def LowerState.tables (s : LowerState) : Tables := ⟨s.types.toList, s.scratchTypes⟩

/-- A computation that leaves no scratch local in use and only adds to the tables, and whose answer
satisfies `P` of all tables that have what was added. -/
def Yields {α : Type} (m : LowerM α) (P : Tables → α → Prop) : Prop :=
  ∀ (s : LowerState) (x : α) (t : LowerState), s.Free → m s = .ok (x, t) →
    s.tables.Extends t.tables ∧ t.Free ∧ ∀ K : Tables, t.tables.Extends K → P K x

namespace Yields

variable {α β : Type} {P : Tables → α → Prop} {Q : Tables → β → Prop}

theorem pure {x : α} (holds : ∀ K, P K x) : Yields (Pure.pure x) P := by
  rintro s _ _ free ⟨⟩
  exact ⟨.refl _, free, fun K _ => holds K⟩

theorem throw {e : BuildError} : Yields (MonadExcept.throw e) P := by
  intro s x t _ done
  cases done

theorem throw_bind {e : BuildError} {f : α → LowerM β} :
    Yields (MonadExcept.throw e >>= f) Q := by
  intro s x t _ done
  cases done

theorem lift (e : Except BuildError α) : Yields (liftM e) fun _ x => e = .ok x := by
  intro s x t free done
  cases e with
  | error e => cases done
  | ok y =>
    cases done
    exact ⟨.refl _, free, fun _ _ => rfl⟩

theorem weaken {P' : Tables → α → Prop} {m : LowerM α} (yields : Yields m P)
    (implies : ∀ K x, P K x → P' K x) : Yields m P' := by
  intro s x t free done
  obtain ⟨grown, free', holds⟩ := yields s x t free done
  exact ⟨grown, free', fun K le => implies K x (holds K le)⟩

theorem bind {m : LowerM α} {f : α → LowerM β} (first : Yields m P)
    (second : ∀ x, Yields (f x) fun K y => P K x → Q K y) : Yields (m >>= f) Q := by
  intro s y u free done
  cases run : m s with
  | error e => simp [Bind.bind, StateT.bind, Except.bind, run] at done
  | ok result =>
    obtain ⟨x, t⟩ := result
    have rest : f x t = .ok (y, u) := by
      simpa [Bind.bind, StateT.bind, Except.bind, run] using done
    obtain ⟨grown, free', holds⟩ := first s x t free run
    obtain ⟨more, free'', implies⟩ := second x t y u free' rest
    exact ⟨grown.trans more, free'', fun K le => implies K le (holds K (more.trans le))⟩

end Yields

theorem getElem?_of_prefix {α : Type} {xs ys : List α} {i : Nat} {x : α} (le : xs <+: ys)
    (here : xs[i]? = some x) : ys[i]? = some x := by
  obtain ⟨more, rfl⟩ := le
  rw [List.getElem?_append_left (List.getElem?_eq_some_iff.1 here).1, here]

/-- The index of a function type leads to the type. -/
theorem yields_intern (signature : Signature) :
    Yields (intern signature) fun K i => K.types[i]? = some signature := by
  intro s i t free done
  unfold intern at done
  split at done
  next j found =>
    cases done
    obtain ⟨inside, here, _⟩ := Array.findIdx?_eq_some_iff_getElem.1 found
    refine ⟨.refl _, free, fun K le => ?_⟩
    have there : s.tables.types[i]? = some signature := by
      simp only [LowerState.tables, Array.getElem?_toList, Array.getElem?_eq_getElem inside]
      exact congrArg some (of_decide_eq_true here)
    exact getElem?_of_prefix le.types there
  next missing =>
    cases done
    refine ⟨⟨by simp [LowerState.tables], List.prefix_rfl⟩, free, fun K le => ?_⟩
    exact getElem?_of_prefix le.types (by simp [LowerState.tables])

theorem yields_spill (ts : List NumType) :
    Yields (spill ts) fun K is => Ranked K.scratch (fun _ => 0) ts is := by
  intro s is t free done
  obtain ⟨js, t', run, free', types, scratch, ranked, _⟩ := spill_spec free ts
  rw [run] at done
  cases done
  refine ⟨⟨?_, scratch⟩, free', fun K le => ranked.of_prefix le.scratch⟩
  simp only [LowerState.tables, types]
  exact List.prefix_rfl

inductive BlockCode (K : Tables) : List NumType → BlockType → Prop
  | empty : BlockCode K [] .empty
  | value (t : NumType) : BlockCode K [t] (.value (.num t))
  | index {ts : List NumType} {i : Nat} (many : 2 ≤ ts.length)
      (listed : K.types[i]? = some ⟨[], ts⟩) : BlockCode K ts (.index i)

theorem yields_blockType (ts : List NumType) :
    Yields (blockType ts) fun K type => BlockCode K ts type := by
  match ts with
  | [] => exact Yields.pure fun _ => .empty
  | [t] => exact Yields.pure fun _ => .value t
  | a :: b :: rest =>
    refine (yields_intern ⟨[], a :: b :: rest⟩).bind fun i => Yields.pure fun K listed => ?_
    exact .index (by simp) listed

theorem funcIndex_eq_ok_iff {l : Layout} {func n : Nat} :
    l.funcIndex func = .ok n ↔ l.funcIndices[func]? = some n := by
  unfold Layout.funcIndex
  cases l.funcIndices[func]? with
  | none => simp
  | some i => simp

def Layout.Fills (l : Layout) (functions : List Nat) (s : Wasm.Store) : Prop :=
  ∃ t, s.tables[0]? = some t ∧ ∀ slot, t.get? slot = (functions[slot]?).bind fun func =>
    (l.funcIndices[func]?).map fun n => .func (some n)

section
variable (l : Layout) (sub : ExprId → List Instr → Prop)

inductive Codes : List ExprId → List Instr → Prop
  | nil : Codes [] []
  | cons {id : ExprId} {rest : List ExprId} {code others : List Instr} (first : sub id code)
      (second : Codes rest others) : Codes (id :: rest) (code ++ others)

inductive StatementCode : ExprId → List Instr → Prop
  | mk {id : ExprId} {code : List Instr} {ts : List NumType} (value : sub id code)
      (slots : l.arena.slots id = .ok ts) :
      StatementCode id (code ++ ts.map fun _ => .drop)

/-- Code of items, of which the last leaves its value if there is one. -/
inductive SequenceCode : (value : Bool) → List ExprId → List Instr → Prop
  | statements {ids : List ExprId} {code : List Instr}
      (all : Codes (StatementCode l sub) ids code) : SequenceCode false ids code
  | empty : SequenceCode true [] []
  | value {items ids : List ExprId} {last : ExprId} {code final : List Instr}
      (split : items = ids ++ [last]) (others : Codes (StatementCode l sub) ids code)
      (result : sub last final) : SequenceCode true items (code ++ final)

end

theorem Codes.append {sub : ExprId → List Instr → Prop} {first second : List ExprId}
    {code : List Instr} (codes : Codes sub (first ++ second) code) :
    ∃ one two, code = one ++ two ∧ Codes sub first one ∧ Codes sub second two := by
  induction first generalizing code with
  | nil => exact ⟨[], code, rfl, .nil, codes⟩
  | cons id rest ih =>
    cases codes with
    | @cons _ _ here others head tail =>
      obtain ⟨one, two, rfl, before, behind⟩ := ih tail
      exact ⟨here ++ one, two, (List.append_assoc ..).symm, .cons head before, behind⟩

/-- Code of a node, given the code of its operands. -/
inductive NodeCode (l : Layout) (K : Tables) (sub : ExprId → List Instr → Prop) (id : ExprId) :
    Node → List Instr → Prop
  | const (v : Value) : NodeCode l K sub id (.const v) [.const v]
  | localGet {slot base : Nat} {shape : Shape} (at_ : l.localBase slot = .ok base) :
      NodeCode l K sub id (.localGet slot shape)
        ((List.range shape.width).map fun i => .localGet (base + i))
  | localSet {slot base : Nat} {shape : Shape} {value : ExprId} {code : List Instr}
      (at_ : l.localBase slot = .ok base) (operand : sub value code) :
      NodeCode l K sub id (.localSet slot shape value)
        (code ++ (List.range shape.width).reverse.map fun i => .localSet (base + i))
  | globalGet {global base : Nat} {shape : Shape} (at_ : l.globalBase global = .ok base) :
      NodeCode l K sub id (.globalGet global shape)
        ((List.range shape.width).map fun i => .globalGet (base + i))
  | globalSet {global base : Nat} {shape : Shape} {value : ExprId} {code : List Instr}
      (at_ : l.globalBase global = .ok base) (operand : sub value code) :
      NodeCode l K sub id (.globalSet global shape value)
        (code ++ (List.range shape.width).reverse.map fun i => .globalSet (base + i))
  | binary {op : BinOp} {left right : ExprId} {code other : List Instr} (first : sub left code)
      (second : sub right other) :
      NodeCode l K sub id (.binary op left right) (code ++ other ++ [Instr.binary op])
  | unary {op : UnOp} {operand : ExprId} {code : List Instr} (value : sub operand code) :
      NodeCode l K sub id (.unary op operand) (code ++ [Instr.unary op])
  | call {func index : Nat} {args : List ExprId} {signature : Signature} {code : List Instr}
      (operands : Codes sub args code) (at_ : l.funcIndex func = .ok index) :
      NodeCode l K sub id (.call func args signature) (code ++ [Instr.call index])
  | callIndirect {index : ExprId} {args : List ExprId} {signature : Signature} {type : Nat}
      {code slot : List Instr} (operands : Codes sub args code) (chosen : sub index slot)
      (listed : K.types[type]? = some signature) :
      NodeCode l K sub id (.callIndirect index args signature)
        (code ++ slot ++ [Instr.callIndirect type 0])
  | block {items : List ExprId} {shape : Shape} {ts : List NumType} {code : List Instr}
      (slots : l.arena.slots id = .ok ts) (body : SequenceCode l sub (!ts.isEmpty) items code) :
      NodeCode l K sub id (.block items shape) code
  | group {items : List ExprId} {code : List Instr} (operands : Codes sub items code) :
      NodeCode l K sub id (.group items) code
  | extractLocal {composite : ExprId} {index offset width slot base : Nat} {shape : Shape}
      (read : l.arena.node composite = .ok (.localGet slot shape))
      (at_ : l.localBase slot = .ok base) :
      NodeCode l K sub id (.extract composite index offset width)
        ((Layout.slice base offset width).map .localGet)
  | extractGlobal {composite : ExprId} {index offset width global base : Nat} {shape : Shape}
      (read : l.arena.node composite = .ok (.globalGet global shape))
      (at_ : l.globalBase global = .ok base) :
      NodeCode l K sub id (.extract composite index offset width)
        ((Layout.slice base offset width).map .globalGet)
  | extract {composite : ExprId} {index offset width : Nat} {all : List NumType}
      {code : List Instr} {spilled : List Nat}
      (noLocal : ∀ slot shape, l.arena.node composite ≠ .ok (.localGet slot shape))
      (noGlobal : ∀ global shape, l.arena.node composite ≠ .ok (.globalGet global shape))
      (slots : l.arena.slots composite = .ok all)
      (fits : offset + width ≤ all.length) (value : sub composite code)
      (locals : Ranked K.scratch (fun _ => 0) all spilled) :
      NodeCode l K sub id (.extract composite index offset width)
        (code ++ (spilled.map (l.scratchBase + ·)).reverse.map .localSet ++
          (((spilled.map (l.scratchBase + ·)).drop offset).take width).map .localGet)
  | chooseBoth {cond : ExprId} {thenItems elseItems : List ExprId} {shape : Shape}
      {ts : List NumType} {code first second : List Instr} {type : BlockType}
      (slots : l.arena.slots id = .ok ts) (decided : sub cond code) (leaves : BlockCode K ts type)
      (yes : SequenceCode l sub (!ts.isEmpty) thenItems first)
      (no : SequenceCode l sub (!ts.isEmpty) elseItems second) :
      NodeCode l K sub id (.choose cond thenItems elseItems shape)
        (code ++ [Instr.ifElse type first second])
  | chooseOne {cond : ExprId} {thenItems : List ExprId} {shape : Shape} {code first : List Instr}
      (slots : l.arena.slots id = .ok []) (decided : sub cond code)
      (yes : SequenceCode l sub false thenItems first) :
      NodeCode l K sub id (.choose cond thenItems [] shape) (code ++ [Instr.ifThen .empty first])
  | loop {init step body : List ExprId} {cond : ExprId}
      {initCode condCode bodyCode stepCode : List Instr}
      (before : Codes (StatementCode l sub) init initCode) (test : sub cond condCode)
      (inside : Codes (StatementCode l sub) body bodyCode)
      (behind : Codes (StatementCode l sub) step stepCode) :
      NodeCode l K sub id (.loop init cond step body)
        (initCode ++ [Instr.block .empty [.loop .empty
          (condCode ++ [Instr.unary (.eqz .w32), .brIf 1] ++ bodyCode ++ stepCode ++
            [Instr.br 0])]])
  | leave : NodeCode l K sub id (.ret none) [.ret]
  | ret {value : ExprId} {code : List Instr} (result : sub value code) :
      NodeCode l K sub id (.ret (some value)) (code ++ [Instr.ret])
  | load {type : NumType} {addr : ExprId} {offset : Nat} {code : List Instr}
      (place : sub addr code) :
      NodeCode l K sub id (.load type addr offset)
        (code ++ [Instr.load type ⟨type.alignLog2, offset, 0⟩])
  | store {type : NumType} {addr value : ExprId} {offset : Nat} {code other : List Instr}
      (place : sub addr code) (stored : sub value other) :
      NodeCode l K sub id (.store type addr value offset)
        (code ++ other ++ [Instr.store type ⟨type.alignLog2, offset, 0⟩])
  | memorySize : NodeCode l K sub id .memorySize [.memorySize 0]
  | memoryGrow {delta : ExprId} {code : List Instr} (amount : sub delta code) :
      NodeCode l K sub id (.memoryGrow delta) (code ++ [Instr.memoryGrow 0])
  | nop : NodeCode l K sub id .nop []

def CodeWithin (l : Layout) (K : Tables) : (depth : Nat) → ExprId → List Instr → Prop
  | 0, _, _ => False
  | depth + 1, id, code =>
    ∃ node, l.arena.node id = .ok node ∧ NodeCode l K (CodeWithin l K depth) id node code

section
variable {l : Layout} {lower : ExprId → LowerM (List Instr)}
  {sub : Tables → ExprId → List Instr → Prop}
  (each : ∀ id, Yields (lower id) fun K code => sub K id code)

include each

theorem yields_operands (ids : List ExprId) :
    Yields (Layout.operands lower ids) fun K code => Codes (sub K) ids code := by
  induction ids with
  | nil => exact Yields.pure fun _ => .nil
  | cons id rest ih =>
    refine (each id).bind fun code => ih.bind fun others => ?_
    exact Yields.pure fun K second first => .cons first second

theorem yields_statement (id : ExprId) :
    Yields (l.statement lower id) fun K code => StatementCode l (sub K) id code := by
  refine (each id).bind fun code => (Yields.lift _).bind fun ts => ?_
  exact Yields.pure fun K slots value => .mk value slots

theorem yields_statements (ids : List ExprId) :
    Yields (l.statements lower ids) fun K code => Codes (StatementCode l (sub K)) ids code := by
  induction ids with
  | nil => exact Yields.pure fun _ => .nil
  | cons id rest ih =>
    refine (yields_statement each id).bind fun code => ih.bind fun others => ?_
    exact Yields.pure fun K second first => .cons first second

theorem yields_sequence (value : Bool) (ids : List ExprId) :
    Yields (l.sequence lower value ids) fun K code => SequenceCode l (sub K) value ids code := by
  induction ids with
  | nil =>
    cases value with
    | true => exact Yields.pure fun _ => .empty
    | false => exact Yields.pure fun _ => .statements .nil
  | cons id rest ih =>
    cases rest with
    | nil =>
      cases value with
      | true => exact (each id).weaken fun K code result => .value rfl .nil result
      | false =>
        refine (yields_statement each id).weaken fun K code only => ?_
        have one := Codes.cons only .nil
        rw [List.append_nil] at one
        exact .statements one
    | cons next rest =>
      refine (yields_statement each id).bind fun code => ih.bind fun others => ?_
      refine Yields.pure fun K tail first => ?_
      cases tail with
      | statements all => exact .statements (.cons first all)
      | value split before result =>
        rw [← List.append_assoc]
        exact .value (by rw [split, List.cons_append]) (.cons first before) result

theorem yields_extract (id composite : ExprId) (index offset width : Nat) :
    Yields (l.extract lower composite offset width) fun K code =>
      NodeCode l K (sub K) id (.extract composite index offset width) code := by
  refine (Yields.lift _).bind fun node => ?_
  split
  next slot shape =>
    exact (Yields.lift _).bind fun base => Yields.pure fun _ at_ read => .extractLocal read at_
  next global shape =>
    exact (Yields.lift _).bind fun base => Yields.pure fun _ at_ read => .extractGlobal read at_
  next notLocal notGlobal =>
    refine (Yields.lift _).bind fun all => ?_
    dsimp only
    split
    · exact Yields.throw_bind
    next long =>
      refine (each composite).bind fun code => (yields_spill all).bind fun spilled => ?_
      refine Yields.pure fun K locals value slots here => ?_
      have fits : offset + width ≤ all.length := Nat.le_of_not_lt long
      refine .extract (fun slot shape read => ?_) (fun global shape read => ?_) slots fits value locals
      · rw [here] at read
        exact notLocal slot shape (Except.ok.inj read)
      · rw [here] at read
        exact notGlobal global shape (Except.ok.inj read)

theorem yields_node (id : ExprId) (n : Node) :
    Yields (l.node lower id n) fun K code => NodeCode l K (sub K) id n code := by
  cases n with
  | const v => exact Yields.pure fun _ => .const v
  | localGet slot shape =>
    exact (Yields.lift _).bind fun base => Yields.pure fun _ at_ => .localGet at_
  | localSet slot shape value =>
    refine (Yields.lift _).bind fun base => (each value).bind fun code => ?_
    exact Yields.pure fun _ operand at_ => .localSet at_ operand
  | globalGet global shape =>
    exact (Yields.lift _).bind fun base => Yields.pure fun _ at_ => .globalGet at_
  | globalSet global shape value =>
    refine (Yields.lift _).bind fun base => (each value).bind fun code => ?_
    exact Yields.pure fun _ operand at_ => .globalSet at_ operand
  | binary op left right =>
    refine (each left).bind fun code => (each right).bind fun other => ?_
    exact Yields.pure fun _ second first => .binary first second
  | unary op operand => exact (each operand).bind fun code => Yields.pure fun _ value => .unary value
  | call func args signature =>
    refine (yields_operands each args).bind fun code => (Yields.lift _).bind fun index => ?_
    exact Yields.pure fun _ at_ operands => .call operands at_
  | callIndirect index args signature =>
    refine (yields_operands each args).bind fun code => (each index).bind fun slot => ?_
    refine (yields_intern signature).bind fun type => ?_
    exact Yields.pure fun _ listed chosen operands => .callIndirect operands chosen listed
  | block items shape =>
    refine (Yields.lift _).bind fun ts => (yields_sequence each _ items).weaken ?_
    exact fun _ code body slots => .block slots body
  | group items => exact (yields_operands each items).weaken fun _ _ operands => .group operands
  | extract composite index offset width => exact yields_extract each id composite index offset width
  | choose cond thenItems elseItems shape =>
    refine (Yields.lift _).bind fun ts => (each cond).bind fun code => ?_
    refine (yields_blockType ts).bind fun type => ?_
    refine (yields_sequence each _ thenItems).bind fun first => ?_
    split
    next =>
      refine (yields_sequence each _ elseItems).bind fun second => ?_
      exact Yields.pure fun _ no yes leaves decided slots => .chooseBoth slots decided leaves yes no
    next one =>
      simp only [Bool.or_eq_true, Bool.not_eq_true', not_or, Bool.not_eq_false,
        List.isEmpty_iff] at one
      obtain ⟨rfl, rfl⟩ := one
      refine Yields.pure fun _ yes leaves decided slots => ?_
      cases leaves with
      | empty => exact .chooseOne slots decided yes
      | index many => simp at many
  | loop init cond step body =>
    refine (yields_statements each init).bind fun initCode => (each cond).bind fun condCode => ?_
    refine (yields_statements each body).bind fun bodyCode => ?_
    refine (yields_statements each step).bind fun stepCode => ?_
    exact Yields.pure fun _ behind inside test before => .loop before test inside behind
  | ret value =>
    cases value with
    | none => exact Yields.pure fun _ => .leave
    | some value => exact (each value).bind fun code => Yields.pure fun _ result => .ret result
  | load type addr offset =>
    exact (each addr).bind fun code => Yields.pure fun _ place => .load place
  | store type addr value offset =>
    refine (each addr).bind fun code => (each value).bind fun other => ?_
    exact Yields.pure fun _ stored place => .store place stored
  | memorySize => exact Yields.pure fun _ => .memorySize
  | memoryGrow delta => exact (each delta).bind fun code => Yields.pure fun _ amount => .memoryGrow amount
  | nop => exact Yields.pure fun _ => .nop

end

variable (l : Layout)

theorem yields_exprWithin (depth : Nat) (id : ExprId) :
    Yields (l.exprWithin depth id) fun K code => CodeWithin l K depth id code := by
  induction depth generalizing id with
  | zero => exact Yields.throw
  | succ depth ih =>
    refine (Yields.lift _).bind fun node => ?_
    refine (yields_node ih id node).weaken fun K code lowered here => ?_
    exact ⟨node, here, lowered⟩

abbrev ExprCode (K : Tables) : ExprId → List Instr → Prop := CodeWithin l K l.arena.pathBound

theorem yields_body (ids : List ExprId) :
    Yields (l.body ids) fun K code => Codes (StatementCode l (ExprCode l K)) ids code :=
  yields_statements (yields_exprWithin l l.arena.pathBound) ids

end WasmBuilder.Lower
