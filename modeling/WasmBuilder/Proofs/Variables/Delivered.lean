import WasmBuilder.Proofs.Lowering.IndexSpaces
import WasmBuilder.Proofs.Lowering.Plain
import WasmBuilder.Proofs.Lowering.Variables
import WasmBuilder.Proofs.Lowering.Written
import WasmBuilder.Proofs.Variables.Bound
import WasmBuilder.Proofs.Variables.Params

/-!
Arguments and the parameters that read them.

A caller gives the numbers of the declared parameters. As long as no parameter that was open takes
numbers of its own, each parameter finds its argument in the machine locals that it takes, and reads
it there until the body assigns the parameter.
-/

set_option autoImplicit false

namespace WasmBuilder

namespace Lower

open Wasm (Instr)

variable {shapes : List Shape} {i j base other : Nat}

theorem length_of_basesFrom {next : Nat} (found : (basesFrom next shapes)[i]? = some base) :
    base = next + ((shapes.take i).flatMap Shape.flatten).length := by
  induction shapes generalizing next i with
  | nil => simp [basesFrom] at found
  | cons s rest ih =>
    cases i with
    | zero =>
      cases found
      rfl
    | succ i =>
      rw [ih found, List.take_succ_cons, List.flatMap_cons, List.length_append, Nat.add_assoc,
        Shape.width_eq]

theorem length_of_bases (found : (bases shapes)[i]? = some base) :
    base = ((shapes.take i).flatMap Shape.flatten).length := by
  rw [length_of_basesFrom found, Nat.zero_add]

theorem bases_apart (first : (bases shapes)[i]? = some base) {s : Shape} (here : shapes[i]? = some s)
    (second : (bases shapes)[j]? = some other) (lt : i < j) : base + s.width ≤ other := by
  obtain ⟨d, rfl⟩ := Nat.exists_eq_add_of_lt lt
  have ⟨inside, value⟩ := List.getElem?_eq_some_iff.1 here
  have split : shapes.take (i + d + 1) = shapes.take i ++ s :: (shapes.drop (i + 1)).take d := by
    rw [Nat.add_assoc, Nat.add_comm d, List.take_add, List.drop_eq_getElem_cons inside, value,
      Nat.add_comm 1, List.take_succ_cons]
  rw [length_of_bases first, length_of_bases second, split, List.flatMap_append, List.flatMap_cons,
    List.length_append, List.length_append, Shape.width_eq]
  omega

def given (values : List Value) (base width k : Nat) : Option Value :=
  if base ≤ k ∧ k < base + width then values[k]? else none

theorem fillSeq_gets {values : List Value} {width : Nat} (fits : base + width ≤ values.length) :
    Instr.fillSeq (given values base width) ((List.range width).map fun i => .localGet (base + i)) =
      ((values.drop base).take width).map .const := by
  have all : Lies values 0 values := ⟨[], [], by simp, rfl⟩
  have lies : Lies values (0 + base) ((values.drop base).take width) := all.slice (by omega)
  rw [Nat.zero_add] at lies
  have length : ((values.drop base).take width).length = width := by simp; omega
  have each := lies.forall₂
  rw [length] at each
  have known : ∀ k ∈ (List.range width).map (base + ·), base ≤ k ∧ k < base + width := by
    intro k mem
    obtain ⟨i, inside, rfl⟩ := List.mem_map.1 mem
    have := List.mem_range.1 inside
    omega
  rw [show (List.range width).map (fun i => Instr.localGet (base + i)) =
    ((List.range width).map (base + ·)).map .localGet by rw [List.map_map]; rfl]
  generalize (List.range width).map (base + ·) = ks at each known ⊢
  generalize (values.drop base).take width = part at each ⊢
  clear lies length
  induction each with
  | nil => rfl
  | @cons k v ks part here _ ih =>
    have first : given values base width k = some v := by
      rw [given, if_pos (known k List.mem_cons_self), here]
    have rest := ih fun k mem => known k (List.mem_cons_of_mem _ mem)
    simp only [List.map_cons, Instr.fillSeq, Instr.fill, first, rest]

namespace FunctionCode

variable {l : Layout} {types : List Signature} {signature : Signature} {body : List ExprId}
  {g : Wasm.Func} (code : FunctionCode l types signature shapes body g)

include code

theorem typed : types[g.typeIndex]? = some signature := by
  cases code
  assumption

/-- The machine locals of a function are those that its caller gives and its own. Where its
variables begin with what is given, they all have the machine locals of their numbers. -/
theorem lies (takes : signature.params <+: shapes.flatMap Shape.flatten) {part : List NumType}
    (lies : Lies (shapes.flatMap Shape.flatten) base part) :
    Lies (signature.params.map Wasm.ValType.num ++ g.locals) base (part.map .num) := by
  obtain ⟨before, behind, whole, rfl⟩ := lies
  obtain ⟨others, all⟩ := takes
  cases code with
  | @mk _ scratch _ typed statements =>
    refine ⟨before.map .num, (behind ++ scratch).map .num, ?_, List.length_map _⟩
    rw [← List.map_append, ← all, List.drop_left, ← List.append_assoc, all, whole]
    simp only [List.map_append, List.append_assoc]

/-- Code reads the arguments in machine locals that it does not write. -/
theorem reads {width : Nat} (inside : base + width ≤ (shapes.map Shape.width).sum)
    (unwritten : ∀ root ∈ body, ∀ id k, l.arena.Within root id →
      (l.withVariables shapes).Writes id k → k < base ∨ base + width ≤ k)
    (e : Wasm.Env) (s : Wasm.Store) (values : List Value) :
    Wasm.runBody e signature.funcType g.locals (Instr.fillSeq (given values base width) g.body) s
        (values.map .num) =
      Wasm.runBody e signature.funcType g.locals g.body s (values.map .num) := by
  apply Wasm.runBody_fillSeq (code.isPlain signature.funcType).1
  · intro k mem
    apply if_neg
    rintro ⟨le, lt⟩
    rcases code.writes mem with behind | ⟨root, isRoot, id, within, writes⟩
    · omega
    · rcases unwritten root isRoot id k within writes with below | above
      · omega
      · omega
  · intro k v known
    unfold given at known
    split at known
    · rw [List.getElem?_map, known, Option.map_some]
    · cases known

end FunctionCode

end Lower

open Lower (CodeWithin FunctionCode Lies bases moduleLayout)

/-- The body of a function assigns no variable `i`, and of others no more than there is. -/
def Build.Spares (b : Build) (func i : Nat) (shapes : List Shape) : Prop :=
  ∀ (id : ExprId) (slot : Nat) (shape : Shape) (value : ExprId), b.Evaluates (.function func) id →
    b.arena.node id = .ok (.localSet slot shape value) →
    slot ≠ i ∧ ∃ own, shapes[slot]? = some own ∧ shape.width ≤ own.width

/-- A function finds its arguments in its variables. It was built in `b`, and its code `g` was made
in `c`. -/
structure Delivers (b : Build) (params : Bindings) (scope : Scope) (func : Nat) (c : Build)
    (type : Wasm.FuncType) (g : Wasm.Func) : Prop where
  lies : ∀ (i : Nat) (slot : Slot) (base : Nat), scope.slots[i]? = some slot →
    (bases scope.shapes)[i]? = some base →
    Lies (type.params ++ g.locals) base (slot.shape.flatten.map .num)
  located : ∀ (i : Nat) (name : String) (declared : Shape) (slot : Slot) (base : Nat),
    params[i]? = some (name, declared) → scope.slots[i]? = some slot →
    (bases scope.shapes)[i]? = some base →
    base = (Bindings.flatten (params.take i)).length ∧ slot.shape.flatten = declared.flatten
  /-- and one that is not assigned reads as its argument. -/
  reads : ∀ (i : Nat) (slot : Slot) (base : Nat), i < params.length → scope.slots[i]? = some slot →
    (bases scope.shapes)[i]? = some base → b.Spares func i scope.shapes → ∀ values : List Value,
    (∀ (e : Wasm.Env) (s : Wasm.Store),
      Wasm.runBody e type g.locals
          (Wasm.Instr.fillSeq (Lower.given values base slot.shape.width) g.body) s (values.map .num) =
        Wasm.runBody e type g.locals g.body s (values.map .num)) ∧
    ∀ (id : ExprId) (K : Lower.Tables) (depth : Nat) (code : List Wasm.Instr),
      c.arena.node id = .ok (.localGet i slot.shape) →
      CodeWithin ((moduleLayout c).withVariables scope.shapes) K depth id code →
      values.length = params.flatten.length →
      Wasm.Instr.fillSeq (Lower.given values base slot.shape.width) code =
        ((values.drop base).take slot.shape.width).map .const

theorem Bindings.length_take_le {bindings : Bindings} {i : Nat} {name : String} {shape : Shape}
    (here : bindings[i]? = some (name, shape)) :
    (Bindings.flatten (bindings.take i)).length + shape.width ≤ bindings.flatten.length := by
  unfold Bindings.flatten
  induction bindings generalizing i with
  | nil => simp at here
  | cons b rest ih =>
    cases i with
    | zero =>
      cases here
      simp [Shape.width_eq]
    | succ i =>
      have others := ih here
      simp only [List.take_succ_cons, List.flatMap_cons, List.length_append]
      omega

theorem localBase_withVariables {l : Lower.Layout} {shapes : List Shape} {i base : Nat}
    (found : (l.withVariables shapes).localBase i = .ok base) : (bases shapes)[i]? = some base := by
  unfold Lower.Layout.localBase at found
  split at found
  next here =>
    cases found
    rwa [← List.getElem?_toArray]
  next => cases found

namespace Scope.BeginsWith

variable {scope : Scope} {params : Bindings} (begins : scope.BeginsWith params)
  (takes : scope.Takes params)

include begins takes

theorem delivers {b c : Build} {memory : Option MemoryDecl} (trims : Build.Trims (b.importing memory) c)
    {func : Nat} {result : Shape}
    {body : List ExprId} (bodyOf : c.bodyOf (.function func) = body) {types : List Signature}
    {g : Wasm.Func}
    (code : FunctionCode (moduleLayout c) types ⟨params.flatten, result.flatten⟩ scope.shapes body g) :
    Delivers b params scope func c (Signature.funcType ⟨params.flatten, result.flatten⟩) g := by
  have length {i base : Nat} (lt : i < params.length) (found : (bases scope.shapes)[i]? = some base) :
      base = (Bindings.flatten (params.take i)).length := by
    rw [Lower.length_of_bases found, begins.take_eq takes (Nat.le_of_lt lt)]
  constructor
  · intro i slot base there found
    exact code.lies takes.isPrefix (Lower.lies_of_bases found (shapes_of_slot there))
  · intro i name declared slot base param there found
    exact ⟨length (List.getElem?_eq_some_iff.1 param).1 found, begins.flatten_eq takes param there⟩
  · intro i slot base lt there found spares values
    have fits := (Lower.lies_of_bases found (shapes_of_slot there)).length_le
    constructor
    · intro e s
      refine code.reads ?_ (fun root isRoot id k within writes => ?_) e s values
      · rwa [← Shape.sum_width, ← Shape.width_eq] at fits
      · obtain ⟨other, shape, value, start, node, at_, le, lt⟩ := writes
        -- what is assigned in the end was assigned before, and lies apart
        have evaluates : c.Evaluates (.function func) id := ⟨root, bodyOf ▸ isRoot, within⟩
        have ⟨evaluated, before⟩ := Build.accesses_of_importing trims evaluates node nofun
        have ⟨apart, own, is, narrow⟩ := spares id other shape value evaluated before
        have found' := localBase_withVariables at_
        rcases Nat.lt_or_gt_of_ne apart with below | above
        · have := Lower.bases_apart found' is found below
          omega
        · have := Lower.bases_apart found (shapes_of_slot there) found' above
          omega
    · intro id K depth code node coded count
      cases depth with
      | zero => cases coded
      | succ depth =>
        obtain ⟨node', node'', coded⟩ := coded
        cases node.symm.trans node''
        cases coded with
        | localGet at_ =>
          cases found.symm.trans (localBase_withVariables at_)
          apply Lower.fillSeq_gets
          have ⟨b, param⟩ : ∃ b, params[i]? = some b := ⟨_, List.getElem?_eq_getElem lt⟩
          have room := Bindings.length_take_le param
          rw [length lt found, Shape.width_eq, begins.flatten_eq takes param there, count,
            ← Shape.width_eq]
          exact room

end Scope.BeginsWith

namespace Session

variable {permits : Session → Body.Step → Prop} {s t : Session} {options : CompileOptions}
  {c : Build} {m : Wasm.Module}

/-- What a function of a session makes of its parameters. -/
structure ParametersDelivered (permits : Session → Body.Step → Prop) (t : Session)
    (draft : Build.Draft) (done : Body) (func : Nat) (s : Session) (c : Build) (m : Wasm.Module) :
    Prop where
  begins : done.locals.BeginsWith draft.decl.params
  /-- The name of a parameter that is not shadowed reads it. -/
  named : ∀ (i : Nat) (name : String) (declared : Shape) (r : Session) (body next : Body)
    (o : Operand), draft.decl.params[i]? = some (name, declared) →
    (∀ later other, i < later → done.locals.slots[later]? = some other → other.name ≠ name) →
    Reached permits r → r.body = some (.function draft, body) → permits r (.read name) →
    Body.read name body = .ok o next →
    Works permits ⟨r.build, some (.function draft, next), o :: r.handed⟩ t →
    ∃ slot, done.locals.slots[i]? = some slot ∧ c.arena.node o.id = .ok (.localGet i slot.shape)
  apart : ∀ (i j : Nat) (slot : Slot) (base other : Nat), done.locals.slots[i]? = some slot → i < j →
    (bases done.locals.shapes)[i]? = some base → (bases done.locals.shapes)[j]? = some other →
    base + slot.shape.width ≤ other
  /-- Callers give what the parameters take, unless one that was open takes numbers. -/
  takes : done.locals.Takes draft.decl.params ↔ ∀ (i : Nat) (name : String) (slot : Slot),
    draft.decl.params[i]? = some (name, .auto) → done.locals.slots[i]? = some slot →
    slot.shape.flatten = []
  delivers : ∃ (n : Nat) (g : Wasm.Func) (type : Wasm.FuncType),
    c.indexOf? func = some n ∧ m.importedFuncs.length ≤ n ∧
    m.funcs[n - m.importedFuncs.length]? = some g ∧ m.types[g.typeIndex]? = some type ∧
    type = Signature.funcType ⟨draft.decl.params.flatten, done.finalResult.flatten⟩ ∧
    (done.locals.Takes draft.decl.params →
      Delivers s.build draft.decl.params done.locals func c type g)

/-- A read of a parameter that is not shadowed by the end of the body is a read of its slot. -/
theorem read_of_param {draft : Build.Draft} {body done next : Body}
    (begins : body.locals.BeginsWith draft.decl.params) (grows : next.locals.Grows done.locals)
    {i : Nat} {name : String} {declared : Shape} (param : draft.decl.params[i]? = some (name, declared))
    (last : ∀ later other, i < later → done.locals.slots[later]? = some other → other.name ≠ name)
    {o : Operand} (read : Body.read name body = .ok o next) :
    ∃ slot, done.locals.slots[i]? = some slot ∧
      next.arena.node o.id = .ok (.localGet i slot.shape) ∧
      next.Carries (.localGet i slot.shape) := by
  obtain ⟨storage, index, slot', means', known, rfl, rfl⟩ := Body.read_eq_ok_iff.1 read
  have ⟨slot, here, becomes⟩ := begins i name declared param
  have means : body.Means name .local i slot := by
    refine .ofLocal ⟨here, becomes.name_eq, fun later other behind there => ?_⟩
    have ⟨other', there', same⟩ := grows later other there
    rw [← same.name_eq]
    exact last later other' behind there'
  obtain ⟨rfl, rfl, rfl⟩ := means.unique means'
  refine ⟨slot, grows.of_known here known, ?_, ?_⟩
  · rw [Operand.id_ofShape]
    exact Arena.node_push_size _ _ _
  · rintro _ _ _ ⟨⟩
    exact ⟨known, slot, here, rfl⟩

/-- Parameters are delivered to functions of which no open parameter takes numbers. -/
theorem parameters_delivered (reached : Reached permits t) {draft : Build.Draft} {done : Body}
    (busy : t.body = some (.function draft, done)) {func : Nat} {b : Build}
    (closed : Build.closeFunction draft done t.build = .ok func b) {handed : List Operand}
    (leads : Leads permits ⟨b, none, handed⟩ s) (idle : s.body = none)
    (compiled : Build.assemble options s.build = .ok m c) :
    ParametersDelivered permits t draft done func s c m := by
  have begins := draft.begins.grows (grows_of_reached reached busy)
  obtain ⟨_, trims, lowered, _⟩ := Build.assemble_eq_ok compiled
  have final := ((Build.tidies_assemble options).of_ok compiled).1.course.later
  refine ⟨begins, ?_, ?_, begins.takes_iff, ?_⟩
  -- a read that was handed out keeps its node to the end
  · intro i name declared r body next o param last reached' busy' may read works
    obtain ⟨done', still, later, _⟩ := works.later rfl
    cases busy.symm.trans still
    have run : Body.Step.run (.read name) body = .ok (some o) next := by
      simp only [Body.Step.run, Functor.map, EStateM.map, read]
    have before := draft.begins.grows (grows_of_reached reached' busy')
    obtain ⟨slot, there, made, carries⟩ := read_of_param before later.locals param last read
    refine ⟨slot, there, ?_⟩
    have reached'' := reached'.take busy' (.read name) may run
    obtain ⟨kept, _⟩ := carried_local reached'' rfl made carries rfl works busy closed leads
    rw [current_of_idle idle] at kept
    exact final.lasts.fixed _ _ kept rfl
  · intro i j slot base other here lt first second
    exact Lower.bases_apart first (Scope.shapes_of_slot here) second lt
  · have matched := matched_of_reached reached
    rw [current_of_busy busy] at matched
    have same : t.build.Matched := { matched with }
    obtain ⟨kind, table, isExported, run⟩ := Build.closeFunction_eq_ok same draft done
    cases closed.symm.trans run
    have declared : (t.build.functions.push (draft.function done))[t.build.functions.size]? =
        some (draft.function done) := Array.getElem?_push_size
    -- simplification changes the body that was declared, but not its signature
    have later := leads.later.trans (current_of_idle idle ▸ final)
    obtain ⟨f, here, becomes⟩ := later.functions _ _ declared
    obtain ⟨kept, is⟩ := becomes.defined rfl
    have signature : f.signature =
        ⟨draft.decl.params.flatten, done.finalResult.flatten⟩ := by
      rw [becomes.signature_eq]
      simp [Build.Draft.function, Function.signature, Bindings.flatten_eq]
    obtain ⟨types, spaces⟩ := Lower.indexSpaces lowered
    obtain ⟨n, index, stands⟩ := spaces.stands _ f here
    cases stands with
    | imported other => cases other.symm.trans is
    | @defined scope body g other behind found code =>
      cases other.symm.trans is
      rw [signature] at code
      have bodyOf : c.bodyOf (.function t.build.functions.size) = kept := by
        obtain ⟨id, params, result, kind⟩ := f
        cases other
        simp only [Build.bodyOf, here]
      refine ⟨n, g, _, index, behind, found, ?_, rfl, fun takes => ?_⟩
      · rw [spaces.types_eq, List.getElem?_map, code.typed, Option.map_some]
      · exact begins.delivers takes trims bodyOf code

def secondParam : Build.Draft where
  isIndirect := false
  id := "second"
  decl :=
    { id := some "second"
      params := [("x", .auto), ("y", .num .i32)]
      result := .num .i32 }

def secondBuild (done : Body) : Build where
  arena := done.arena
  functions := #[⟨"second", [.auto, .num .i32], .num .i32, .defined done.locals done.statements⟩]
  callables := #[⟨"second", 0, .direct, secondParam.decl.params, .num .i32⟩]
  pending := [0]

theorem reached_secondParam : Reached (fun _ _ => True)
    ⟨{}, some (.function secondParam, Build.newBody {} secondParam.scope .local (.num .i32)), []⟩ :=
  Reached.start.next
    (.openFunction rfl (Build.openFunction_of_free rfl (by simp [Build.isTaken, fresh])))

open Lower in
theorem lower_secondBuild {done : Body} {code : List Wasm.Instr}
    (lowered : ((moduleLayout (secondBuild done)).withVariables done.locals.shapes).body
      done.statements { types := #[⟨[.i32], [.i32]⟩] } = .ok (code, { types := #[⟨[.i32], [.i32]⟩] })) :
    (secondBuild done).lower none = .ok
      { types := [⟨[.num .i32], [.num .i32]⟩]
        funcs := [⟨0, ((done.locals.shapes.flatMap Shape.flatten).drop 1).map .num, code⟩] } := by
  let listed : LowerState := { types := #[⟨[.i32], [.i32]⟩] }
  have type : intern ⟨[.i32], [.i32]⟩ {} = .ok (0, listed) := by simp [intern, listed]
  let g : Wasm.Func := ⟨0, ((done.locals.shapes.flatMap Shape.flatten).drop 1 ++ []).map .num, code⟩
  have made : function (moduleLayout (secondBuild done)) 0 1 done.locals.shapes done.statements listed =
      .ok (g, listed) := function_eq_ok_iff.2 ⟨code, lowered, rfl⟩
  have second : declaration (moduleLayout (secondBuild done)) ⟨"second", [.auto, .num .i32],
      .num .i32, .defined done.locals done.statements⟩ {} = .ok (.defined g, listed) := by
    simp only [declaration, bind, StateT.bind]
    erw [type]
    dsimp only [Except.bind]
    erw [made]
    rfl
  have all : functions (moduleLayout (secondBuild done)) (secondBuild done).functions.toList [] {} =
      .ok (([.defined g], none), listed) := by
    have each : (secondBuild done).functions.toList = [⟨"second", [.auto, .num .i32], .num .i32,
      .defined done.locals done.statements⟩] := rfl
    simp only [functions, each, List.mapM_cons, List.mapM_nil, bind, StateT.bind, Except.bind, second]
    rfl
  simp only [Build.lower, bind, Except.bind, StateT.run]
  rw [show (secondBuild done).startBody = [] from rfl, all]
  simp [assembled, g]
  rfl

theorem closeFunction_secondParam (done : Body) (globals : done.globals = {})
    (result : done.finalResult = .num .i32) :
    Build.closeFunction secondParam done {} = .ok 0 (secondBuild done) := by
  rw [Build.closeFunction_run]
  simp only [Build.withBody, globals, Build.added, Build.Draft.function, result]
  rfl

def readSecond : Body :=
  { Build.newBody {} secondParam.scope .local (.num .i32) with
    arena := ⟨#[⟨.localGet 1 (.num .i32), some (.num .i32)⟩, ⟨.ret (some 0), some .none⟩]⟩
    statements := [1] }

def shiftSecond : Body :=
  { readSecond with
    arena := ⟨#[⟨.const (.i32 5), some (.num .i32)⟩, ⟨.localSet 0 (.num .i32) 0, some .none⟩,
      ⟨.localGet 1 (.num .i32), some (.num .i32)⟩, ⟨.ret (some 2), some .none⟩]⟩
    locals := ⟨#[⟨"x", .num .i32, .param⟩, ⟨"y", .num .i32, .param⟩]⟩
    statements := [1, 3] }

theorem reached_readSecond : ∃ handed, Reached (fun _ _ => True)
    ⟨{}, some (.function secondParam, readSecond), handed⟩ := by
  have read := reached_secondParam.take rfl (.read "y") trivial rfl
  exact ⟨_, read.take rfl (.giveResult [0]) trivial rfl⟩

theorem reached_shiftSecond : ∃ handed, Reached (fun _ _ => True)
    ⟨{}, some (.function secondParam, shiftSecond), handed⟩ := by
  have made := reached_secondParam.take rfl (.literal (.int 5) .i32) trivial rfl
  have stored := made.take rfl (.write "x" 0) trivial rfl
  have run := stored.take rfl (.exec [1]) trivial rfl
  have read := run.take rfl (.read "y") trivial rfl
  exact ⟨_, read.take rfl (.giveResult [2]) trivial rfl⟩

theorem assemble_secondBuild {done : Body} {m : Wasm.Module}
    (lowered : (secondBuild done).lower none = .ok m) (valid : m.isValid = true) :
    Build.assemble ⟨false, true, none, none⟩ (secondBuild done) = .ok m (secondBuild done) :=
  Build.assemble_of_lower rfl rfl lowered fun _ => valid

theorem lower_readSecond : (secondBuild readSecond).lower none = .ok
    { types := [⟨[.num .i32], [.num .i32]⟩], funcs := [⟨0, [], [.localGet 0, .ret]⟩] } :=
  lower_secondBuild rfl

theorem lower_shiftSecond : (secondBuild shiftSecond).lower none = .ok
    { types := [⟨[.num .i32], [.num .i32]⟩]
      funcs := [⟨0, [.num .i32], [.const (.i32 5), .localSet 0, .localGet 1, .ret]⟩] } :=
  lower_secondBuild rfl

theorem parameters_delivered_of_second : ∃ (t s : Session) (c : Build) (m : Wasm.Module),
    Reached (fun _ _ => True) t ∧ t.body = some (.function secondParam, readSecond) ∧
    Leads (fun _ _ => True) ⟨secondBuild readSecond, none, t.handed⟩ s ∧
    Build.assemble ⟨false, true, none, none⟩ s.build = .ok m c ∧
    readSecond.locals.Takes secondParam.decl.params ∧
    ParametersDelivered (fun _ _ => True) t secondParam readSecond 0 s c m := by
  obtain ⟨handed, reached⟩ := reached_readSecond
  have closed := closeFunction_secondParam readSecond rfl rfl
  have compiled := assemble_secondBuild lower_readSecond (by decide)
  exact ⟨_, _, _, _, reached, rfl, .refl, compiled, rfl,
    parameters_delivered reached rfl closed .refl rfl compiled⟩

/-- A number that is put into an open parameter shifts the parameters behind it. The second
parameter, which is not assigned, reads as a zero, whatever its argument. -/
theorem shifted_second : ∃ (t : Session) (c : Build) (m : Wasm.Module) (g : Wasm.Func)
    (type : Wasm.FuncType), Reached (fun _ _ => True) t ∧
    t.body = some (.function secondParam, shiftSecond) ∧
    Build.closeFunction secondParam shiftSecond t.build = .ok 0 c ∧
    Build.assemble ⟨false, true, none, none⟩ c = .ok m c ∧
    secondParam.decl.params[1]? = some ("y", .num .i32) ∧ c.Spares 0 1 shiftSecond.locals.shapes ∧
    ¬ shiftSecond.locals.Takes secondParam.decl.params ∧
    m.funcs[0]? = some g ∧ m.types[g.typeIndex]? = some type ∧
    ∀ (e : Wasm.Env) (s : Wasm.Store) (v : Value),
      Wasm.runBody e type g.locals g.body s [.num v] = .done [.num (.i32 0)] s := by
  obtain ⟨handed, reached⟩ := reached_shiftSecond
  have closed := closeFunction_secondParam shiftSecond rfl rfl
  have compiled := assemble_secondBuild lower_shiftSecond (by decide)
  refine ⟨_, _, _, _, _, reached, rfl, closed, compiled, rfl, ?_, by decide, rfl, rfl, ?_⟩
  · intro id slot shape value _ here
    match id, here with
    | 1, here =>
      cases here
      exact ⟨by decide, _, rfl, Nat.le_refl _⟩
    | 0, here | 2, here | 3, here => cases here
    | n + 4, here => exact absurd (Arena.lt_size_of_node here) (Nat.not_lt.2 (Nat.le_add_left 4 n))
  · intro e s v
    rfl

end Session

end WasmBuilder
