import WasmBuilder.Proofs.Course.Returned
import WasmBuilder.Proofs.Declarations.Turns
import WasmBuilder.Proofs.Lowering.Joined
import WasmBuilder.Proofs.Lowering.Spills
import WasmBuilder.Proofs.Simplify.Spared

/-!
Functions that return what one expression gives.

An expression without blocks, choices, loops and fields is lowered operand by operand and takes no
scratch locals. So of a function whose body is the return of such an expression everything is known once
its code is: the function has no locals beside its parameters, and its frame is that of this code. Such
functions come of declarations whose bodies give one result.
-/

set_option autoImplicit false

namespace WasmBuilder

open Lower (CodeWithin Layout Logs moduleLayout)
open Wasm (Instr)

def Node.isStraight : Node → Bool
  | block .. | choose .. | loop .. | extract .. => false
  | _ => true

inductive Arena.Straight (a : Arena) : ExprId → Prop
  | mk {id : ExprId} {node : Node} (here : a.node id = .ok node) (straight : node.isStraight = true)
      (operands : ∀ child ∈ node.children, Straight a child) : Straight a id

namespace Lower

abbrev NoSpill {α : Type} (m : LowerM α) : Prop := Logs m fun xs _ => xs = []

section
variable {l : Layout} {lower : ExprId → LowerM (List Instr)}

theorem noSpill_operands {ids : List ExprId}
    (each : ∀ id ∈ ids, NoSpill (lower id)) :
    NoSpill (Layout.operands lower ids) := by
  induction ids with
  | nil => exact .pure rfl
  | cons id rest ih =>
    refine (each id List.mem_cons_self).bind fun code xs none => ?_
    exact (ih fun x mem => each x (List.mem_cons_of_mem id mem)).bind_pure fun _ ys none' => by
      rw [none, none', List.append_nil]

theorem noSpill_node {id : ExprId} {node : Node} (straight : node.isStraight = true)
    (each : ∀ child ∈ node.children, NoSpill (lower child)) :
    NoSpill (l.node lower id node) := by
  have first {x : ExprId} (mem : x ∈ node.children) {β : Type} (f : List Instr → β) :
      NoSpill (lower x >>= fun code => Pure.pure (f code)) :=
    (each x mem).bind_pure fun _ _ none => none
  cases node with
  -- the nodes that open blocks or spill
  | block | choose | loop | extract => cases straight
  | const | memorySize | nop => exact .pure rfl
  | localGet | globalGet => exact (Logs.lift _).bind_pure fun _ _ found => found.1
  | localSet slot shape value | globalSet slot shape value =>
    refine (Logs.lift _).bind fun base _ found => ?_
    rw [found.1]
    exact first List.mem_cons_self _
  | binary op left right | store type left right =>
    refine (each left List.mem_cons_self).bind fun code xs none => ?_
    rw [none]
    exact first (List.mem_cons_of_mem left List.mem_cons_self) _
  | unary op operand | load type operand | memoryGrow operand => exact first List.mem_cons_self _
  | call func args =>
    refine (noSpill_operands each).bind fun code xs none => (Logs.lift _).bind_pure fun _ ys found => ?_
    rw [none, found.1, List.append_nil]
  | callIndirect index args signature =>
    have before : ∀ x ∈ args, NoSpill (lower x) := fun x mem => each x (List.mem_append_left _ mem)
    have chosen : NoSpill (lower index) := each index (List.mem_append_right _ List.mem_cons_self)
    refine (noSpill_operands before).bind fun code xs none => chosen.bind fun slot ys none' => ?_
    refine (logs_intern signature).bind_pure fun _ zs none'' => ?_
    rw [none, none', none'', List.append_nil, List.append_nil]
  | group items => exact noSpill_operands each
  | ret value =>
    cases value with
    | none => exact .pure rfl
    | some value => exact first List.mem_cons_self _

end

variable {l : Layout}

theorem noSpill_exprWithin {depth : Nat} {id : ExprId} (straight : l.arena.Straight id) :
    NoSpill (l.exprWithin depth id) := by
  induction depth generalizing id with
  | zero =>
    intro s x t _ done
    cases done
  | succ depth ih =>
    obtain ⟨here, straight, operands⟩ := straight
    refine (Logs.lift _).bind fun node _ found => ?_
    cases here.symm.trans found.2
    rw [found.1]
    exact noSpill_node straight fun child mem => ih (operands child mem)

theorem locals_of_straight {typeIndex paramWidth : Nat} {shapes : List Shape} {id : ExprId}
    {s t : LowerState} {g : Wasm.Func} (straight : l.arena.Straight id)
    (done : function l typeIndex paramWidth shapes [id] s = .ok (g, t)) :
    g.locals = ((shapes.flatMap Shape.flatten).drop paramWidth).map .num := by
  obtain ⟨code, run, rfl⟩ := function_eq_ok_iff.1 done
  -- the code of a function starts without scratch locals, and here it takes none
  have free : LowerState.Free { s with scratch := #[] } := fun _ _ here => by simp at here
  have quiet : NoSpill ((l.withVariables shapes).body [id]) := by
    rw [Layout.body, statements_eq_operands]
    refine noSpill_operands fun x mem => ?_
    cases List.mem_singleton.1 mem
    have value : NoSpill ((l.withVariables shapes).expr id) := noSpill_exprWithin straight
    refine value.bind fun code xs none => (Logs.lift _).bind_pure fun _ ys found => ?_
    rw [none, found.1, List.append_nil]
  obtain ⟨xs, runs, rfl⟩ := quiet _ code t free run
  cases runs with
  | done same => rw [LowerState.scratchTypes, same]; simp

theorem emits_straight (l : Layout) (f : Function) :
    Emits (declaration l f) fun types low => DeclarationCode l types f low ∧
      ∀ scope id, f.kind = .defined scope [id] → l.arena.Straight id → ∃ g, low = .defined g ∧
        g.locals = ((scope.shapes.flatMap Shape.flatten).drop f.signature.params.length).map .num := by
  intro s low t done
  obtain ⟨grown, code⟩ := emits_declaration l f s low t done
  refine ⟨grown, fun types le => ⟨code types le, fun scope id kind straight => ?_⟩⟩
  obtain ⟨typeIndex, u, -, rest⟩ := bind_eq_ok.1 done
  rw [kind] at rest
  obtain ⟨g, v, lowered, last⟩ := bind_eq_ok.1 rest
  cases last
  exact ⟨g, rfl, locals_of_straight straight lowered⟩

theorem nodeCode_of_within {l : Layout} {K : Tables} {depth : Nat} {id : ExprId}
    {node : Node} {code : List Instr} (coded : CodeWithin l K depth id code)
    (here : l.arena.node id = .ok node) :
    ∃ depth, NodeCode l K (CodeWithin l K depth) id node code := by
  cases depth with
  | zero => cases coded
  | succ depth =>
    obtain ⟨node', there, coded⟩ := coded
    cases there.symm.trans here
    exact ⟨depth, coded⟩

theorem code_of_param {l : Layout} {K : Tables} {depth slot : Nat} {id : ExprId}
    {code : List Instr} (coded : CodeWithin l K depth id code)
    (here : l.arena.node id = .ok (.localGet slot (.num .i32))) (base : l.localBase slot = .ok slot) :
    code = [.localGet slot] := by
  obtain ⟨depth, coded⟩ := nodeCode_of_within coded here
  cases coded with
  | localGet at_ =>
    cases at_.symm.trans base
    rfl

end Lower

namespace Build

/-- A function of numbers whose body is the return of one expression, and that has no variables but its
parameters. -/
inductive Returns (b : Build) (k : Nat) (signature : Signature) (value : ExprId) : Prop
  | mk {f : Function} {scope : Scope} {id : ExprId} (here : b.functions[k]? = some f)
      (kind : f.kind = .defined scope [id]) (typed : f.signature = signature)
      (params : scope.shapes = signature.params.map .num)
      (returns : b.arena.node id = .ok (.ret (some value))) : Returns b k signature value

variable {b c : Build} {k : Nat} {signature : Signature} {value : ExprId}

theorem Returns.endures (returns : b.Returns k signature value) (endures : b.Endures c) :
    c.Returns k signature value := by
  obtain ⟨here, kind, typed, params, returns⟩ := returns
  exact ⟨endures.functions _ _ _ _ _ here kind returns, kind, typed, params,
    endures.arena.fixed returns rfl⟩

/-- What a function of numbers becomes in a module, if its expression is lowered operand by operand:
the code of the expression and a return, with no further locals and the frame that this code takes. -/
theorem Returns.code (returns : b.Returns k signature value) (straight : b.arena.Straight value)
    {tableExport : Option String} {m : Wasm.Module} (done : b.lower tableExport = .ok m)
    {host : Imports} {offered : List (ImportKey × Nat)} {made : List Wasm.Memory}
    {journal : List HostCall} {i : Wasm.Instance}
    (linked : Wasm.link m host offered made journal = some i) :
    ∃ n types scratch depth code context, b.indexOf? k = some n ∧
      m.types = types.map Signature.funcType ∧ context.types = m.types.toArray ∧
      CodeWithin ((moduleLayout b).withVariables (signature.params.map .num)) ⟨types, scratch⟩ depth
        value code ∧
      i.program.funcs[n]? = some (.code signature.funcType [] (code ++ [Instr.ret])) ∧
      i.program.frame n = Wasm.Frame.size context signature.funcType [] (code ++ [Instr.ret]) := by
  obtain ⟨types, lowered, start, memory, table, exports, state, parts, run, grown, imported, slots, -,
    rfl⟩ := Lower.lower_runs done
  obtain ⟨context, hostFuncs, codeFuncs, hostMemories, joined⟩ := Wasm.joined_of_link linked
  obtain ⟨here, kind, rfl, params, returns⟩ := returns
  rename_i f scope id
  obtain ⟨-, each⟩ := Lower.Emits.mapM (Lower.emits_straight (moduleLayout b)) _ _ lowered state run
  rw [← Array.getElem?_toList] at here
  obtain ⟨low, became, declared, own⟩ := exists_getElem?_of_forall₂ (each types grown) here
  have whole : b.arena.Straight id := .mk returns rfl fun child mem => by
    cases List.mem_singleton.1 mem
    exact straight
  obtain ⟨g, rfl, locals⟩ := own scope id kind whole
  obtain ⟨n, function, index, found, is⟩ := Lower.exists_linked parts imported joined became
  cases declared with
  | defined kind' code =>
    cases kind.symm.trans kind'
    cases code with
    | @mk typeIndex scratch code typed statements =>
      -- a return leaves nothing to drop, so its statement is its code
      have statement : ∃ result, code = result ++ [Instr.ret] ∧ ∃ depth,
          CodeWithin ((moduleLayout b).withVariables scope.shapes) ⟨types, scratch⟩ depth value
            result := by
        cases statements with
        | cons first none =>
          cases none
          cases first with
          | mk coded left =>
            obtain ⟨_, there, none⟩ := Arena.slotsWithin_succ_eq_ok_iff.1 left
            cases returns.symm.trans there
            cases none
            obtain ⟨_, there, coded⟩ := coded
            cases returns.symm.trans there
            cases coded with
            | ret result => exact ⟨_, by simp, _, result⟩
      obtain ⟨result, rfl, depth, coded⟩ := statement
      refine ⟨n, types, scratch, depth, result, context, index, rfl,
        (Wasm.Module.context_eq joined.offers).1, params ▸ coded, ?_⟩
      generalize size : i.program.frame n = words at is
      cases is with
      | @defined _ type typed' =>
        rw [List.getElem?_map, typed, Option.map_some] at typed'
        cases typed'
        -- what the scope declares is the parameters
        have none : (scope.shapes.flatMap Shape.flatten).drop f.signature.params.length = [] := by
          rw [params, List.flatMap_map]
          exact List.drop_eq_nil_of_le (by simp [Shape.flatten])
        have plain := locals.trans (congrArg (List.map Wasm.ValType.num) none)
        dsimp only at plain found
        rw [plain] at found ⊢
        exact ⟨found, rfl⟩

def begun (b : Build) (decl : FunctionDecl) : Body :=
  b.newBody ((({} : Scope).declareAll decl.params .param).declareAll decl.locals .local) .local
    decl.result

/-- What is there once a function is declared that returns a number. -/
structure Adds (b : Build) (isIndirect : Bool) (decl : FunctionDecl) (t : NumType) (arena : Arena)
    (value : ExprId) (k : Nat) (c : Build) : Prop where
  number : k = b.functions.size
  count : c.functions.size = b.functions.size + 1
  matched : c.Matched
  later : b.Later c
  endures : b.Endures c
  continues : arena.Continues c.arena
  pending : c.pending = k :: b.pending
  returns : c.Returns k ⟨decl.params.flatten, [t]⟩ value
  callable : ∃ id kind, c.callables[k]? = some ⟨id, k, kind, decl.params, .num t⟩ ∧
    (isIndirect = true → kind = .indirect b.table.size)
  size : isIndirect = true → c.table.size = b.table.size + 1

/-- What closing a function leaves when it succeeds, in either way of calling the function. -/
theorem exists_added_of_close {draft : Draft} {body : Body}
    (closed : closeFunction draft body b = .ok k c) :
    ∃ kind table, k = b.callables.size ∧
      c = (b.withBody body).added (draft.function body) kind draft.decl.params table b.imports
        draft.decl.isExported ∧
      (draft.isIndirect = true →
        kind = .indirect b.table.size ∧ table.size = b.table.size + 1) := by
  rw [closeFunction_run] at closed
  dsimp only at closed
  split at closed
  · split at closed
    next table appended =>
      cases closed
      refine ⟨_, table, rfl, rfl, fun _ => ⟨rfl, ?_⟩⟩
      rw [IndirectTable.size, IndirectTable.entries_append appended]
      exact Array.size_push ..
    next => cases closed
  next direct =>
    cases closed
    exact ⟨.direct, b.table, rfl, rfl, fun told => absurd told direct⟩

section
variable {isIndirect isIndirect' : Bool} {decl decl' : FunctionDecl} {t t' : NumType}
  {arena arena' : Arena} {value value' : ExprId}

theorem Adds.size_callables (adds : b.Adds isIndirect decl t arena value k c) :
    c.callables.size = k + 1 := by
  rw [adds.matched.size, adds.count, adds.number]

/-- Functions that are declared one after the other have numbers that follow each other. -/
theorem Adds.next (first : b.Adds isIndirect decl t arena value k c) {l : Nat} {d : Build}
    (second : c.Adds isIndirect' decl' t' arena' value' l d) : l = k + 1 := by
  rw [second.number, first.count, first.number]

section
variable (matched : b.Matched) (isExported : decl.isExported = true) (result : decl.result = .num t)
  (typed : (b.begun decl).locals.shapes = decl.params.flatten.map .num)
  (continues : b.arena.Continues arena)

include matched isExported result typed continues

theorem adds_close {id : String}
    (closed : closeFunction ⟨isIndirect, id, decl⟩ ((b.begun decl).returning arena value) b =
      .ok k c) :
    b.Adds isIndirect decl t arena value k c := by
  let draft : Draft := ⟨isIndirect, id, decl⟩
  let body := (b.begun decl).returning arena value
  have returned : arena.Continues body.arena := arena.continues_push _ _
  have goes : b.arena.Continues body.arena := fun id node here =>
    returned id node (continues id node here)
  have work : Work b (b.withBody body) := .mk goes.lasts (.refl _)
  -- closing only appends to a build that has taken over the expressions of the body
  have course := left_close closed ▸ course_close (b := b) (.function draft) body
  have made := left_close closed ▸ endures_close (b := b) (.function draft) body
  have endures : Endures b (b.withBody body) := .of_continues goes fun _ _ here => here
  have final : body.finalResult = .num t := by
    rw [Body.finalResult_of_fixed (show decl.result ≠ .auto by rw [result]; exact nofun)]
    exact result
  obtain ⟨kind, table, rfl, is, placed⟩ := exists_added_of_close closed
  have number := matched.size
  have function : c.functions[b.functions.size]? = some (draft.function body) := by
    rw [is]
    exact Array.getElem?_push_size
  have callable : c.callables[b.callables.size]? =
      some ⟨id, b.functions.size, kind, decl.params, .num t⟩ := by
    rw [is, ← final]
    exact Array.getElem?_push_size
  have signature : (draft.function body).signature = ⟨decl.params.flatten, [t]⟩ := by
    simp [draft, Function.signature, Draft.function, final, Bindings.flatten, List.flatMap_map]
  refine ⟨number, ?_, (matched.work work).course course, work.later.trans course.later,
    endures.trans made, is ▸ returned, ?_, ?_,
    ⟨id, kind, number ▸ callable, fun told => (placed told).1⟩, fun told => is ▸ (placed told).2⟩
  · rw [is]
    exact Array.size_push ..
  · rw [is]
    exact if_pos isExported
  · rw [number]
    refine .mk function rfl signature typed ?_
    rw [is]
    exact arena.node_push_size _ _

/-- A declaration that succeeds, of a body that returns a number. -/
theorem adds_define {init : BodyM Unit}
    (runs : init (b.begun decl) = .ok ⟨⟩ ((b.begun decl).returning arena value))
    (done : define isIndirect decl init b = .ok (k, ⟨⟩) c) :
    b.Adds isIndirect decl t arena value k c := by
  rw [define_run] at done
  rcases openFunction_cases isIndirect decl b with ⟨e, failed⟩ | ⟨id, -, -, opened⟩
  · rw [failed] at done
    cases done
  · have runs : init (b.newBody (Draft.scope ⟨isIndirect, id, decl⟩) .local decl.result) =
      .ok ⟨⟩ ((b.begun decl).returning arena value) := runs
    rw [opened] at done
    dsimp only at done
    rw [runs] at done
    dsimp only at done
    split at done
    · cases done
    next n d closed =>
      cases done
      exact adds_close matched isExported result typed continues closed

end

end

end Build

end WasmBuilder
