import WasmBuilder.Build.Declare

/-!
Sums of integers and floats, a call from one function to another, and calls through the function
table.
-/

set_option autoImplicit false

namespace WasmBuilder.Demo

open Build Body

def returnBoth (step : ExprId → ExprId → BodyM ExprId) : BodyM Unit := do
  let a ← read "a"
  let b ← read "b"
  let out ← step a.id b.id
  giveResult [out]

/-- Addition for three types. The result of `addTwo` is left to its body. -/
def add : BuildM Library := do
  let (addTwo, _) ← func
    { id := "addTwo", params := [("a", .i32), ("b", .i32)] }
    (returnBoth (binary .add))
  let (addI64, _) ← func
    { params := [("a", .i64), ("b", .i64)], result := .i64 }
    (returnBoth (binary .add))
  let (addF64, _) ← func
    { params := [("a", .f64), ("b", .f64)], result := .f64 }
    (returnBoth (binary .add))
  let (twice, _) ← func { params := [("x", .i32)] } do
    let x ← read "x"
    let y ← read "x"
    let doubled ← call addTwo [x.id, y.id]
    giveResult [doubled.id]
  return ⟨[("addTwo", addTwo), ("addI64", addI64), ("addF64", addF64), ("twice", twice)]⟩

def operatorDecl (id : String) : FunctionDecl :=
  { id := some id, params := [("a", .i32), ("b", .i32)], result := .i32 }

/-- Three operators in consecutive table slots, a function that picks a slot when it runs, and one
that always calls the second operator. -/
def indirect : BuildM Library := do
  let (add, _) ← Build.indirect (operatorDecl "add") (returnBoth (binary .add))
  let (sub, _) ← Build.indirect (operatorDecl "sub") (returnBoth (binary .sub))
  let (mul, _) ← Build.indirect (operatorDecl "mul") (returnBoth (binary .mul))
  let dispatchDecl := operatorDecl "dispatch"
  let (dispatch, _) ← func
    { dispatchDecl with params := dispatchDecl.params ++ [("op", .i32)] } do
    let a ← read "a"
    let b ← read "b"
    let index ← read "op"
    let out ← raw (.callIndirect index.id [a.id, b.id] ⟨[.i32, .i32], [.i32]⟩) .i32
    giveResult [out.id]
  let (subViaTable, _) ← func (operatorDecl "subViaTable") <| returnBoth fun a b => do
    let out ← call sub [a, b]
    return out.id
  return ⟨[("add", add), ("sub", sub), ("mul", mul), ("dispatch", dispatch),
    ("subViaTable", subViaTable)]⟩

end WasmBuilder.Demo
