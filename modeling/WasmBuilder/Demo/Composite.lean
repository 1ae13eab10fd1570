import WasmBuilder.Build.Declare

/-!
Tuples and records: making them, passing them across calls, and reading their fields.
-/

set_option autoImplicit false

namespace WasmBuilder.Demo

open Build Body

/-- Results of several numbers, and fields by position. -/
def tuple : BuildM Library := do
  let params : Bindings := [("a", .i32), ("b", .i64)]
  let (swap, _) ← func { id := "swap", params } do
    let a ← read "a"
    let b ← read "b"
    let swapped ← Body.tuple [b.id, a.id]
    giveResult [swapped.id]
  let (first, _) ← func { params, result := .i64 } do
    let a ← read "a"
    let b ← read "b"
    let pair ← call swap [a.id, b.id]
    let head ← field pair (.index 0)
    giveResult [head.id]
  let (mixed, _) ← func { params } do
    let a ← read "a"
    let b ← read "b"
    let pair ← call swap [a.id, b.id]
    let keep ← write "pair" pair.id
    exec [keep]
    let pair ← read "pair"
    let wide ← field pair (.index 0)
    let narrow ← field pair (.index 1)
    let widened ← unary .extend narrow.id
    let sum ← binary .add wide.id widened
    giveResult [sum]
  return ⟨[("swap", swap), ("first", first), ("mixed", mixed)]⟩

def point : Shape := .record [("x", .i32), ("y", .i32)]

def absI32 (value : ExprId) : BodyM ExprId := do
  let negative ← binary .lt value (← i32 0)
  let flipped ← binary .sub (← i32 0) value
  let out ← choose .auto negative [flipped] [value]
  return out.id

/-- Fields by name, over the same slots as tuples. -/
def record : BuildM Library := do
  let (pairY, _) ← func { id := "pairY", locals := [("pair", point)] } do
    let x ← i32 3
    let y ← i32 4
    let value ← Body.record [("x", x), ("y", y)]
    let store ← write "pair" value.id
    let pair ← read "pair"
    let y ← field pair (.name "y")
    giveResult [store, y.id]
  let params : Bindings := [("x", .i32), ("y", .i32)]
  let (makePoint, _) ← func { params, result := point } do
    let x ← read "x"
    let y ← read "y"
    let value ← Body.record [("x", x.id), ("y", y.id)]
    giveResult [value.id]
  let (manhattan, _) ← func { params, result := .i32 } do
    let x ← read "x"
    let y ← read "y"
    let p ← call makePoint [x.id, y.id]
    let bind ← assign [("p", p.id)]
    exec [bind]
    let p ← read "p"
    let px ← field p (.name "x")
    let py ← field p (.name "y")
    let ax ← absI32 px.id
    let ay ← absI32 py.id
    let sum ← binary .add ax ay
    giveResult [sum]
  return ⟨[("pairY", pairY), ("makePoint", makePoint), ("manhattan", manhattan)]⟩

end WasmBuilder.Demo
