import WasmBuilder.Build.Declare

/-!
Counting loops.
-/

set_option autoImplicit false

namespace WasmBuilder.Demo

open Build Body

def bump (kind : BinaryKind) (name : String) (one : BodyM ExprId) : BodyM ExprId := do
  let value ← read name
  let one ← one
  let next ← binary kind value.id one
  write name next

/-- `sumTo` adds the numbers below `n`, and `factorial` multiplies those up to `n`. -/
def loops : BuildM Library := do
  let (sumTo, _) ← func { id := "sumTo", params := [("n", .i32)], result := .i32 } do
    let zeroI ← i32 0
    let zeroAcc ← i32 0
    let init ← assign [("i", zeroI), ("acc", zeroAcc)]
    let i ← read "i"
    let n ← read "n"
    let cond ← binary .lt i.id n.id
    let acc ← read "acc"
    let i ← read "i"
    let total ← binary .add acc.id i.id
    let body ← write "acc" total
    let step ← bump .add "i" (i32 1)
    let looped ← loop [init] cond [step] [body]
    let acc ← read "acc"
    giveResult [looped, acc.id]
  let (factorial, _) ← func { id := "factorial", params := [("n", .i64)], result := .i64 } do
    let one ← i64 1
    let init ← write "acc" one
    let n ← read "n"
    let one ← i64 1
    let cond ← binary .gt n.id one
    let acc ← read "acc"
    let n ← read "n"
    let product ← binary .mul acc.id n.id
    let body ← write "acc" product
    let step ← bump .sub "n" (i64 1)
    let looped ← loop [init] cond [step] [body]
    exec [looped]
    let acc ← read "acc"
    giveResult [acc.id]
  return ⟨[("sumTo", sumTo), ("factorial", factorial)]⟩

end WasmBuilder.Demo
