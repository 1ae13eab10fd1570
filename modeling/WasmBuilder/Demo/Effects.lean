import WasmBuilder.Build.Declare
import WasmBuilder.Demo.Arguments

/-!
Functions with effects: a counter in global variables, and calls of a host function.
-/

set_option autoImplicit false

namespace WasmBuilder.Demo

open Build Body

/-- `next` adds the stride of one to the count and answers it, and `reset` sets it. The count
begins at `start`, zero by default. -/
def counter (args : Arguments) : BuildM Library := do
  declareGlobals [("count", .i32)] do
    let first ← Body.literal (.int (args.integer "start" 0)) .i32
    let count ← write "count" first
    let one ← i32 1
    let stride ← write "stride" one
    exec [count, stride]
  let (next, _) ← func { id := "next" } do
    let count ← read "count"
    let stride ← read "stride"
    let bumped ← binary .add count.id stride.id
    let stored ← write "count" bumped
    exec [stored]
    let count ← read "count"
    giveResult [count.id]
  let (reset, _) ← func { id := "reset", params := [("to", .i32)], result := .none } do
    let value ← read "to"
    let stored ← write "count" value.id
    exec [stored]
  return ⟨[("next", next), ("reset", reset)]⟩

/-- Imports `env.log`, whose calls are recorded in the given way, and calls it with a sum. -/
def io (recording : Recording) : BuildM Library := do
  let log ← external
    { key := ⟨"env", "log"⟩, id := "log", params := [("value", .i32)] }
    (HostFunction.returning · recording [])
  let (logSum, _) ← func
    { id := "logSum", params := [("a", .i32), ("b", .i32)], result := .i32 } do
    let a ← read "a"
    let b ← read "b"
    let sum ← binary .add a.id b.id
    let keep ← write "sum" sum
    exec [keep]
    let sum ← read "sum"
    let logged ← call log [sum.id]
    exec [logged.id]
    let sum ← read "sum"
    giveResult [sum.id]
  return ⟨[("log", log), ("logSum", logSum)]⟩

end WasmBuilder.Demo
