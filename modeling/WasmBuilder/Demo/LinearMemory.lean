import WasmBuilder.Demo.Arguments
import WasmBuilder.Demo.Loops

/-!
Loads, stores and growth of an imported memory.
-/

set_option autoImplicit false

namespace WasmBuilder.Demo

open Build Body

def provideMemory (args : Arguments) : BuildM Unit := do
  if (← get).memory.isNone then
    let pages := ((args.integer "pages" 1).setWidth 32).toNat
    let standard : MemoryDecl := {}
    useMemory { standard with initial := pages, maximum := max pages standard.maximum }

/-- `storeLoad` writes a number and reads it back, `sumWords` adds consecutive words, and `pages`
and `grow` see to the size. -/
def memory (args : Arguments) : BuildM Library := do
  provideMemory args
  let (storeLoad, _) ← func { id := "storeLoad", params := [("addr", .i32), ("value", .i64)] } do
    let addr ← read "addr"
    let value ← read "value"
    let stored ← store .i64 addr.id value.id 0
    exec [stored]
    let addr ← read "addr"
    let loaded ← load .i64 addr.id 0
    giveResult [loaded]
  let (sumWords, _) ← func
    { id := "sumWords", params := [("addr", .i32), ("count", .i32)], result := .i32 } do
    let initI ← write "i" (← i32 0)
    let initAcc ← write "acc" (← i32 0)
    let i ← read "i"
    let count ← read "count"
    let cond ← binary .lt i.id count.id
    let addr ← read "addr"
    let i ← read "i"
    let four ← i32 4
    let scaled ← binary .mul i.id four
    let place ← binary .add addr.id scaled
    let word ← load .i32 place 0
    let acc ← read "acc"
    let total ← binary .add acc.id word
    let body ← write "acc" total
    let step ← bump .add "i" (i32 1)
    let sum ← loop [initI, initAcc] cond [step] [body]
    exec [sum]
    let acc ← read "acc"
    giveResult [acc.id]
  let (pages, _) ← func { result := .i32 } do
    let size ← memorySize
    giveResult [size]
  let (grow, _) ← func { params := [("delta", .i32)], result := .i32 } do
    let delta ← read "delta"
    let before ← memoryGrow delta.id
    giveResult [before]
  return ⟨[("storeLoad", storeLoad), ("sumWords", sumWords), ("pages", pages), ("grow", grow)]⟩

end WasmBuilder.Demo
