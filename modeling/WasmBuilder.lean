import WasmBuilder.Shape
import WasmBuilder.Op.Kind
import WasmBuilder.Op.Name
import WasmBuilder.Op.Constant
import WasmBuilder.Operand
import WasmBuilder.Scope
import WasmBuilder.IndirectTable
import WasmBuilder.Host.Imports
import WasmBuilder.Body.Step
import WasmBuilder.Wasm.Module
import WasmBuilder.Wasm.Leb128
import WasmBuilder.Wasm.Encode
import WasmBuilder.Build.Basic
import WasmBuilder.Lower.Code
import WasmBuilder.Lower.Module
import WasmBuilder.Simplify.Build
import WasmBuilder.Build.Compile
import WasmBuilder.Wasm.Exec
import WasmBuilder.Wasm.Decode
import WasmBuilder.Wasm.Instance
import WasmBuilder.Demo.Catalog
import WasmBuilder.Cli.Request
import WasmBuilder.Cli.Outcome
import WasmBuilder.Cli.Directory
import WasmBuilder.Main
import WasmBuilder.Proofs.Labels.Session
import WasmBuilder.Proofs.Typing.Bodies
import WasmBuilder.Proofs.Meaning.Correct
import WasmBuilder.Proofs.Meaning.Body
import WasmBuilder.Proofs.Lowering.Callables
import WasmBuilder.Proofs.Lowering.Loading
import WasmBuilder.Proofs.Variables.Delivered
import WasmBuilder.Proofs.Declarations.Failure
import WasmBuilder.Proofs.Lowering.Dispatch
import WasmBuilder.Proofs.Startup.Instance
import WasmBuilder.Proofs.Simplify.Agreement
import WasmBuilder.Proofs.Lowering.Fields
import WasmBuilder.Proofs.Lowering.Descent
import WasmBuilder.Proofs.Lowering.Arguments
import WasmBuilder.Proofs.Wasm.Relocation
import WasmBuilder.Proofs.Lowering.Abreast
import WasmBuilder.Proofs.Lowering.Moved
import WasmBuilder.Proofs.Lowering.Joined
import WasmBuilder.Proofs.Simplify.Continued
import WasmBuilder.Proofs.Course.Registered
import WasmBuilder.Proofs.Wasm.Resembling
import WasmBuilder.Proofs.Lowering.Undisturbed
import WasmBuilder.Proofs.Simplify.Operations
import WasmBuilder.Proofs.Simplify.Fixpoint
import WasmBuilder.Proofs.Simplify.Acyclic
import WasmBuilder.Proofs.Simplify.Unreachable
import WasmBuilder.Proofs.Lowering.Depth
import WasmBuilder.Proofs.Simplify.Binary
import WasmBuilder.Proofs.Course.Atomic
import WasmBuilder.Proofs.Course.Paths
import WasmBuilder.Proofs.Labels.Truthful
import WasmBuilder.Proofs.Course.Pieces
import WasmBuilder.Proofs.Course.Candid
import WasmBuilder.Proofs.Course.Returned
import WasmBuilder.Proofs.Course.Grounded
import WasmBuilder.Proofs.Simplify.Trimmed
import WasmBuilder.Proofs.Simplify.Repeated
import WasmBuilder.Proofs.Host.LastWins
import WasmBuilder.Proofs.Wasm.RoundTrip
import WasmBuilder.Proofs.Wasm.Repetition
import WasmBuilder.Proofs.Demo.Compiled
import WasmBuilder.Proofs.Demo.Loops
import WasmBuilder.Proofs.Wasm.Bytes
import WasmBuilder.Proofs.Demo.Counter
import WasmBuilder.Proofs.Demo.LinearMemory
import WasmBuilder.Proofs.Lowering.Congruence
import WasmBuilder.Proofs.Lowering.Coincide
import WasmBuilder.Proofs.Simplify.WorkLists
import WasmBuilder.Proofs.Course.Traversals
import WasmBuilder.Proofs.Lowering.Streams
import WasmBuilder.Proofs.Lowering.Spills
import WasmBuilder.Proofs.Simplify.Spared
import WasmBuilder.Proofs.Lowering.Straight
import WasmBuilder.Proofs.Demo.Dispatch
import WasmBuilder.Proofs.Simplify.Preserved
