import StaticChain.Capture
import StaticChain.Chain.Basic
import StaticChain.Chain.Emission
import StaticChain.Chain.Resolution
import StaticChain.Defect
import StaticChain.Diagnostic
import StaticChain.Frame.Allocation
import StaticChain.Frame.Layout
import StaticChain.Json.Basic
import StaticChain.Json.Printer
import StaticChain.Json.Reader
import StaticChain.Lir.Basic
import StaticChain.Lir.Builder
import StaticChain.Lir.Display
import StaticChain.Lowering.Body
import StaticChain.Lowering.Module
import StaticChain.Lowering.Scope
import StaticChain.Machine.Activation
import StaticChain.Machine.Fault
import StaticChain.Machine.Run
import StaticChain.Machine.Store
import StaticChain.Machine.Value
import StaticChain.Main
import StaticChain.Nesting
import StaticChain.Program.Basic
import StaticChain.Program.Builder
import StaticChain.Program.Check
import StaticChain.Program.Codec
import StaticChain.Program.Display
import StaticChain.Program.Error
import StaticChain.Program.Query
import StaticChain.Program.Reference
import StaticChain.Program.Text
import StaticChain.Program.Typing
import StaticChain.Project.Build
import StaticChain.Project.Command
import StaticChain.Project.CommandLine
import StaticChain.Project.Compilation
import StaticChain.Project.Error
import StaticChain.Project.FileTree
import StaticChain.Project.Host
import StaticChain.Project.Path
import StaticChain.Project.Settings
import StaticChain.Project.Settings.Text
import StaticChain.Toml.Basic
import StaticChain.Toml.Printer
import StaticChain.Toml.Quoted
import StaticChain.Toml.Reader
import StaticChain.Toml.Scalar
import StaticChain.Toml.Tree
import StaticChain.Wasm.Binary.Reader
import StaticChain.Wasm.Binary.Section
import StaticChain.Wasm.Binary.Writer
import StaticChain.Wasm.Builder
import StaticChain.Wasm.Error
import StaticChain.Wasm.Generation
import StaticChain.Wasm.Instr
import StaticChain.Wasm.Leb128
import StaticChain.Wasm.Memory
import StaticChain.Wasm.Module
import StaticChain.Wasm.Opcode
import StaticChain.Wasm.Subtyping
import StaticChain.Wasm.Summary
import StaticChain.Wasm.Types
import StaticChain.Wasm.Typing
import StaticChain.Wasm.Typing.Context
import StaticChain.Wasm.Typing.Reference
import StaticChain.Wasm.Typing.Storage
import StaticChain.Wasm.Validity
import StaticChain.Proofs.Activations
import StaticChain.Proofs.AllocationPolicy
import StaticChain.Proofs.Calls
import StaticChain.Proofs.ChainInvariant
import StaticChain.Proofs.Environments
import StaticChain.Proofs.Expressions
import StaticChain.Proofs.Statements
import StaticChain.Proofs.Availability
import StaticChain.Proofs.Entering
import StaticChain.Proofs.Limits
import StaticChain.Proofs.Meaning
import StaticChain.Proofs.Preorder
import StaticChain.Proofs.Safety
import StaticChain.Proofs.Wasm.Agreement
import StaticChain.Proofs.Budget
import StaticChain.Proofs.Rejection
import StaticChain.Proofs.ProgramText
import StaticChain.Proofs.Wasm.Validity
import StaticChain.Proofs.Releases
import StaticChain.Proofs.History
import StaticChain.Proofs.WellFormed
import StaticChain.Proofs.Threshold
import StaticChain.Proofs.Remaining
import StaticChain.Proofs.Chaining
import StaticChain.Proofs.Wasm.Description
import StaticChain.Proofs.Wasm.Integers
import StaticChain.Proofs.Wasm.ShadowStack
import StaticChain.Proofs.Wasm.HeapBlocks
import StaticChain.Proofs.Wasm.StackPointer
import StaticChain.Proofs.Outputs
import StaticChain.Proofs.Accepted
import StaticChain.Proofs.StoragePlaces
import StaticChain.Proofs.ExpressionTypes
import StaticChain.Proofs.Scoping
import StaticChain.Proofs.Memory
import StaticChain.Proofs.Links
import StaticChain.Proofs.Building
import StaticChain.Proofs.Paths
import StaticChain.Proofs.HeapLinks
