import StaticChain.Wasm.Binary.Reader
import StaticChain.Wasm.Error

/-!
# What a module offers

`Summary.of` reads off a binary how many functions it defines and which functions and memories it
exports, without looking at code.
-/

namespace StaticChain.Wasm

structure Summary where
  /-- The number of defined functions, the allocator included. -/
  functionCount : Nat
  functionExports : List String
  memoryExports : List String
deriving DecidableEq, Inhabited, Repr

/-- Reads the summary of a binary. Exports are read before what follows them, so a bad export is
found even if the binary ends badly. Of several modules in a bundle, the last that has functions
gives their number. -/
def Summary.of (bytes : Bytes) : Except Error Summary := do
  let f := (Framing.of bytes).modules bytes.length
  let exports? := (f.sections.filter (·.id == 7)).mapM fun s =>
    (Get.vector Get.exported).all s.content
  match exports? with
  | none => throw .exportUnreadable
  | some exports =>
    if f.complete then
      let names (kind : ExternKind) := (exports.flatten.filter (·.kind == kind)).map Export.name
      let count := ((f.sections.filter (·.id == 3)).getLast?.bind Section.count?).getD 0
      return ⟨count, names .func, names .memory⟩
    else throw .unreadable

end StaticChain.Wasm
