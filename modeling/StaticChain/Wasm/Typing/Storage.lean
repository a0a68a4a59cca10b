import StaticChain.Wasm.Opcode
import StaticChain.Wasm.Typing.Reference

/-!
# Typing of tables, memories and vectors

Positions in a table and addresses in a memory have the width that the table or memory asks for.
Where two of them meet, a length has the smaller width.
-/

namespace StaticChain.Wasm

namespace Context

variable (c : Context)

/-! ## Memories -/

/-- The type of addresses of a memory. -/
def address? (memory : Nat) : Option Width := c.memories[memory]?.map MemoryType.index

/-- An access to memory. Its offset is an address, and its alignment at most the natural one. -/
def checkAccess (arg : MemArg) (a : Access) (p : Point) : Option Point := do
  let address ← c.address? arg.memory
  guard (arg.align ≤ a.align && (address = .w64 || arg.offset < UInt32.size))
  c.apply (address.ty :: a.params) a.results p

/-- An access that no other can interrupt has just the natural alignment. -/
def checkAtomic (arg : MemArg) (a : Access) (p : Point) : Option Point := do
  let address ← c.address? arg.memory
  guard (arg.align = a.align)
  c.apply (address.ty :: a.params) a.results p

def checkRange (op : RangeOp) (p : Point) : Option Point := do
  match op with
  | .init data memory =>
    let address ← c.address? memory
    guard (c.hasData data)
    c.popAll [address.ty, .i32, .i32] p
  | .dropData data =>
    guard (c.hasData data)
    return p
  | .copy target source =>
    let written ← c.address? target
    let read ← c.address? source
    c.popAll [written.ty, read.ty, (written.meet read).ty] p
  | .fill memory =>
    let address ← c.address? memory
    c.popAll [address.ty, .i32, address.ty] p

/-! ## Tables -/

def checkTable (op : TableOp) (p : Point) : Option Point := do
  match op with
  | .get table =>
    let type ← c.tables[table]?
    c.apply [type.index.ty] [.ref type.element] p
  | .set table =>
    let type ← c.tables[table]?
    c.popAll [type.index.ty, .ref type.element] p
  | .init element table =>
    let type ← c.tables[table]?
    guard (c.elementFits element (.val (.ref type.element)))
    c.popAll [type.index.ty, .i32, .i32] p
  | .dropElements element =>
    guard (element < c.elements.size)
    return p
  | .copy target source =>
    let written ← c.tables[target]?
    let read ← c.tables[source]?
    guard (c.types.refIsBelow read.element written.element)
    c.popAll [written.index.ty, read.index.ty, (written.index.meet read.index).ty] p
  | .grow table =>
    let type ← c.tables[table]?
    c.apply [.ref type.element, type.index.ty] [type.index.ty] p
  | .size table => return p.push (← c.tables[table]?).index.ty
  | .fill table =>
    let type ← c.tables[table]?
    c.popAll [type.index.ty, .ref type.element, type.index.ty] p

/-! ## Vectors -/

def checkVector (op : VectorOp) (p : Point) : Option Point := do
  match op with
  | .const _ => return p.push .v128
  | .shuffle lanes =>
    guard (lanes.all (· < 32))
    c.apply [.v128, .v128] [.v128] p
  | .numeric opcode =>
    let type ← rowOf vectorTypes opcode
    c.apply type.params type.results p
  | .lane opcode lane =>
    let found ← rowOf laneOps opcode
    guard (lane.toNat < found.lanes)
    c.apply found.type.params found.type.results p
  | .access opcode arg => c.checkAccess arg (← rowOf vectorAccesses opcode) p
  | .laneAccess opcode arg lane =>
    let found ← rowOf laneAccesses opcode
    guard (lane.toNat < 16 >>> found.align)
    c.checkAccess arg found p

end Context

end StaticChain.Wasm
