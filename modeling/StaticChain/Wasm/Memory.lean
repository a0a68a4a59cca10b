import StaticChain.Wasm.Builder

/-!
# Linear memory

Addresses below `Memory.stackLimit` stay unused, so that address zero can be the null context. From
there to `Memory.heapStart` stack objects grow downwards; above it the heap grows upwards and is
never freed. Every slot is eight bytes wide.

A global holds the lower end of the stack, another the upper end of the heap. The allocator is the
first function of a module; stack objects are allocated by code in place, and each function sets
the stack back before it returns.
-/

namespace StaticChain.Wasm

namespace Memory

/-- The width of a slot in bytes. -/
def slotSize : UInt32 := 8

/-- Where the heap starts and the stack ends. -/
def heapStart : Int32 := 65536

/-- The lowest address of the stack. -/
def stackLimit : Int32 := 1024

/-- Pages are `2 ^ 16` bytes. -/
def pageShift : Int32 := 16

/-- A closure is a function number and a context pointer, side by side. -/
def closureSize : UInt32 := 8

def closureFunction : MemArg := { align := 2, offset := 0 }

def closureContext : MemArg := { align := 2, offset := 4 }

/-- The offset of a slot in its object. -/
def slotOffset (slot : Nat) : UInt32 := UInt32.ofNat slot * slotSize

/-- An access at the address itself. -/
def arg : Width → MemArg
  | .w32 => { align := 2, offset := 0 }
  | .w64 => { align := 3, offset := 0 }

end Memory

/-- How the memory of a module is set up. -/
structure MemoryOptions where
  limits : Limits := ⟨2, some 1024⟩
  exported : Bool := true
  exportName : String := "memory"
deriving DecidableEq, Inhabited, Repr

/-- The numbers of the parts that make up the memory. -/
structure Memory where
  memory : Nat
  heap : Nat
  stack : Nat
  allocator : Nat
deriving DecidableEq, Inhabited, Repr

namespace Memory

/-! ## The allocator -/

/-- The size in bytes of the memory as it is. -/
def memoryBytes : List Instr :=
  [.plain (.memorySize 0), .plain (.const32 pageShift), .plain (.bin .w32 .shl)]

/-- The code of the allocator, a function from a size to an address: rounds the size up to a
multiple of the slot width, moves the end of the heap and grows the memory by as many pages as are
missing. -/
def allocatorBody (heap : Nat) : List Instr :=
  [.plain (.localGet 0), .plain (.const32 7), .plain (.bin .w32 .add), .plain (.const32 (-8)),
    .plain (.bin .w32 .and), .plain (.localSet 1),
    .plain (.globalGet heap), .plain (.localSet 2),
    .plain (.localGet 2), .plain (.localGet 1), .plain (.bin .w32 .add), .plain (.globalSet heap),
    .plain (.globalGet heap)] ++ memoryBytes ++ [.plain (.rel .w32 .gtU),
    .cond .empty
      ([.plain (.globalGet heap)] ++ memoryBytes ++
        [.plain (.bin .w32 .sub), .plain (.const32 0xffff), .plain (.bin .w32 .add),
          .plain (.const32 pageShift), .plain (.bin .w32 .shrU), .plain (.memoryGrow 0),
          .plain (.const32 (-1)), .plain (.rel .w32 .eq),
          .cond .empty [.plain .unreachable] []]) [],
    .plain (.localGet 2)]

def allocatorType : FuncType := ⟨[.i32], [.i32]⟩

/-- The code of a body, with its end. -/
def bodyTokens (body : List Instr) : List Token := tokensList body ++ [.finish]

def allocatorCode (heap : Nat) : Code := ⟨[.i32, .i32], bodyTokens (allocatorBody heap)⟩

/-- Adds the memory, the two globals and the allocator. The memory is exported last, so a name that
is taken leaves the rest in place. -/
def setup (options : MemoryOptions) (m : Module) : Except Error Memory × Module :=
  let (memory, m) := m.addMemory options.limits
  let (heap, m) := m.addGlobal heapStart true
  let (stack, m) := m.addGlobal heapStart true
  let (type, m) := m.addType allocatorType
  let (allocator, m) := m.declare type
  match m.addBody (allocatorCode heap) with
  | .error e => (.error e, m)
  | .ok m =>
    if options.exported then
      match m.addExport ⟨options.exportName, .memory, memory⟩ with
      | .error e => (.error e, m)
      | .ok m => (.ok ⟨memory, heap, stack, allocator⟩, m)
    else (.ok ⟨memory, heap, stack, allocator⟩, m)

/-! ## Code that uses it -/

variable (m : Memory)

/-- The size of an object: one slot at least. -/
def atLeastSlot (size : UInt32) : UInt32 := if size < slotSize then slotSize else size

/-- The size rounded up to a multiple of the slot width. -/
def roundToSlot (size : UInt32) : UInt32 :=
  if size % slotSize = 0 then size else size + (slotSize - size % slotSize)

/-- Leaves the address of a new heap object. -/
def heapAlloc (size : UInt32) : List Instr :=
  [.plain (.const32 (atLeastSlot size).toInt32), .plain (.call m.allocator)]

/-- Leaves the address of a new stack object; traps where the stack is used up. -/
def stackAlloc (size : UInt32) : List Instr :=
  [.plain (.globalGet m.stack), .plain (.const32 (roundToSlot (atLeastSlot size)).toInt32),
    .plain (.bin .w32 .sub), .plain (.globalSet m.stack),
    .plain (.globalGet m.stack), .plain (.const32 stackLimit), .plain (.rel .w32 .ltU),
    .cond .empty [.plain .unreachable] [],
    .plain (.globalGet m.stack)]

/-- Keeps the stack pointer in a local. -/
def saveStack (saved : Nat) : List Instr :=
  [.plain (.globalGet m.stack), .plain (.localSet saved)]

/-- Sets the stack pointer back. -/
def restoreStack (saved : Nat) : List Instr :=
  [.plain (.localGet saved), .plain (.globalSet m.stack)]

end Memory

end StaticChain.Wasm
