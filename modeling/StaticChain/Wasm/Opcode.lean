import StaticChain.Wasm.Types

/-!
# Instructions by opcode

Many instructions differ in what they compute, and not in how they are written. Such families are
kept by their opcodes. Here is what the members of each family take and leave. The instructions that
stand after one of the bytes `0xfc`, `0xfd` and `0xfe` have opcodes of their own.
-/

namespace StaticChain.Wasm

/-- The entry of a table for an opcode. A row holds from its first opcode to its last. -/
def rowOf (table : List (Nat × Nat × α)) (opcode : Nat) : Option α :=
  (table.find? fun (first, last, _) => first ≤ opcode && opcode ≤ last).map fun row => row.2.2

/-! ## Numbers -/

/-- Operations on floats and conversions. -/
def numericTypes : List (Nat × Nat × FuncType) :=
  [(0x5b, 0x60, ⟨[.f32, .f32], [.i32]⟩), (0x61, 0x66, ⟨[.f64, .f64], [.i32]⟩),
    (0x67, 0x69, ⟨[.i32], [.i32]⟩), (0x79, 0x7b, ⟨[.i64], [.i64]⟩),
    (0x8b, 0x91, ⟨[.f32], [.f32]⟩), (0x92, 0x98, ⟨[.f32, .f32], [.f32]⟩),
    (0x99, 0x9f, ⟨[.f64], [.f64]⟩), (0xa0, 0xa6, ⟨[.f64, .f64], [.f64]⟩),
    (0xa7, 0xa7, ⟨[.i64], [.i32]⟩), (0xa8, 0xa9, ⟨[.f32], [.i32]⟩), (0xaa, 0xab, ⟨[.f64], [.i32]⟩),
    (0xac, 0xac, ⟨[.i32], [.i64]⟩), (0xae, 0xaf, ⟨[.f32], [.i64]⟩), (0xb0, 0xb1, ⟨[.f64], [.i64]⟩),
    (0xb2, 0xb3, ⟨[.i32], [.f32]⟩), (0xb4, 0xb5, ⟨[.i64], [.f32]⟩), (0xb6, 0xb6, ⟨[.f64], [.f32]⟩),
    (0xb7, 0xb8, ⟨[.i32], [.f64]⟩), (0xb9, 0xba, ⟨[.i64], [.f64]⟩), (0xbb, 0xbb, ⟨[.f32], [.f64]⟩),
    (0xbc, 0xbc, ⟨[.f32], [.i32]⟩), (0xbd, 0xbd, ⟨[.f64], [.i64]⟩), (0xbe, 0xbe, ⟨[.i32], [.f32]⟩),
    (0xbf, 0xbf, ⟨[.i64], [.f64]⟩), (0xc0, 0xc1, ⟨[.i32], [.i32]⟩), (0xc2, 0xc4, ⟨[.i64], [.i64]⟩)]

/-- Conversions that go to the nearest integer there is. They stand after `0xfc`. -/
def saturatingTypes : List (Nat × Nat × FuncType) :=
  [(0, 1, ⟨[.f32], [.i32]⟩), (2, 3, ⟨[.f64], [.i32]⟩),
    (4, 5, ⟨[.f32], [.i64]⟩), (6, 7, ⟨[.f64], [.i64]⟩)]

/-! ## Access to memory -/

/-- An access to memory: the exponent of its natural alignment, what it takes above the address, and
what it leaves. -/
structure Access where
  align : Nat
  params : List ValType
  results : List ValType
deriving DecidableEq, Inhabited, Repr

def Access.load (ty : ValType) (align : Nat) : Access := ⟨align, [], [ty]⟩

def Access.store (ty : ValType) (align : Nat) : Access := ⟨align, [ty], []⟩

/-- Loads and stores of floats or of parts of integers. -/
def accesses : List (Nat × Nat × Access) :=
  [(0x2a, 0x2a, .load .f32 2), (0x2b, 0x2b, .load .f64 3), (0x2c, 0x2d, .load .i32 0),
    (0x2e, 0x2f, .load .i32 1), (0x30, 0x31, .load .i64 0), (0x32, 0x33, .load .i64 1),
    (0x34, 0x35, .load .i64 2), (0x38, 0x38, .store .f32 2), (0x39, 0x39, .store .f64 3),
    (0x3a, 0x3a, .store .i32 0), (0x3b, 0x3b, .store .i32 1), (0x3c, 0x3c, .store .i64 0),
    (0x3d, 0x3d, .store .i64 1), (0x3e, 0x3e, .store .i64 2)]

/-! ## Vectors

All these stand after `0xfd`. -/

/-- What takes vectors and leaves one. -/
def vectors (n : Nat) : FuncType := ⟨List.replicate n .v128, [.v128]⟩

/-- What takes a vector and leaves an integer. -/
def vectorTest : FuncType := ⟨[.v128], [.i32]⟩

/-- What shifts all lanes of a vector by one amount. -/
def vectorShift : FuncType := ⟨[.v128, .i32], [.v128]⟩

/-- Operations on whole vectors. -/
def vectorTypes : List (Nat × Nat × FuncType) :=
  [(0x0e, 0x0e, vectors 2), (0x0f, 0x11, ⟨[.i32], [.v128]⟩), (0x12, 0x12, ⟨[.i64], [.v128]⟩),
    (0x13, 0x13, ⟨[.f32], [.v128]⟩), (0x14, 0x14, ⟨[.f64], [.v128]⟩), (0x23, 0x4c, vectors 2),
    (0x4d, 0x4d, vectors 1), (0x4e, 0x51, vectors 2), (0x52, 0x52, vectors 3),
    (0x53, 0x53, vectorTest), (0x5e, 0x62, vectors 1), (0x63, 0x64, vectorTest),
    (0x65, 0x66, vectors 2), (0x67, 0x6a, vectors 1), (0x6b, 0x6d, vectorShift),
    (0x6e, 0x73, vectors 2), (0x74, 0x75, vectors 1), (0x76, 0x79, vectors 2),
    (0x7a, 0x7a, vectors 1), (0x7b, 0x7b, vectors 2), (0x7c, 0x81, vectors 1),
    (0x82, 0x82, vectors 2), (0x83, 0x84, vectorTest), (0x85, 0x86, vectors 2),
    (0x87, 0x8a, vectors 1), (0x8b, 0x8d, vectorShift), (0x8e, 0x93, vectors 2),
    (0x94, 0x94, vectors 1), (0x95, 0x99, vectors 2), (0x9b, 0x9f, vectors 2),
    (0xa0, 0xa1, vectors 1), (0xa3, 0xa4, vectorTest), (0xa7, 0xaa, vectors 1),
    (0xab, 0xad, vectorShift), (0xae, 0xae, vectors 2), (0xb1, 0xb1, vectors 2),
    (0xb5, 0xba, vectors 2), (0xbc, 0xbf, vectors 2), (0xc0, 0xc1, vectors 1),
    (0xc3, 0xc4, vectorTest), (0xc7, 0xca, vectors 1), (0xcb, 0xcd, vectorShift),
    (0xce, 0xce, vectors 2), (0xd1, 0xd1, vectors 2), (0xd5, 0xdf, vectors 2),
    (0xe0, 0xe1, vectors 1), (0xe3, 0xe3, vectors 1), (0xe4, 0xeb, vectors 2),
    (0xec, 0xed, vectors 1), (0xef, 0xef, vectors 1), (0xf0, 0xf7, vectors 2),
    (0xf8, 0xff, vectors 1), (0x100, 0x100, vectors 2), (0x101, 0x104, vectors 1),
    (0x105, 0x10c, vectors 3), (0x10d, 0x112, vectors 2), (0x113, 0x113, vectors 3)]

/-- Loads and stores of vectors. -/
def vectorAccesses : List (Nat × Nat × Access) :=
  [(0x00, 0x00, .load .v128 4), (0x01, 0x06, .load .v128 3), (0x07, 0x07, .load .v128 0),
    (0x08, 0x08, .load .v128 1), (0x09, 0x09, .load .v128 2), (0x0a, 0x0a, .load .v128 3),
    (0x0b, 0x0b, .store .v128 4), (0x5c, 0x5c, .load .v128 2), (0x5d, 0x5d, .load .v128 3)]

/-- What reads a lane of a vector, or replaces one. -/
structure LaneOp where
  /-- The number of lanes. -/
  lanes : Nat
  type : FuncType
deriving DecidableEq, Inhabited, Repr

def LaneOp.extract (lanes : Nat) (ty : ValType) : LaneOp := ⟨lanes, ⟨[.v128], [ty]⟩⟩

def LaneOp.replace (lanes : Nat) (ty : ValType) : LaneOp := ⟨lanes, ⟨[.v128, ty], [.v128]⟩⟩

/-- Operations on one lane. -/
def laneOps : List (Nat × Nat × LaneOp) :=
  [(0x15, 0x16, .extract 16 .i32), (0x17, 0x17, .replace 16 .i32), (0x18, 0x19, .extract 8 .i32),
    (0x1a, 0x1a, .replace 8 .i32), (0x1b, 0x1b, .extract 4 .i32), (0x1c, 0x1c, .replace 4 .i32),
    (0x1d, 0x1d, .extract 2 .i64), (0x1e, 0x1e, .replace 2 .i64), (0x1f, 0x1f, .extract 4 .f32),
    (0x20, 0x20, .replace 4 .f32), (0x21, 0x21, .extract 2 .f64), (0x22, 0x22, .replace 2 .f64)]

/-- Loads and stores of one lane. A lane of `2 ^ align` bytes is one of `16 / 2 ^ align`. -/
def laneAccesses : List (Nat × Nat × Access) :=
  [(0x54, 0x54, ⟨0, [.v128], [.v128]⟩), (0x55, 0x55, ⟨1, [.v128], [.v128]⟩),
    (0x56, 0x56, ⟨2, [.v128], [.v128]⟩), (0x57, 0x57, ⟨3, [.v128], [.v128]⟩),
    (0x58, 0x58, .store .v128 0), (0x59, 0x59, .store .v128 1),
    (0x5a, 0x5a, .store .v128 2), (0x5b, 0x5b, .store .v128 3)]

/-! ## Shared memory

All these stand after `0xfe`. -/

/-- The types and alignments of an operation that comes for all widths, in the order of opcodes. -/
def atomicShapes : List (ValType × Nat) :=
  [(.i32, 2), (.i64, 3), (.i32, 0), (.i32, 1), (.i64, 0), (.i64, 1), (.i64, 2)]

/-- The opcode of the first load. Stores, six kinds of update and a conditional one follow, each in
all shapes. -/
def firstAtomic : Nat := 0x10

/-- Accesses that no other can interrupt, after one that wakes threads and two that wait. -/
def atomic? (opcode : Nat) : Option Access :=
  match opcode with
  | 0 => some ⟨2, [.i32], [.i32]⟩
  | 1 => some ⟨2, [.i32, .i64], [.i32]⟩
  | 2 => some ⟨3, [.i64, .i64], [.i32]⟩
  | _ =>
    if opcode < firstAtomic then none
    else do
      let (ty, align) ← atomicShapes[(opcode - firstAtomic) % atomicShapes.length]?
      match (opcode - firstAtomic) / atomicShapes.length with
      | 0 => some (.load ty align)
      | 1 => some (.store ty align)
      | 8 => some ⟨align, [ty, ty], [ty]⟩
      | kind => if kind < 8 then some ⟨align, [ty], [ty]⟩ else none

end StaticChain.Wasm
