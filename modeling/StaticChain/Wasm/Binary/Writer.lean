import StaticChain.Wasm.Module

/-!
# Writing the binary format

`Module.bytes` is the binary of a module. Sections without content are left out, except those of
types, functions and code, which always stand. Each local is a run of its own.
-/

namespace StaticChain.Wasm

open Leb128 (unsigned signed)

/-- The number of some parts, then the parts. -/
def counted (f : α → Bytes) (parts : List α) : Bytes :=
  unsigned parts.length ++ parts.flatMap f

/-- Bytes with their number before them. -/
def sized (bytes : Bytes) : Bytes := unsigned bytes.length ++ bytes

def nameBytes (name : String) : Bytes := sized name.toUTF8.toList

/-! ## Types -/

def HeapKind.byte : HeapKind → UInt8
  | .noExn => 0x74
  | .noFunc => 0x73
  | .noExternal => 0x72
  | .noAny => 0x71
  | .func => 0x70
  | .external => 0x6f
  | .any => 0x6e
  | .eq => 0x6d
  | .i31 => 0x6c
  | .struct => 0x6b
  | .array => 0x6a
  | .exn => 0x69

def HeapType.bytes : HeapType → Bytes
  | .kind k => [k.byte]
  | .index type => signed type

/-- A nullable reference to a kind is written as the kind. -/
def RefType.bytes : RefType → Bytes
  | ⟨true, .kind k⟩ => [k.byte]
  | ⟨true, heap⟩ => 0x63 :: heap.bytes
  | ⟨false, heap⟩ => 0x64 :: heap.bytes

def ValType.bytes : ValType → Bytes
  | .i32 => [0x7f]
  | .i64 => [0x7e]
  | .f32 => [0x7d]
  | .f64 => [0x7c]
  | .v128 => [0x7b]
  | .ref type => type.bytes

def StorageType.bytes : StorageType → Bytes
  | .i8 => [0x78]
  | .i16 => [0x77]
  | .val ty => ty.bytes

/-- A byte that is one or zero. -/
def flagByte (flag : Bool) : UInt8 := if flag then 1 else 0

def FieldType.bytes (type : FieldType) : Bytes :=
  type.storage.bytes ++ [flagByte type.mutable]

def FuncType.bytes (type : FuncType) : Bytes :=
  0x60 :: (counted ValType.bytes type.params ++ counted ValType.bytes type.results)

def CompositeType.bytes : CompositeType → Bytes
  | .func type => type.bytes
  | .struct fields => 0x5f :: counted FieldType.bytes fields
  | .array element => 0x5e :: element.bytes

/-- A final type without a parent is written as its shape. -/
def SubType.bytes (type : SubType) : Bytes :=
  if type.isFinal && type.parent.isNone then type.body.bytes
  else (if type.isFinal then 0x4f else 0x50) ::
    (counted unsigned type.parent.toList ++ type.body.bytes)

def TypeGroup.bytes : TypeGroup → Bytes
  | .single type => type.bytes
  | .recursive types => 0x4e :: counted SubType.bytes types

/-- The limits after a byte that tells whether there is an upper one, and what else is said. -/
def Limits.bytes (shared : Bool) (index : Width) (limits : Limits) : Bytes :=
  (flagByte limits.max.isSome + 2 * flagByte shared + 4 * flagByte (index == .w64)) ::
    (unsigned limits.min ++ limits.max.elim [] unsigned)

def MemoryType.bytes (type : MemoryType) : Bytes := type.limits.bytes type.shared type.index

def TableType.bytes (type : TableType) : Bytes :=
  type.element.bytes ++ type.limits.bytes false type.index

def GlobalType.bytes (type : GlobalType) : Bytes :=
  type.ty.bytes ++ [flagByte type.mutable]

/-! ## Opcodes -/

/-- The comparisons in the order of their opcodes. -/
def IntRel.all : List IntRel := [.eq, .ne, .ltS, .ltU, .gtS, .gtU, .leS, .leU, .geS, .geU]

/-- The operations in the order of their opcodes. -/
def IntBin.all : List IntBin :=
  [.add, .sub, .mul, .divS, .divU, .remS, .remU, .and, .or, .xor, .shl, .shrS, .shrU, .rotl, .rotr]

/-- The opcode that tests an integer for zero; the comparisons follow it. -/
def Width.eqzOpcode : Width → Nat
  | .w32 => 0x45
  | .w64 => 0x50

/-- The opcode of the first operation on two integers. -/
def Width.binOpcode : Width → Nat
  | .w32 => 0x6a
  | .w64 => 0x7c

/-- The opcodes of objects stand after this byte. -/
def objectLead : UInt8 := 0xfb

/-- The opcodes of ranges, tables and saturating conversions stand after this byte. -/
def rangeLead : UInt8 := 0xfc

/-- The opcodes of vectors stand after this byte. -/
def vectorLead : UInt8 := 0xfd

/-- The opcodes of accesses to shared memory stand after this byte. -/
def atomicLead : UInt8 := 0xfe

/-! ## Instructions -/

/-- The bit of the alignment that says that a memory is named. -/
def MemArg.namedMemory : Nat := 64

def MemArg.bytes (arg : MemArg) : Bytes :=
  if arg.memory = 0 then unsigned arg.align ++ unsigned arg.offset
  else unsigned (arg.align + namedMemory) ++ unsigned arg.memory ++ unsigned arg.offset

def RefOp.bytes : RefOp → Bytes
  | .null heap => 0xd0 :: heap.bytes
  | .isNull => [0xd1]
  | .func function => 0xd2 :: unsigned function
  | .eq => [0xd3]
  | .asNonNull => [0xd4]
  | .test type => objectLead :: (if type.nullable then 21 else 20) :: type.heap.bytes
  | .cast type => objectLead :: (if type.nullable then 23 else 22) :: type.heap.bytes
  | .internalize => [objectLead, 26]
  | .externalize => [objectLead, 27]
  | .i31 => [objectLead, 28]
  | .i31Get .signed => [objectLead, 29]
  | .i31Get .unsigned => [objectLead, 30]

/-- The distance of an opcode that reads a field from the one that reads it whole. -/
def signStep : Option Sign → UInt8
  | none => 0
  | some .signed => 1
  | some .unsigned => 2

/-- What follows `objectLead`. -/
def ObjectOp.bytes : ObjectOp → Bytes
  | .structNew type => 0 :: unsigned type
  | .structDefault type => 1 :: unsigned type
  | .structGet sign type field => (2 + signStep sign) :: (unsigned type ++ unsigned field)
  | .structSet type field => 5 :: (unsigned type ++ unsigned field)
  | .arrayNew type => 6 :: unsigned type
  | .arrayDefault type => 7 :: unsigned type
  | .arrayFixed type count => 8 :: (unsigned type ++ unsigned count)
  | .arrayOfData type data => 9 :: (unsigned type ++ unsigned data)
  | .arrayOfElements type element => 10 :: (unsigned type ++ unsigned element)
  | .arrayGet sign type => (11 + signStep sign) :: unsigned type
  | .arraySet type => 14 :: unsigned type
  | .arrayLength => [15]
  | .arrayFill type => 16 :: unsigned type
  | .arrayCopy target source => 17 :: (unsigned target ++ unsigned source)
  | .arrayInitData type data => 18 :: (unsigned type ++ unsigned data)
  | .arrayInitElements type element => 19 :: (unsigned type ++ unsigned element)

def TableOp.bytes : TableOp → Bytes
  | .get table => 0x25 :: unsigned table
  | .set table => 0x26 :: unsigned table
  | .init element table => rangeLead :: 12 :: (unsigned element ++ unsigned table)
  | .dropElements element => rangeLead :: 13 :: unsigned element
  | .copy target source => rangeLead :: 14 :: (unsigned target ++ unsigned source)
  | .grow table => rangeLead :: 15 :: unsigned table
  | .size table => rangeLead :: 16 :: unsigned table
  | .fill table => rangeLead :: 17 :: unsigned table

/-- What follows `rangeLead`. -/
def RangeOp.bytes : RangeOp → Bytes
  | .init data memory => 8 :: (unsigned data ++ unsigned memory)
  | .dropData data => 9 :: unsigned data
  | .copy target source => 10 :: (unsigned target ++ unsigned source)
  | .fill memory => 11 :: unsigned memory

/-- What follows `vectorLead`. -/
def VectorOp.bytes : VectorOp → Bytes
  | .const bits => 12 :: bits
  | .shuffle lanes => 13 :: lanes
  | .numeric opcode => unsigned opcode
  | .lane opcode i => unsigned opcode ++ [i]
  | .access opcode arg => unsigned opcode ++ arg.bytes
  | .laneAccess opcode arg i => unsigned opcode ++ arg.bytes ++ [i]

def BlockType.bytes : BlockType → Bytes
  | .empty => [0x40]
  | .result ty => ty.bytes
  | .func index => signed index

def Catch.bytes (c : Catch) : Bytes :=
  (match c.tag with
    | some tag => flagByte c.withRef :: unsigned tag
    | none => [2 + flagByte c.withRef]) ++ unsigned c.label

def Op.bytes : Op → Bytes
  | .unreachable => [0x00]
  | .nop => [0x01]
  | .throw tag => 0x08 :: unsigned tag
  | .throwRef => [0x0a]
  | .br label => 0x0c :: unsigned label
  | .brIf label => 0x0d :: unsigned label
  | .brTable labels default => 0x0e :: (counted unsigned labels ++ unsigned default)
  | .ret => [0x0f]
  | .call function => 0x10 :: unsigned function
  | .callIndirect type through => 0x11 :: (unsigned type ++ unsigned through)
  | .tailCall function => 0x12 :: unsigned function
  | .tailCallIndirect type through => 0x13 :: (unsigned type ++ unsigned through)
  | .callRef type => 0x14 :: unsigned type
  | .tailCallRef type => 0x15 :: unsigned type
  | .drop => [0x1a]
  | .select => [0x1b]
  | .selectTyped types => 0x1c :: counted ValType.bytes types
  | .localGet index => 0x20 :: unsigned index
  | .localSet index => 0x21 :: unsigned index
  | .localTee index => 0x22 :: unsigned index
  | .globalGet index => 0x23 :: unsigned index
  | .globalSet index => 0x24 :: unsigned index
  | .load .w32 arg => 0x28 :: arg.bytes
  | .load .w64 arg => 0x29 :: arg.bytes
  | .store .w32 arg => 0x36 :: arg.bytes
  | .store .w64 arg => 0x37 :: arg.bytes
  | .access opcode arg => UInt8.ofNat opcode :: arg.bytes
  | .memorySize memory => 0x3f :: unsigned memory
  | .memoryGrow memory => 0x40 :: unsigned memory
  | .const32 value => 0x41 :: signed value.toInt
  | .const64 value => 0x42 :: signed value.toInt
  | .constFloat .w32 bits => 0x43 :: bits
  | .constFloat .w64 bits => 0x44 :: bits
  | .eqz width => [UInt8.ofNat width.eqzOpcode]
  | .rel width op => [UInt8.ofNat (width.eqzOpcode + 1 + IntRel.all.idxOf op)]
  | .bin width op => [UInt8.ofNat (width.binOpcode + IntBin.all.idxOf op)]
  | .extend => [0xad]
  | .numeric opcode => [UInt8.ofNat opcode]
  | .brOnNull label => 0xd5 :: unsigned label
  | .brOnNonNull label => 0xd6 :: unsigned label
  | .brOnCast onFail label source target =>
    objectLead :: (24 + flagByte onFail) ::
      (flagByte source.nullable + 2 * flagByte target.nullable) ::
      (unsigned label ++ source.heap.bytes ++ target.heap.bytes)
  | .ref op => op.bytes
  | .object op => objectLead :: op.bytes
  | .table op => op.bytes
  | .saturate opcode => rangeLead :: unsigned opcode
  | .range op => rangeLead :: op.bytes
  | .vector op => vectorLead :: op.bytes
  | .atomic opcode arg => atomicLead :: (unsigned opcode ++ arg.bytes)
  | .fence => [atomicLead, 3, 0]

def Token.bytes : Token → Bytes
  | .plain op => op.bytes
  | .block ty => 0x02 :: ty.bytes
  | .loop ty => 0x03 :: ty.bytes
  | .cond ty => 0x04 :: ty.bytes
  | .tryTable ty catches => 0x1f :: (ty.bytes ++ counted Catch.bytes catches)
  | .orElse => [0x05]
  | .finish => [0x0b]

/-! ## Parts -/

/-- Locals and body, without their size. -/
def Code.bytes (code : Code) : Bytes :=
  counted (fun ty => 1 :: ty.bytes) code.locals ++ code.body.flatMap Token.bytes

def ConstExpr.bytes (expr : ConstExpr) : Bytes := expr.flatMap Op.bytes ++ [0x0b]

def Global.bytes (global : Global) : Bytes := global.type.bytes ++ ConstExpr.bytes global.init

def Table.bytes (table : Table) : Bytes :=
  match table.init with
  | none => table.type.bytes
  | some init => 0x40 :: 0x00 :: (table.type.bytes ++ ConstExpr.bytes init)

def ExternKind.byte : ExternKind → UInt8
  | .func => 0
  | .table => 1
  | .memory => 2
  | .global => 3
  | .tag => 4

def Export.bytes (e : Export) : Bytes :=
  nameBytes e.name ++ e.kind.byte :: unsigned e.index

/-- A tag: an attribute that is always zero, and a function type. -/
def tagBytes (type : Nat) : Bytes := 0 :: unsigned type

def ImportType.bytes : ImportType → Bytes
  | .func type => 0 :: unsigned type
  | .table type => 1 :: type.bytes
  | .memory type => 2 :: type.bytes
  | .global type => 3 :: type.bytes
  | .tag type => 4 :: tagBytes type

def Import.bytes (i : Import) : Bytes :=
  nameBytes i.module ++ nameBytes i.name ++ i.type.bytes

/-- A place, with its target. -/
def Place.bytes (place : Place) : Bytes := unsigned place.target ++ ConstExpr.bytes place.offset

/-- The elements, without their type. -/
def ElementItems.bytes : ElementItems → Bytes
  | .functions fs => counted unsigned fs
  | .exprs _ es => counted ConstExpr.bytes es

/-- The type of elements; functions have a byte for it. -/
def ElementItems.typeBytes : ElementItems → Bytes
  | .functions _ => [0]
  | .exprs type _ => type.bytes

/-- The mode of a segment comes first; expressions add four to it. -/
def ElementSegment.bytes (segment : ElementSegment) : Bytes :=
  let kind : UInt8 := match segment.items with
    | .functions _ => 0
    | .exprs .. => 4
  (match segment.mode with
    | .passive => [kind + 1]
    | .active place => (kind + 2) :: place.bytes
    | .declared => [kind + 3]) ++ segment.items.typeBytes ++ segment.items.bytes

def DataSegment.bytes (segment : DataSegment) : Bytes :=
  (match segment.place with
    | none => [1]
    | some place => 2 :: place.bytes) ++ sized segment.content

/-! ## Sections -/

/-- The magic number. -/
def magic : Bytes := [0x00, 0x61, 0x73, 0x6d]

/-- The magic number and the version of modules. -/
def header : Bytes := magic ++ [0x01, 0x00, 0x00, 0x00]

def sectionBytes (id : UInt8) (content : Bytes) : Bytes := id :: sized content

/-- A section that stands only where it has parts. -/
def sectionIfAny (id : UInt8) (f : α → Bytes) (parts : List α) : Bytes :=
  if parts.isEmpty then [] else sectionBytes id (counted f parts)

/-- A section of one number, that stands only where there is one. -/
def sectionOfNumber (id : UInt8) (number : Option Nat) : Bytes :=
  number.elim [] fun number => sectionBytes id (unsigned number)

def Module.bytes (m : Module) : Bytes :=
  header ++
    sectionBytes 1 (counted TypeGroup.bytes m.types) ++
    sectionIfAny 2 Import.bytes m.imports ++
    sectionBytes 3 (counted unsigned m.functions) ++
    sectionIfAny 4 Table.bytes m.tables ++
    sectionIfAny 5 MemoryType.bytes m.memories ++
    sectionIfAny 13 tagBytes m.tags ++
    sectionIfAny 6 Global.bytes m.globals ++
    sectionIfAny 7 Export.bytes m.exports ++
    sectionOfNumber 8 m.start ++
    sectionIfAny 9 ElementSegment.bytes m.elements ++
    sectionOfNumber 12 m.dataCount ++
    sectionBytes 10 (counted (fun code => sized code.bytes) m.code) ++
    sectionIfAny 11 DataSegment.bytes m.data

end StaticChain.Wasm
