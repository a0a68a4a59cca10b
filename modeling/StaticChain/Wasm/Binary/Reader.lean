import StaticChain.Wasm.Binary.Section
import StaticChain.Wasm.Opcode

/-!
# Reading the binary format

`Module.ofBytes?` is the module of a binary.
-/

namespace StaticChain.Wasm

namespace Get

/-- A byte that is zero or one. -/
def flag : Get Bool := do
  match ← byte with
  | 0 => return false
  | 1 => return true
  | _ => failure

/-- A number that is not negative, written with a sign in 33 bits. -/
def index33 : Get Nat := do
  match ← Leb128.readSigned 33 with
  | .ofNat n => return n
  | _ => failure

/-! ## Types -/

/-- All kinds of heap objects. -/
def heapKinds : List HeapKind :=
  [.func, .external, .any, .eq, .i31, .struct, .array, .exn, .noFunc, .noExternal, .noAny, .noExn]

/-- The kind of heap objects that a byte stands for. -/
def heapKind? (b : UInt8) : Option HeapKind := heapKinds.find? (·.byte == b)

def heapType : Get HeapType := fun bytes =>
  match bytes.head?.bind heapKind? with
  | some kind => some (.kind kind, bytes.drop 1)
  | none => (HeapType.index <$> index33) bytes

def refType : Get RefType := do
  match ← byte with
  | 0x63 => return ⟨true, ← heapType⟩
  | 0x64 => return ⟨false, ← heapType⟩
  | b => return ⟨true, .kind (← StateT.lift (heapKind? b))⟩

def valType : Get ValType := fun bytes =>
  match bytes with
  | 0x7f :: rest => some (.i32, rest)
  | 0x7e :: rest => some (.i64, rest)
  | 0x7d :: rest => some (.f32, rest)
  | 0x7c :: rest => some (.f64, rest)
  | 0x7b :: rest => some (.v128, rest)
  | _ => (ValType.ref <$> refType) bytes

def storageType : Get StorageType := fun bytes =>
  match bytes with
  | 0x78 :: rest => some (.i8, rest)
  | 0x77 :: rest => some (.i16, rest)
  | _ => (StorageType.val <$> valType) bytes

def fieldType : Get FieldType := return ⟨← storageType, ← flag⟩

/-- The shape that follows a byte. -/
def compositeType : UInt8 → Get CompositeType
  | 0x60 => return .func ⟨← vector valType, ← vector valType⟩
  | 0x5f => return .struct (← vector fieldType)
  | 0x5e => return .array (← fieldType)
  | _ => failure

/-- At most one parent. -/
def parent : Get (Option Nat) := do
  match ← vector u32 with
  | [] => return none
  | [type] => return some type
  | _ => failure

/-- The type that follows a byte. -/
def subType : UInt8 → Get SubType
  | 0x4f => do
    let parent ← parent
    return ⟨← compositeType (← byte), parent, true⟩
  | 0x50 => do
    let parent ← parent
    return ⟨← compositeType (← byte), parent, false⟩
  | b => return { body := ← compositeType b }

def typeGroup : Get TypeGroup := do
  match ← byte with
  | 0x4e => return .recursive (← vector do subType (← byte))
  | b => return .single (← subType b)

/-- Limits, whether a memory is shared, and the width of addresses. -/
def limits : Get (Limits × Bool × Width) := do
  let flags ← byte
  if flags ≥ 8 then failure
  let index := if flags &&& 4 = 0 then Width.w32 else .w64
  let bound := if index = .w32 then u32 else u64
  let min ← bound
  let max ← if flags &&& 1 = 0 then pure none else some <$> bound
  return (⟨min, max⟩, flags &&& 2 != 0, index)

def memoryType : Get MemoryType := do
  let (limits, shared, index) ← limits
  return { limits, shared, index }

/-- A table is never shared. -/
def tableType : Get TableType := do
  let element ← refType
  let (limits, shared, index) ← limits
  if shared then failure
  return { element, limits, index }

def globalType : Get GlobalType := return ⟨← valType, ← flag⟩

/-! ## Instructions -/

def memArg : Get MemArg := do
  let flags ← u32
  if flags < MemArg.namedMemory then return ⟨flags, ← u64, 0⟩
  else if flags < 2 * MemArg.namedMemory then
    let memory ← u32
    return ⟨flags - MemArg.namedMemory, ← u64, memory⟩
  else failure

def blockType : Get BlockType := fun bytes =>
  match bytes with
  | 0x40 :: rest => some (.empty, rest)
  | _ => (BlockType.result <$> valType <|> BlockType.func <$> index33) bytes

def catchClause : Get Catch := do
  match ← byte with
  | 0 => return ⟨some (← u32), false, ← u32⟩
  | 1 => return ⟨some (← u32), true, ← u32⟩
  | 2 => return ⟨none, false, ← u32⟩
  | 3 => return ⟨none, true, ← u32⟩
  | _ => failure

/-- A branch on the type of a reference. A byte before the label says which types are nullable. -/
def castBranch (onFail : Bool) : Get Op := do
  let flags ← byte
  if flags ≥ 4 then failure
  let label ← u32
  let source ← heapType
  let target ← heapType
  return .brOnCast onFail label ⟨flags &&& 1 != 0, source⟩ ⟨flags &&& 2 != 0, target⟩

/-- The instructions after `objectLead`. -/
def objectOp : Get Op := do
  match ← u32 with
  | 0 => return .object (.structNew (← u32))
  | 1 => return .object (.structDefault (← u32))
  | 2 => return .object (.structGet none (← u32) (← u32))
  | 3 => return .object (.structGet (some .signed) (← u32) (← u32))
  | 4 => return .object (.structGet (some .unsigned) (← u32) (← u32))
  | 5 => return .object (.structSet (← u32) (← u32))
  | 6 => return .object (.arrayNew (← u32))
  | 7 => return .object (.arrayDefault (← u32))
  | 8 => return .object (.arrayFixed (← u32) (← u32))
  | 9 => return .object (.arrayOfData (← u32) (← u32))
  | 10 => return .object (.arrayOfElements (← u32) (← u32))
  | 11 => return .object (.arrayGet none (← u32))
  | 12 => return .object (.arrayGet (some .signed) (← u32))
  | 13 => return .object (.arrayGet (some .unsigned) (← u32))
  | 14 => return .object (.arraySet (← u32))
  | 15 => return .object .arrayLength
  | 16 => return .object (.arrayFill (← u32))
  | 17 => return .object (.arrayCopy (← u32) (← u32))
  | 18 => return .object (.arrayInitData (← u32) (← u32))
  | 19 => return .object (.arrayInitElements (← u32) (← u32))
  | 20 => return .ref (.test ⟨false, ← heapType⟩)
  | 21 => return .ref (.test ⟨true, ← heapType⟩)
  | 22 => return .ref (.cast ⟨false, ← heapType⟩)
  | 23 => return .ref (.cast ⟨true, ← heapType⟩)
  | 24 => castBranch false
  | 25 => castBranch true
  | 26 => return .ref .internalize
  | 27 => return .ref .externalize
  | 28 => return .ref .i31
  | 29 => return .ref (.i31Get .signed)
  | 30 => return .ref (.i31Get .unsigned)
  | _ => failure

/-- The instructions after `rangeLead`. -/
def rangeOp : Get Op := do
  match ← u32 with
  | 8 => return .range (.init (← u32) (← u32))
  | 9 => return .range (.dropData (← u32))
  | 10 => return .range (.copy (← u32) (← u32))
  | 11 => return .range (.fill (← u32))
  | 12 => return .table (.init (← u32) (← u32))
  | 13 => return .table (.dropElements (← u32))
  | 14 => return .table (.copy (← u32) (← u32))
  | 15 => return .table (.grow (← u32))
  | 16 => return .table (.size (← u32))
  | 17 => return .table (.fill (← u32))
  | opcode => if (rowOf saturatingTypes opcode).isSome then return .saturate opcode else failure

/-- The instructions after `vectorLead`. -/
def vectorOp : Get VectorOp := do
  match ← u32 with
  | 12 => return .const (← take 16)
  | 13 => return .shuffle (← take 16)
  | opcode =>
    if (rowOf vectorTypes opcode).isSome then return .numeric opcode
    else if (rowOf laneOps opcode).isSome then return .lane opcode (← byte)
    else if (rowOf vectorAccesses opcode).isSome then return .access opcode (← memArg)
    else if (rowOf laneAccesses opcode).isSome then return .laneAccess opcode (← memArg) (← byte)
    else failure

/-- The instructions after `atomicLead`. -/
def atomicOp : Get Op := do
  match ← u32 with
  | 3 => if (← byte) = 0 then return .fence else failure
  | opcode => if (atomic? opcode).isSome then return .atomic opcode (← memArg) else failure

/-- The instructions that an opcode and its distance from the first of a family determine. -/
def family (width : Width) (opcode : Nat) : Option Op :=
  if opcode = width.eqzOpcode then some (.eqz width)
  else if width.eqzOpcode < opcode && opcode ≤ width.eqzOpcode + IntRel.all.length then
    IntRel.all[opcode - width.eqzOpcode - 1]?.map (.rel width)
  else if width.binOpcode ≤ opcode then
    IntBin.all[opcode - width.binOpcode]?.map (.bin width)
  else none

/-- The rest of an instruction after its opcode. -/
def op (opcode : Nat) : Get Op := do
  match opcode with
  | 0x00 => return .unreachable
  | 0x01 => return .nop
  | 0x08 => return .throw (← u32)
  | 0x0a => return .throwRef
  | 0x0c => return .br (← u32)
  | 0x0d => return .brIf (← u32)
  | 0x0e => return .brTable (← vector u32) (← u32)
  | 0x0f => return .ret
  | 0x10 => return .call (← u32)
  | 0x11 => return .callIndirect (← u32) (← u32)
  | 0x12 => return .tailCall (← u32)
  | 0x13 => return .tailCallIndirect (← u32) (← u32)
  | 0x14 => return .callRef (← u32)
  | 0x15 => return .tailCallRef (← u32)
  | 0x1a => return .drop
  | 0x1b => return .select
  | 0x1c => return .selectTyped (← vector valType)
  | 0x20 => return .localGet (← u32)
  | 0x21 => return .localSet (← u32)
  | 0x22 => return .localTee (← u32)
  | 0x23 => return .globalGet (← u32)
  | 0x24 => return .globalSet (← u32)
  | 0x25 => return .table (.get (← u32))
  | 0x26 => return .table (.set (← u32))
  | 0x28 => return .load .w32 (← memArg)
  | 0x29 => return .load .w64 (← memArg)
  | 0x36 => return .store .w32 (← memArg)
  | 0x37 => return .store .w64 (← memArg)
  | 0x3f => return .memorySize (← u32)
  | 0x40 => return .memoryGrow (← u32)
  | 0x41 => return .const32 (Int32.ofInt (← Leb128.readSigned 32))
  | 0x42 => return .const64 (Int64.ofInt (← Leb128.readSigned 64))
  | 0x43 => return .constFloat .w32 (← take 4)
  | 0x44 => return .constFloat .w64 (← take 8)
  | 0xad => return .extend
  | 0xd0 => return .ref (.null (← heapType))
  | 0xd1 => return .ref .isNull
  | 0xd2 => return .ref (.func (← u32))
  | 0xd3 => return .ref .eq
  | 0xd4 => return .ref .asNonNull
  | 0xd5 => return .brOnNull (← u32)
  | 0xd6 => return .brOnNonNull (← u32)
  | 0xfb => objectOp
  | 0xfc => rangeOp
  | 0xfd => return .vector (← vectorOp)
  | 0xfe => atomicOp
  | _ =>
    match family .w32 opcode <|> family .w64 opcode with
    | some found => return found
    | none =>
      if (rowOf numericTypes opcode).isSome then return .numeric opcode
      else if (rowOf accesses opcode).isSome then return .access opcode (← memArg)
      else failure

def token : Get Token := do
  match ← byte with
  | 0x02 => return .block (← blockType)
  | 0x03 => return .loop (← blockType)
  | 0x04 => return .cond (← blockType)
  | 0x05 => return .orElse
  | 0x0b => return .finish
  | 0x1f => return .tryTable (← blockType) (← vector catchClause)
  | opcode => return .plain (← op opcode.toNat)

/-- All instructions that are there. -/
def tokens : (fuel : Nat) → Bytes → Option (List Token)
  | _, [] => some []
  | 0, _ => none
  | fuel + 1, bytes => do
    let (first, rest) ← token bytes
    return first :: (← tokens fuel rest)

/-- Instructions up to the end, which is not among them. -/
def ops : (fuel : Nat) → Get (List Op)
  | 0 => failure
  | fuel + 1 => do
    match ← token with
    | .plain op => return op :: (← ops fuel)
    | .finish => return []
    | _ => failure

def constExpr : Get ConstExpr := fun bytes => ops bytes.length bytes

/-! ## Parts of modules -/

/-- The most locals of a function. -/
def maxLocals : Nat := 50000

/-- A run of equal locals. -/
def localRun : Get (Nat × ValType) := return (← u32, ← valType)

/-- The locals of some runs, if there are not too many. -/
def expandRuns (runs : List (Nat × ValType)) : Option (List ValType) :=
  if (runs.map Prod.fst).foldl (· + ·) 0 ≤ maxLocals then
    some (runs.flatMap fun (count, ty) => List.replicate count ty)
  else none

def code : Get Code := do
  let (runs, body) ← StateT.lift ((vector localRun) (← sized))
  return ⟨← StateT.lift (expandRuns runs), ← StateT.lift (tokens body.length body)⟩

def global : Get Global := return ⟨← globalType, ← constExpr⟩

def table : Get Table := fun bytes =>
  match bytes with
  | 0x40 :: 0x00 :: rest => (do return ⟨← tableType, some (← constExpr)⟩ : Get Table) rest
  | _ => (do return ⟨← tableType, none⟩ : Get Table) bytes

def externKind : Get ExternKind := do
  match ← byte with
  | 0 => return .func
  | 1 => return .table
  | 2 => return .memory
  | 3 => return .global
  | 4 => return .tag
  | _ => failure

def exported : Get Export := return ⟨← name, ← externKind, ← u32⟩

/-- The function type of a tag. -/
def tag : Get Nat := do
  if (← byte) = 0 then u32 else failure

def importType : Get ImportType := do
  match ← externKind with
  | .func => return .func (← u32)
  | .table => return .table (← tableType)
  | .memory => return .memory (← memoryType)
  | .global => return .global (← globalType)
  | .tag => return .tag (← tag)

def imported : Get Import := return ⟨← name, ← name, ← importType⟩

/-- A place in a table or memory that is named, or in the first one. -/
def place (named : Bool) : Get Place := return ⟨← if named then u32 else pure 0, ← constExpr⟩

/-- An element segment. Bits of its first number tell the mode, whether table and type are named,
and whether the elements are expressions. -/
def element : Get ElementSegment := do
  let flags ← u32
  if flags ≥ 8 then failure
  let mode ←
    if flags % 4 = 1 then pure .passive
    else if flags % 4 = 3 then pure .declared
    else ElementMode.active <$> place (flags % 4 = 2)
  if flags < 4 then
    if flags ≠ 0 then guard ((← externKind) = .func)
    return ⟨mode, .functions (← vector u32)⟩
  else
    let type ← if flags = 4 then pure ⟨true, .kind .func⟩ else refType
    return ⟨mode, .exprs type (← vector constExpr)⟩

def data : Get DataSegment := do
  match ← u32 with
  | 0 => return ⟨some (← place false), ← sized⟩
  | 1 => return ⟨none, ← sized⟩
  | 2 => return ⟨some (← place true), ← sized⟩
  | _ => failure

end Get

/-! ## Modules -/

namespace Framing

variable (f : Framing)

/-- The parts of a section; a section that is missing has none. -/
def parts (id : Nat) (part : Get α) : Option (List α) :=
  match f.section? id with
  | none => some []
  | some found => (Get.vector part).all found.content

/-- The number that a section holds. -/
def number? (id : Nat) : Option Nat :=
  (f.section? id).bind fun found => Get.u32.all found.content

end Framing

/-- The highest number of a section with a meaning. -/
def maxSection : Nat := 13

/-- The module of a binary. -/
def Module.ofBytes? (bytes : Bytes) : Option Module := do
  let f := Framing.of bytes
  guard (f.encoding = .module && f.complete && f.sections.all (·.id ≤ maxSection))
  return {
    types := ← f.parts 1 Get.typeGroup
    imports := ← f.parts 2 Get.imported
    functions := ← f.parts 3 Get.u32
    tables := ← f.parts 4 Get.table
    memories := ← f.parts 5 Get.memoryType
    tags := ← f.parts 13 Get.tag
    globals := ← f.parts 6 Get.global
    exports := ← f.parts 7 Get.exported
    start := f.number? 8
    elements := ← f.parts 9 Get.element
    dataCount := f.number? 12
    code := ← f.parts 10 Get.code
    data := ← f.parts 11 Get.data }

end StaticChain.Wasm
