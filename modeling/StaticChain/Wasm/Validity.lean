import StaticChain.Wasm.Binary.Reader
import StaticChain.Wasm.Typing

/-!
# Valid modules

`Module.isValid` is whether a module keeps the rules of WebAssembly and the limits that its readers
share. A binary is valid if it is the binary of a valid module, or a bundle of such.
-/

namespace StaticChain.Wasm

/-! ## Limits -/

/-- The most parameters or results of a function type. -/
def maxArity : Nat := 1000

/-- The most fields of a structure. -/
def maxFields : Nat := 10000

/-- The most tables or memories of a module. -/
def maxStores : Nat := 100

/-- The most types, functions, globals, tags, imports or exports of a module. -/
def maxParts : Nat := 1000000

/-- The most segments of a module, of elements or of data. -/
def maxSegments : Nat := 100000

/-- The most elements of a segment. -/
def maxElements : Nat := 10000000

/-- The most bytes of a function's code. -/
def maxCodeSize : Nat := 7654321

/-- What the types of imports and exports add up to is less than this. -/
def maxTypeSize : Nat := 1000000

/-- The upper limit is not below the lower one. -/
def Limits.isOrdered (limits : Limits) : Bool := limits.max.all (limits.min ≤ ·)

namespace MemoryType

/-- The most pages of a memory. -/
def maxPages : Width → Nat
  | .w32 => 1 <<< 16
  | .w64 => 1 <<< 48

/-- A memory can be addressed, and one that is shared has an upper limit. -/
def isValid (type : MemoryType) : Bool :=
  type.limits.isOrdered && type.limits.min ≤ maxPages type.index &&
    type.limits.max.all (· ≤ maxPages type.index) && (!type.shared || type.limits.max.isSome)

end MemoryType

def CompositeType.isWithinLimits : CompositeType → Bool
  | .func type => type.params.length ≤ maxArity && type.results.length ≤ maxArity
  | .struct fields => fields.length ≤ maxFields
  | .array _ => true

namespace Module

variable (m : Module)

/-! ## What imports and definitions together give -/

/-- What imports of one kind are. -/
def imported (kind : ImportType → Option α) : List α := m.imports.filterMap fun i => kind i.type

/-- The types of all functions. -/
def allFunctions : List Nat :=
  m.imported (fun | .func type => some type | _ => none) ++ m.functions

def importedTables : List TableType := m.imported fun | .table type => some type | _ => none

/-- The types of all tables. -/
def allTables : List TableType := m.importedTables ++ m.tables.map Table.type

def allMemories : List MemoryType :=
  m.imported (fun | .memory type => some type | _ => none) ++ m.memories

def importedGlobals : List GlobalType := m.imported fun | .global type => some type | _ => none

/-- The types of all globals. -/
def allGlobals : List GlobalType := m.importedGlobals ++ m.globals.map Global.type

/-- The types of all tags. -/
def allTags : List Nat :=
  m.imported (fun | .tag type => some type | _ => none) ++ m.tags

/-- The functions that a segment names. -/
def referredBy (segment : ElementSegment) : List Nat :=
  (match segment.items with
    | .functions functions => functions
    | .exprs _ exprs => exprs.flatten.filterMap Op.referred?) ++
  (match segment.mode with
    | .active place => place.offset.filterMap Op.referred?
    | _ => [])

/-- The functions to which code can make references: those that stand outside code. -/
def declared : List Nat :=
  (m.exports.filter (·.kind = .func)).map Export.index ++
    m.elements.flatMap referredBy ++
    (m.globals.flatMap Global.init ++ m.tables.flatMap (·.init.getD [])).filterMap Op.referred?

/-- The type of the elements of a segment. -/
def elementType : ElementItems → RefType
  | .functions _ => ⟨false, .kind .func⟩
  | .exprs type _ => type

/-- What all code of the module can refer to, if all types are there. -/
def context? : Option Context := do
  let types ← TypeSpace.ofGroups? m.types
  let function (index : Nat) : Option Nat := do
    let _ ← types.func? index
    types.numbers[index]?
  return {
    types
    functions := (← m.allFunctions.mapM function).toArray
    tables := (← m.allTables.mapM fun type => do
      return { type with element := ← types.ref? type.element }).toArray
    memories := m.allMemories.toArray
    globals := (← m.allGlobals.mapM fun type => do
      return { type with ty := ← types.val? type.ty }).toArray
    tags := (← m.allTags.mapM types.func?).toArray
    elements := (← m.elements.mapM fun segment => types.ref? (elementType segment.items)).toArray
    dataCount := m.dataCount
    declared := m.declared }

/-! ## Rules -/

/-- Whether the globals from a place on have fitting initial values, given those before them. -/
def globalsAreValid (c : Context) : (before : Nat) → List Global → Bool
  | _, [] => true
  | before, global :: rest =>
    let visible := { c with globals := c.globals.take before }
    (c.globals[before]?.any fun type => visible.checkConst global.init type.ty) &&
      globalsAreValid c (before + 1) rest

/-- Whether a table has a fitting initial value. Only imported globals come before it. -/
def tableIsValid (c : Context) (type : TableType) (init : Option ConstExpr) : Bool :=
  let visible := { c with globals := c.globals.take m.importedGlobals.length }
  match init with
  | none => type.element.nullable
  | some init => visible.checkConst init (.ref type.element)

/-- Whether an export names something that is there. -/
def exportIsValid (c : Context) (e : Export) : Bool :=
  e.name.utf8ByteSize ≤ Get.maxName &&
    match e.kind with
    | .func => e.index < c.functions.size
    | .table => e.index < c.tables.size
    | .memory => e.index < c.memories.size
    | .global => e.index < c.globals.size
    | .tag => e.index < c.tags.size

/-- Whether a segment fits the table in which it is put. -/
def elementIsValid (c : Context) (segment : ElementSegment) (type : RefType) : Bool :=
  (match segment.mode with
    | .active place => c.tables[place.target]?.any fun table =>
      c.types.refIsBelow type table.element && c.checkConst place.offset table.index.ty
    | _ => true) &&
  match segment.items with
  | .functions functions =>
    functions.length ≤ maxElements && functions.all (· < c.functions.size)
  | .exprs _ exprs => exprs.length ≤ maxElements && exprs.all (c.checkConst · (.ref type))

/-- Whether a segment is put in a memory that is there. -/
def dataIsValid (c : Context) (segment : DataSegment) : Bool :=
  segment.place.all fun place => (c.address? place.target).any fun address =>
    c.checkConst place.offset address.ty

/-- Whether the code of a function is well typed. -/
def codeIsValid (c : Context) (type : FuncType) (code : Code) : Bool :=
  (code.locals.mapM c.types.val?).any fun locals =>
    let c := { c with locals := (type.params ++ locals).toArray, results := type.results }
    c.locals.size ≤ Get.maxLocals && code.bytes.length ≤ maxCodeSize &&
      (Instr.ofTokens? code.body).any (c.checkBody type.params.length)

/-- The size of the type of an import or export. -/
def typeSize (c : Context) (kind : ExternKind) (index : Nat) : Nat :=
  let size (type : FuncType) := 2 + type.params.length + type.results.length
  match kind with
  | .func => (c.function? index).elim 1 size
  | .tag => c.tags[index]?.elim 1 size
  | _ => 1

/-- The size of the types of all imports and exports. -/
def totalTypeSize (c : Context) : Nat :=
  let functions := m.allFunctions.length - m.functions.length
  let tags := m.allTags.length - m.tags.length
  let sizes := (List.range functions).map (typeSize c .func) ++
    (List.range tags).map (typeSize c .tag) ++ m.exports.map fun e => typeSize c e.kind e.index
  sizes.foldl (· + ·) (1 + (m.imports.length - functions - tags))

/-- Whether the module keeps the limits on the number of its parts. -/
def isWithinLimits : Bool :=
  let types := m.types.flatMap TypeGroup.members
  [types.length, m.allFunctions.length, m.allGlobals.length, m.allTags.length, m.imports.length,
      m.exports.length].all (· ≤ maxParts) &&
    m.allTables.length ≤ maxStores && m.allMemories.length ≤ maxStores &&
    m.elements.length ≤ maxSegments && m.data.length ≤ maxSegments &&
    m.dataCount.all (· ≤ maxSegments) && types.all (·.body.isWithinLimits)

/-- Whether the parts that hold no code keep the rules. -/
def partsAreValid (c : Context) : Bool :=
  m.allTables.all (·.limits.isOrdered) &&
    (m.tables.zip (c.tables.toList.drop m.importedTables.length)).all (fun (table, type) =>
      m.tableIsValid c type table.init) &&
    m.allMemories.all MemoryType.isValid &&
    c.tags.all (·.results.isEmpty) &&
    globalsAreValid c m.importedGlobals.length m.globals &&
    m.exports.all (exportIsValid c) &&
    (m.exports.map Export.name).Nodup &&
    m.start.all (fun function => c.function? function == some ⟨[], []⟩) &&
    (m.elements.zip c.elements.toList).all (fun (segment, type) => elementIsValid c segment type) &&
    m.data.all (dataIsValid c)

/-- Whether every function has its code, and it is well typed. -/
def bodiesAreValid (c : Context) : Bool :=
  let imported := m.allFunctions.length - m.functions.length
  m.code.length == m.functions.length &&
    m.code.zipIdx.all fun (code, i) =>
      (c.function? (imported + i)).any fun type => codeIsValid c type code

def isValid : Bool :=
  m.isWithinLimits && m.context?.any fun c =>
    totalTypeSize m c < maxTypeSize && m.partsAreValid c && m.bodiesAreValid c

end Module

/-! ## Binaries -/

/-- The most modules, or components, in one bundle. -/
def maxBundled : Nat := 1000

/-- Whether no two imports of a module have the same two names. -/
def Module.importsDiffer (m : Module) : Bool :=
  (m.imports.map fun i => (i.module, i.name)).Nodup

/-- Whether a component bundles valid modules and components, at most `depth` deep. Its sections for
instances, types and the like have no parts. -/
def isValidComponent : (depth : Nat) → Framing → Bool
  | 0, _ => false
  | depth + 1, f =>
    f.encoding = .component && f.complete &&
      [1, 4].all (fun id => f.sections.countP (·.id == id) ≤ maxBundled) &&
      f.sections.all fun found =>
        match found.id with
        | 0 => true
        | 1 => (Module.ofBytes? found.content).any fun m => m.isValid && m.importsDiffer
        | 4 => isValidComponent depth (Framing.of found.content true)
        | id => id ≤ 11 && id ≠ 9 && Get.u32.all found.content == some 0

/-- Whether a binary is the binary of a valid module, or a component of such. -/
def isValidBinary (bytes : Bytes) : Bool :=
  (Module.ofBytes? bytes).any Module.isValid || isValidComponent bytes.length (Framing.of bytes)

end StaticChain.Wasm
