/-!
# Types of WebAssembly

Values are numbers, vectors of 128 bits and references. A reference goes to an object on the heap,
whose type is one of the built-in kinds or a type that the module defines. Defined types stand in
groups; the types of a group may refer to each other, and to all types before them.
-/

namespace StaticChain.Wasm

/-! ## Values -/

/-- The built-in kinds of heap objects. The last four have no objects: they are below all the
functions, host objects, other objects and exceptions. -/
inductive HeapKind where
  | func | external | any | eq | i31 | struct | array | exn
  | noFunc | noExternal | noAny | noExn
deriving DecidableEq, Inhabited, Repr

inductive HeapType where
  | kind (kind : HeapKind)
  /-- A defined type, by its number. -/
  | index (type : Nat)
deriving DecidableEq, Inhabited, Repr

structure RefType where
  nullable : Bool
  heap : HeapType
deriving DecidableEq, Inhabited, Repr

inductive ValType where
  | i32 | i64 | f32 | f64 | v128
  | ref (type : RefType)
deriving DecidableEq, Inhabited, Repr

/-- Whether locals and fields of the type have an initial value. -/
def ValType.hasDefault : ValType → Bool
  | .ref type => type.nullable
  | _ => true

def ValType.isRef : ValType → Bool
  | .ref _ => true
  | _ => false

/-- The widths of integers. -/
inductive Width where
  | w32 | w64
deriving DecidableEq, Inhabited, Repr

def Width.ty : Width → ValType
  | .w32 => .i32
  | .w64 => .i64

/-- The smaller of two widths. -/
def Width.meet : Width → Width → Width
  | .w64, .w64 => .w64
  | _, _ => .w32

/-! ## Defined types -/

structure FuncType where
  params : List ValType
  results : List ValType
deriving DecidableEq, Inhabited, Repr

/-- What a field holds. Narrow integers are kept in fields only. -/
inductive StorageType where
  | i8 | i16
  | val (ty : ValType)
deriving DecidableEq, Inhabited, Repr

namespace StorageType

def isPacked : StorageType → Bool
  | .val _ => false
  | _ => true

/-- The type of the values that are stored. -/
def unpacked : StorageType → ValType
  | .val ty => ty
  | _ => .i32

end StorageType

structure FieldType where
  storage : StorageType
  mutable : Bool
deriving DecidableEq, Inhabited, Repr

/-- The shape of a defined type. -/
inductive CompositeType where
  | func (type : FuncType)
  | struct (fields : List FieldType)
  | array (element : FieldType)
deriving DecidableEq, Inhabited, Repr

/-- The kind of heap objects to which a shape belongs. -/
def CompositeType.kind : CompositeType → HeapKind
  | .func _ => .func
  | .struct _ => .struct
  | .array _ => .array

/-- A defined type, perhaps below another one. -/
structure SubType where
  body : CompositeType
  parent : Option Nat := none
  /-- Whether no type can be below it. -/
  isFinal : Bool := true
deriving DecidableEq, Inhabited, Repr

/-- Types that are defined together. -/
inductive TypeGroup where
  | single (type : SubType)
  | recursive (types : List SubType)
deriving DecidableEq, Inhabited, Repr

namespace TypeGroup

def members : TypeGroup → List SubType
  | .single type => [type]
  | .recursive types => types

/-- The group of a function type that stands alone. -/
def func (type : FuncType) : TypeGroup := .single { body := .func type }

end TypeGroup

/-! ## Parts of modules -/

/-- The size of a table in elements, or of a memory in pages. -/
structure Limits where
  min : Nat
  max : Option Nat
deriving DecidableEq, Inhabited, Repr

structure MemoryType where
  limits : Limits
  /-- The width of addresses. -/
  index : Width := .w32
  shared : Bool := false
deriving DecidableEq, Inhabited, Repr

structure TableType where
  element : RefType
  limits : Limits
  /-- The width of positions. -/
  index : Width := .w32
deriving DecidableEq, Inhabited, Repr

structure GlobalType where
  ty : ValType
  mutable : Bool
deriving DecidableEq, Inhabited, Repr

/-! ## Other numbers for defined types

`renumber?` is a type with other numbers for the defined types in it, if all of them have one. -/

section Renumber

variable (f : Nat → Option Nat)

def HeapType.renumber? : HeapType → Option HeapType
  | .kind k => some (.kind k)
  | .index type => (f type).map .index

def RefType.renumber? (type : RefType) : Option RefType :=
  (type.heap.renumber? f).map (⟨type.nullable, ·⟩)

def ValType.renumber? : ValType → Option ValType
  | .ref type => (type.renumber? f).map .ref
  | ty => some ty

def FuncType.renumber? (type : FuncType) : Option FuncType := do
  return ⟨← type.params.mapM (·.renumber? f), ← type.results.mapM (·.renumber? f)⟩

def FieldType.renumber? (type : FieldType) : Option FieldType :=
  match type.storage with
  | .val ty => (ty.renumber? f).map fun ty => ⟨.val ty, type.mutable⟩
  | _ => some type

def CompositeType.renumber? : CompositeType → Option CompositeType
  | .func type => (type.renumber? f).map .func
  | .struct fields => (fields.mapM (FieldType.renumber? f)).map .struct
  | .array element => (element.renumber? f).map .array

def SubType.renumber? (type : SubType) : Option SubType := do
  return { type with body := ← type.body.renumber? f, parent := ← type.parent.mapM f }

end Renumber

end StaticChain.Wasm
