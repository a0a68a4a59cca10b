import StaticChain.Wasm.Types

/-!
# Subtyping

Two defined types are the same if their groups are: the same shapes in the same order, with the same
types referred to. `TypeSpace` gives equal types one number, so that types in which `heap?` and its
likes have put these numbers are equal just if they are written alike.

`TypeSpace.isBelow` is subtyping of values. A defined type is below the types that its declaration
names, which `TypeSpace.add?` takes only if the shapes agree.
-/

namespace StaticChain.Wasm

/-! ## Kinds -/

namespace HeapKind

/-- The kind above all that share objects with a kind. -/
def top : HeapKind → HeapKind
  | .func | .noFunc => .func
  | .external | .noExternal => .external
  | .exn | .noExn => .exn
  | _ => .any

/-- Whether there are no objects of the kind. -/
def isEmpty : HeapKind → Bool
  | .noFunc | .noExternal | .noAny | .noExn => true
  | _ => false

/-- Whether objects of the first kind are of the second. -/
def isBelow (a b : HeapKind) : Bool :=
  a == b || (a.top == b.top &&
    (a.isEmpty || b == b.top || (b == .eq && (a == .i31 || a == .struct || a == .array))))

end HeapKind

/-- The defined types of a module. -/
structure TypeSpace where
  /-- For each type its number; equal types have one. -/
  numbers : Array Nat := #[]
  /-- The different types by their numbers. They refer to each other by these numbers. -/
  types : Array SubType := #[]
  /-- The different groups, with the number of the first member. Here the members of a group are
  numbered from zero, and the types before it come after them. -/
  groups : List (List SubType × Nat) := []
deriving Inhabited

namespace TypeSpace

variable (s : TypeSpace)

/-! ## Numbers -/

/-- The defined type of a number that a module gives. -/
def heap? (type : HeapType) : Option HeapType := type.renumber? (s.numbers[·]?)

def ref? (type : RefType) : Option RefType := type.renumber? (s.numbers[·]?)

def val? (ty : ValType) : Option ValType := ty.renumber? (s.numbers[·]?)

/-- The shape of the type that has a number in its module. -/
def body? (index : Nat) : Option CompositeType := do
  return (← s.types[← s.numbers[index]?]?).body

/-- The function type that has a number in its module. -/
def func? (index : Nat) : Option FuncType :=
  match s.body? index with
  | some (.func type) => some type
  | _ => none

def struct? (index : Nat) : Option (List FieldType) :=
  match s.body? index with
  | some (.struct fields) => some fields
  | _ => none

def array? (index : Nat) : Option FieldType :=
  match s.body? index with
  | some (.array element) => some element
  | _ => none

/-! ## The relation -/

/-- The longest way up from a type. -/
def maxDepth : Nat := 63

/-- A type and the types above it, at most `fuel` of them. -/
def lineage : (fuel : Nat) → Nat → List Nat
  | 0, _ => []
  | fuel + 1, type => type :: (s.types[type]?.bind SubType.parent).elim [] (lineage fuel)

/-- The kind of the objects of a heap type. -/
def kind? : HeapType → Option HeapKind
  | .kind kind => some kind
  | .index type => s.types[type]?.map (·.body.kind)

/-- Whether objects of the first heap type are of the second. -/
def heapIsBelow : HeapType → HeapType → Bool
  | .index a, .index b => (s.lineage (maxDepth + 1) a).contains b
  | .kind a, .index b => a.isEmpty && (s.kind? (.index b)).any a.isBelow
  | a, .kind b => (s.kind? a).any (·.isBelow b)

def refIsBelow (a b : RefType) : Bool :=
  (b.nullable || !a.nullable) && s.heapIsBelow a.heap b.heap

/-- Whether values of the first type are of the second. -/
def isBelow : ValType → ValType → Bool
  | .ref a, .ref b => s.refIsBelow a b
  | a, b => a == b

/-- Whether there are as many types on both sides, each on the left below its neighbour. -/
def areBelow (as bs : List ValType) : Bool :=
  as.length == bs.length && (as.zip bs).all fun (a, b) => s.isBelow a b

/-- Whether what is read from storage of the first type can be put into storage of the second. -/
def storageIsBelow : StorageType → StorageType → Bool
  | .val a, .val b => s.isBelow a b
  | a, b => a == b

/-- Whether a field can stand for another. A field that can be written must hold the same type. -/
def fieldIsBelow (a b : FieldType) : Bool :=
  a.mutable == b.mutable && s.storageIsBelow a.storage b.storage &&
    (!b.mutable || s.storageIsBelow b.storage a.storage)

/-- Whether a type of the first shape may name one of the second as its parent. -/
def bodyIsBelow : CompositeType → CompositeType → Bool
  | .func a, .func b => s.areBelow b.params a.params && s.areBelow a.results b.results
  | .struct as, .struct bs =>
    bs.length ≤ as.length && (as.zip bs).all fun (a, b) => s.fieldIsBelow a b
  | .array a, .array b => s.fieldIsBelow a b
  | _, _ => false

/-! ## Definitions -/

/-- The number of the type at an index while a group of `size` types is added: members of the group
count from `first`, and the numbers of the types before it are moved up by `shift`. -/
def numberIn (size first shift index : Nat) : Option Nat :=
  if index < s.numbers.size then s.numbers[index]?.map (· + shift)
  else if index < s.numbers.size + size then some (first + (index - s.numbers.size))
  else none

/-- Whether the parent of a type can be one. -/
def parentIsValid (type : Nat) : Bool :=
  s.types[type]?.any fun found => found.parent.all fun parent =>
    (s.types[parent]?.any fun above => !above.isFinal && s.bodyIsBelow found.body above.body) &&
      (s.lineage (maxDepth + 2) type).length ≤ maxDepth + 1

/-- The types together with those of one more group, if all that they refer to is there and parents
come before their children. -/
def add? (members : List SubType) : Option TypeSpace := do
  let size := members.length
  guard (members.zipIdx.all fun (type, i) => type.parent.all (· < s.numbers.size + i))
  let key ← members.mapM (·.renumber? (s.numberIn size 0 size))
  match s.groups.find? (·.1 == key) with
  | some (_, first) => return { s with numbers := s.numbers ++ Array.range' first size }
  | none =>
    let first := s.types.size
    let added ← members.mapM (·.renumber? (s.numberIn size first 0))
    let s := {
      numbers := s.numbers ++ Array.range' first size
      types := s.types ++ added
      groups := (key, first) :: s.groups : TypeSpace }
    guard ((List.range' first size).all s.parentIsValid)
    return s

/-- The types of all groups of a module. -/
def ofGroups? (groups : List TypeGroup) : Option TypeSpace :=
  groups.foldlM (fun s group => s.add? group.members) {}

end TypeSpace

end StaticChain.Wasm
