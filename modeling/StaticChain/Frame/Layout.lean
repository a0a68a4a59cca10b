import StaticChain.Capture
import StaticChain.Program.Typing

/-!
# Layouts of carriers

Every carrier has a struct type of its own. The frame of a function holds its captured variables
and, unless the function is at top level, a `parent` link. An instance holds the fields of its
aggregate and, where captures ask for it, an `outer` link. The link is the last slot.

`Layouts.of` numbers the struct types in the order of the declarations, so equal programs have
equal layouts.
-/

namespace StaticChain

namespace Layout

/-- What a slot holds. -/
inductive SlotKind where
  | captured (var : VarId)
  | field (var : VarId)
  | parent
  | outer
deriving DecidableEq, Inhabited, Repr

/-- The variable that a slot holds. -/
def SlotKind.var? : SlotKind → Option VarId
  | .captured var => some var
  | .field var => some var
  | .parent => none
  | .outer => none

structure Slot where
  kind : SlotKind
  name : String
  ty : Lir.Ty
deriving DecidableEq, Inhabited, Repr

end Layout

/-- The layout of the carrier of `owner`. -/
structure Layout where
  owner : DeclId
  struct : Lir.StructId
  name : String
  slots : List Layout.Slot
  parentSlot : Option Nat
  outerSlot : Option Nat
deriving DecidableEq, Inhabited, Repr

namespace Layout

/-- The slot of a variable. -/
def slotOf? (l : Layout) (var : VarId) : Option Nat :=
  l.slots.findIdx? (·.kind.var? == some var)

def slotType? (l : Layout) (slot : Nat) : Option Lir.Ty := l.slots[slot]?.map Slot.ty

/-- The slot that links to the next carrier. -/
def linkSlot? (l : Layout) : Option Nat := l.parentSlot <|> l.outerSlot

def toStruct (l : Layout) : Lir.StructType where
  id := l.struct
  name := l.name
  owner := l.owner
  slots := l.slots.map Slot.ty

/-- The layout as text, one slot a line. -/
def text (l : Layout) : String :=
  s!"{l.struct} {l.name} \x7b\n" ++
    String.join (l.slots.zipIdx.map fun (slot, index) =>
      s!"  [{index}] {slot.name}: {slot.ty}\n") ++ "\x7d"

/-- The slot of a variable. -/
def slotFor (p : Program) (kind : VarId → SlotKind) (id : VarId) : Except Defect Slot := do
  let var ← p.getVar id
  return { kind := kind id, name := var.name, ty := ← var.ty.storage }

/-- The layout of a function's frame. -/
def ofFrame (p : Program) (struct : Lir.StructId) (decl : Declaration) (captured : List VarId) :
    Except Defect Layout := do
  let slots ← captured.mapM (slotFor p .captured)
  let linked := decl.parent.isSome
  return {
    owner := decl.id
    struct
    name := "frame." ++ p.qualifiedName decl.id
    slots := slots ++ if linked then [{ kind := .parent, name := "parent", ty := .ptr }] else []
    parentSlot := if linked then some slots.length else none
    outerSlot := none }

/-- The layout of an aggregate's instances. -/
def ofInstance (p : Program) (struct : Lir.StructId) (decl : Declaration) (fields : List VarId)
    (linked : Bool) : Except Defect Layout := do
  let slots ← fields.mapM (slotFor p .field)
  return {
    owner := decl.id
    struct
    name := "inst." ++ p.qualifiedName decl.id
    slots := slots ++ if linked then [{ kind := .outer, name := "outer", ty := .ptr }] else []
    parentSlot := none
    outerSlot := if linked then some slots.length else none }

/-- The layout of a declaration, if it is a carrier. -/
def of? (p : Program) (c : Captures) (struct : Lir.StructId) (id : DeclId) :
    Except Defect (Option Layout) := do
  let decl ← p.getDecl id
  let some summary := c.summary? id | throw (.summaryMissing id)
  match decl.kind with
  | .function _ =>
    if summary.frameNeeded then some <$> ofFrame p struct decl summary.captured else return none
  | .aggregate aggregate => some <$> ofInstance p struct decl aggregate.fields summary.needsOuter

end Layout

/-- The layouts of a program, by struct type. -/
structure Layouts where
  layouts : Array Layout
deriving Inhabited, Repr

namespace Layouts

def empty : Layouts := ⟨#[]⟩

/-- Adds the layouts of some declarations, numbered from the next free number on. -/
def extend (p : Program) (c : Captures) : List DeclId → Layouts → Except Defect Layouts
  | [], ls => .ok ls
  | id :: rest, ls => do
    match ← Layout.of? p c ⟨ls.layouts.size⟩ id with
    | some layout => extend p c rest ⟨ls.layouts.push layout⟩
    | none => extend p c rest ls

/-- The layouts of all carriers of a program. -/
def of (p : Program) (c : Captures) : Except Defect Layouts :=
  extend p c p.preorder empty

/-- The layout of the carrier of a declaration. -/
def layout? (ls : Layouts) (owner : DeclId) : Option Layout :=
  ls.layouts.toList.reverse.find? (·.owner == owner)

/-- The layout of a declaration that must be a carrier. -/
def getLayout (ls : Layouts) (owner : DeclId) : Except Defect Layout :=
  match ls.layout? owner with
  | some layout => .ok layout
  | none => .error (.layoutMissing owner)

def byStruct? (ls : Layouts) (struct : Lir.StructId) : Option Layout :=
  ls.layouts[struct.index]?

def structs (ls : Layouts) : Array Lir.StructType := ls.layouts.map Layout.toStruct

/-- The layouts as text. -/
def text (ls : Layouts) : String :=
  String.join (ls.layouts.toList.map fun layout => layout.text ++ "\n")

end Layouts

end StaticChain
