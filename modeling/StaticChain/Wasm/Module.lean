import StaticChain.Wasm.Instr

/-!
# WebAssembly modules

A module is the content of its sections. Functions, tables, memories, globals and tags are numbered,
imported ones before those that the module defines.
-/

namespace StaticChain.Wasm

structure Code where
  /-- The locals after the parameters. -/
  locals : List ValType
  body : List Token
deriving DecidableEq, Inhabited, Repr

/-- Code that gives an initial value or a place. -/
abbrev ConstExpr := List Op

structure Global where
  type : GlobalType
  init : ConstExpr
deriving DecidableEq, Inhabited, Repr

structure Table where
  type : TableType
  /-- The initial value of the elements, which are null without one. -/
  init : Option ConstExpr
deriving DecidableEq, Inhabited, Repr

inductive ImportType where
  | func (type : Nat)
  | table (type : TableType)
  | memory (type : MemoryType)
  | global (type : GlobalType)
  /-- A tag, with the function type of what it carries. -/
  | tag (type : Nat)
deriving DecidableEq, Inhabited, Repr

structure Import where
  module : String
  name : String
  type : ImportType
deriving DecidableEq, Inhabited, Repr

inductive ExternKind where
  | func | table | memory | global | tag
deriving DecidableEq, Inhabited, Repr

structure Export where
  name : String
  kind : ExternKind
  index : Nat
deriving DecidableEq, Inhabited, Repr

/-- A place in a table or memory. -/
structure Place where
  /-- The number of the table or memory. -/
  target : Nat
  offset : ConstExpr
deriving DecidableEq, Inhabited, Repr

/-- When the elements of a segment are used: they are put in place at the start, or by code, or they
only declare functions to which code may refer. -/
inductive ElementMode where
  | active (place : Place)
  | passive
  | declared
deriving DecidableEq, Inhabited, Repr

/-- The elements of a segment. -/
inductive ElementItems where
  | functions (functions : List Nat)
  | exprs (type : RefType) (exprs : List ConstExpr)
deriving DecidableEq, Inhabited, Repr

/-- Content for tables. -/
structure ElementSegment where
  mode : ElementMode
  items : ElementItems
deriving DecidableEq, Inhabited, Repr

/-- Content for memories. -/
structure DataSegment where
  /-- Where the content is put at the start, if it is. -/
  place : Option Place
  content : Bytes
deriving DecidableEq, Inhabited, Repr

structure Module where
  types : List TypeGroup := []
  imports : List Import := []
  /-- The types of the defined functions. -/
  functions : List Nat := []
  tables : List Table := []
  memories : List MemoryType := []
  /-- The types of the defined tags. -/
  tags : List Nat := []
  globals : List Global := []
  exports : List Export := []
  start : Option Nat := none
  elements : List ElementSegment := []
  /-- The number of data segments, announced before the code. -/
  dataCount : Option Nat := none
  code : List Code := []
  data : List DataSegment := []
deriving DecidableEq, Inhabited, Repr

end StaticChain.Wasm
