/-!
# Programs

A `Program` is a type-checked unit of functions and aggregates nested in each other. Every function
and aggregate is a `Declaration`, every parameter, local and field a `Variable`; both are named by
their position (`DeclId`, `VarId`), and bodies refer to them by these names only. A declaration
lists its lexical parent, the variables it declares and the declarations nested directly in it.

Nothing here is checked: `Program.check` says which programs the compiler works on.
-/

namespace StaticChain

/-- The position of a declaration in its program. -/
structure DeclId where
  index : Nat
deriving DecidableEq, Inhabited, Repr

/-- The position of a variable in its program. -/
structure VarId where
  index : Nat
deriving DecidableEq, Inhabited, Repr

instance : ToString DeclId := ⟨fun id => "decl#" ++ toString id.index⟩

instance : ToString VarId := ⟨fun id => "var#" ++ toString id.index⟩

/-! ## Types -/

/-- The type of a value. -/
inductive ValueType where
  | unit
  | int
  | bool
  /-- A pointer to an instance of an aggregate. -/
  | instanceOf (aggregate : DeclId)
  /-- A function together with the context it was named in. -/
  | function (params : List ValueType) (ret : ValueType)
deriving Inhabited, Repr

namespace ValueType

def isUnit : ValueType → Bool
  | .unit => true
  | _ => false

mutual

/-- How a type is shown to a reader. -/
def text : ValueType → String
  | .unit => "Unit"
  | .int => "Int"
  | .bool => "Bool"
  | .instanceOf aggregate => "Instance(" ++ toString aggregate ++ ")"
  | .function params ret => "fn(" ++ textList params ++ ") -> " ++ text ret

/-- Types with a comma between them. -/
def textList : List ValueType → String
  | [] => ""
  | [ty] => text ty
  | ty :: rest => text ty ++ ", " ++ textList rest

end

end ValueType

/-! ## Bodies -/

/-- The operators with two operands. -/
inductive BinOp where
  | add | sub | mul | div | rem
  | eq | ne | lt | le | gt | ge
  | and | or
deriving DecidableEq, Inhabited, Repr

namespace BinOp

def isComparison : BinOp → Bool
  | .eq | .ne | .lt | .le | .gt | .ge => true
  | _ => false

/-- The operator's sign. -/
def sign : BinOp → String
  | .add => "+"
  | .sub => "-"
  | .mul => "*"
  | .div => "/"
  | .rem => "%"
  | .eq => "=="
  | .ne => "!="
  | .lt => "<"
  | .le => "<="
  | .gt => ">"
  | .ge => ">="
  | .and => "and"
  | .or => "or"

end BinOp

/-- The operators with one operand. -/
inductive UnaryOp where
  | neg | not
deriving DecidableEq, Inhabited, Repr

/-- An expression. -/
inductive Expr where
  | int (value : Int64)
  | bool (value : Bool)
  /-- A parameter or local of an enclosing function, or a field of an enclosing aggregate. -/
  | var (var : VarId)
  | binary (op : BinOp) (lhs rhs : Expr)
  | unary (op : UnaryOp) (operand : Expr)
  /-- A call of a function that is not a method. -/
  | call (function : DeclId) (args : List Expr)
  /-- A call of a method on an instance. -/
  | methodCall (receiver : Expr) (method : DeclId) (args : List Expr)
  /-- A new instance, with one initial value for each field in order. -/
  | new (aggregate : DeclId) (args : List Expr)
  | fieldGet (base : Expr) (field : VarId)
  /-- The enclosing instance of an aggregate. -/
  | this (aggregate : DeclId)
  /-- A function as a value, with the context it is named in. -/
  | functionRef (function : DeclId)
  /-- A call of a function value. -/
  | callValue (callee : Expr) (args : List Expr)
deriving Inhabited, Repr

/-- What an assignment writes to. -/
inductive Place where
  | var (var : VarId)
  | field (base : Expr) (field : VarId)
deriving Inhabited, Repr

/-- A statement. -/
inductive Stmt where
  /-- Sets a local of the function for the first time. -/
  | letVar (var : VarId) (value : Expr)
  | assign (target : Place) (value : Expr)
  /-- An expression whose value is dropped. -/
  | expr (value : Expr)
  | branch (condition : Expr) (thenBlock elseBlock : List Stmt)
  | loop (condition : Expr) (body : List Stmt)
  | ret (value : Option Expr)
deriving Inhabited, Repr

/-! ## Declarations -/

/-- What a function adds to its declaration. -/
structure FunctionDecl where
  params : List VarId
  returnType : ValueType
  body : List Stmt
deriving Inhabited, Repr

/-- The two kinds of aggregate. They differ in name only. -/
inductive AggregateKind where
  | classType
  | structType
deriving DecidableEq, Inhabited, Repr

/-- What an aggregate adds to its declaration. -/
structure AggregateDecl where
  kind : AggregateKind
  fields : List VarId
deriving Inhabited, Repr

inductive DeclKind where
  | function (decl : FunctionDecl)
  | aggregate (decl : AggregateDecl)
deriving Inhabited, Repr

structure Declaration where
  id : DeclId
  name : String
  /-- The function or aggregate around this one, if any. -/
  parent : Option DeclId
  /-- The variables declared here: parameters before locals, or fields. -/
  locals : List VarId
  /-- The declarations nested directly in this one. -/
  children : List DeclId
  kind : DeclKind
deriving Inhabited, Repr

inductive VarKind where
  | param | local | field
deriving DecidableEq, Inhabited, Repr

structure Variable where
  id : VarId
  name : String
  ty : ValueType
  owner : DeclId
  kind : VarKind
deriving Inhabited, Repr

/-- A unit of compilation. -/
structure Program where
  declarations : Array Declaration
  vars : Array Variable
deriving Inhabited, Repr

/-- The program that declares nothing. -/
def Program.empty : Program := ⟨#[], #[]⟩

end StaticChain
