import StaticChain.Program.Basic

/-!
# Looking things up in a program

Lookups by position (`Program.decl?`, `Program.var?`), the parent relation and the walks along it:
`Program.ancestors` goes up, `Program.preorder` goes down, roots first and children in the order in
which their parent lists them. Every pass of the compiler visits declarations in that order.

On a program that was not checked the walks are cut at the number of declarations, so they end even
on a parent cycle.
-/

namespace StaticChain.Program

variable (p : Program)

def decl? (id : DeclId) : Option Declaration := p.declarations[id.index]?

def var? (id : VarId) : Option Variable := p.vars[id.index]?

def function? (id : DeclId) : Option FunctionDecl :=
  match p.decl? id with
  | some { kind := .function decl, .. } => some decl
  | _ => none

def aggregate? (id : DeclId) : Option AggregateDecl :=
  match p.decl? id with
  | some { kind := .aggregate decl, .. } => some decl
  | _ => none

def isFunction (id : DeclId) : Bool := (p.function? id).isSome

def isAggregate (id : DeclId) : Bool := (p.aggregate? id).isSome

def parent? (id : DeclId) : Option DeclId := (p.decl? id).bind Declaration.parent

/-- A method is a function directly inside an aggregate. -/
def isMethod (id : DeclId) : Bool :=
  p.isFunction id && (p.parent? id).any p.isAggregate

/-! ## Going up -/

/-- At most `n` declarations of a parent chain, from its first one on. -/
def parentChain : Nat → Option DeclId → List DeclId
  | 0, _ => []
  | _, none => []
  | n + 1, some id => id :: parentChain n (p.parent? id)

/-- The declarations around `id`, innermost first. -/
def ancestors (id : DeclId) : List DeclId :=
  p.parentChain p.declarations.size (p.parent? id)

def isAncestorOrSelf (ancestor id : DeclId) : Bool :=
  ancestor == id || (p.ancestors id).contains ancestor

/-- The number of declarations around `id`. -/
def depth (id : DeclId) : Nat := (p.ancestors id).length

/-! ## Going down -/

/-- The declarations with no parent, in order. -/
def roots : List DeclId :=
  (p.declarations.toList.filter (·.parent.isNone)).map Declaration.id

def children (id : DeclId) : List DeclId :=
  match p.decl? id with
  | some decl => decl.children
  | none => []

/-- A declaration and what is nested below it, down to `n` levels. -/
def preorderFrom : Nat → DeclId → List DeclId
  | 0, _ => []
  | n + 1, id => id :: (p.children id).flatMap (preorderFrom n)

/-- The number of levels that a walk down a program can have: one for each declaration, and one for
a child that does not exist. -/
def levels : Nat := p.declarations.size + 1

/-- Every declaration before what is nested in it, siblings in order. -/
def preorder : List DeclId := p.roots.flatMap (p.preorderFrom p.levels)

/-! ## Names -/

/-- The path of a declaration: the names around it and its own, outermost first. -/
def pathNames (id : DeclId) (name : String) : List String :=
  ((p.ancestors id).filterMap fun a => (p.decl? a).map Declaration.name).reverse ++ [name]

/-- The path of a declaration with dots between the names. -/
def qualifiedName (id : DeclId) : String :=
  match p.decl? id with
  | some decl => ".".intercalate (p.pathNames id decl.name)
  | none => "<" ++ toString id ++ ">"

/-- The first declaration with that path. -/
def findByPath (path : String) : Option DeclId :=
  (p.declarations.toList.map Declaration.id).find? fun id => p.qualifiedName id == path

/-- The path of a variable's owner and the variable's name. -/
def variableName (id : VarId) : String :=
  match p.var? id with
  | some var => p.qualifiedName var.owner ++ "." ++ var.name
  | none => "<" ++ toString id ++ ">"

end StaticChain.Program
