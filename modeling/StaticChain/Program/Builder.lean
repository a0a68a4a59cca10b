import StaticChain.Program.Error

/-!
# Building a program step by step

`Builder` adds declarations and variables one at a time and keeps positions, parent and child links
in step. A step that does not fit, such as a parameter of an aggregate, is still carried out as far
as it can be, and is remembered as a `Misuse`. `Builder.finish` gives the program, or the first
misuse, or the first flaw.
-/

namespace StaticChain

/-- A program under construction, with the misuses so far in order. -/
structure Builder where
  program : Program
  misuses : List Misuse
deriving Inhabited

namespace Builder

def empty : Builder := ⟨Program.empty, []⟩

/-- Remembers a misuse unless the condition holds. -/
def expect (b : Builder) (misuse : Misuse) (condition : Bool) : Builder :=
  if condition then b else { b with misuses := b.misuses ++ [misuse] }

/-- Changes a declaration, if it exists. -/
def modifyDecl (b : Builder) (id : DeclId) (f : Declaration → Declaration) : Builder :=
  { b with program.declarations := b.program.declarations.modify id.index f }

/-! ## Declarations -/

/-- Adds a declaration and lists it under its parent. -/
def addDecl (b : Builder) (name : String) (parent : Option DeclId) (kind : DeclKind) :
    DeclId × Builder :=
  let id : DeclId := ⟨b.program.declarations.size⟩
  let b := match parent with
    | none => b
    | some parent =>
      (b.expect (.nestedInUnknown name parent) (b.program.decl? parent).isSome).modifyDecl parent
        fun decl => { decl with children := decl.children ++ [id] }
  let decl := { id, name, parent, locals := [], children := [], kind }
  (id, { b with program.declarations := b.program.declarations.push decl })

/-- Adds a function: a free one, one nested in a function, or a method of an aggregate. -/
def function (b : Builder) (name : String) (parent : Option DeclId) (returnType : ValueType) :
    DeclId × Builder :=
  b.addDecl name parent (.function { params := [], returnType, body := [] })

/-- Adds a function that has to be a method. -/
def method (b : Builder) (name : String) (aggregate : DeclId) (returnType : ValueType) :
    DeclId × Builder :=
  (b.expect (.methodOutsideAggregate name) (b.program.isAggregate aggregate)).function name
    (some aggregate) returnType

def aggregate (b : Builder) (name : String) (parent : Option DeclId) (kind : AggregateKind) :
    DeclId × Builder :=
  b.addDecl name parent (.aggregate { kind, fields := [] })

/-! ## Variables -/

/-- Adds a variable and lists it under its owner. -/
def addVar (b : Builder) (owner : DeclId) (name : String) (ty : ValueType) (kind : VarKind) :
    VarId × Builder :=
  let id : VarId := ⟨b.program.vars.size⟩
  let b := (b.expect (.ownedByUnknown name owner) (b.program.decl? owner).isSome).modifyDecl owner
    fun decl => { decl with locals := decl.locals ++ [id] }
  (id, { b with program.vars := b.program.vars.push { id, name, ty, owner, kind } })

/-- Whether a declaration lists a local. -/
def hasLocals (b : Builder) (owner : DeclId) : Bool :=
  (b.program.decl? owner).any fun decl =>
    decl.locals.any fun id => (b.program.var? id).any (·.kind == .local)

/-- Adds a parameter. Parameters come before locals. -/
def param (b : Builder) (owner : DeclId) (name : String) (ty : ValueType) : VarId × Builder :=
  let (id, b) := b.addVar owner name ty .param
  let b := b.expect (.paramAfterLocal name (b.program.qualifiedName owner)) (!b.hasLocals owner)
  let b := b.expect (.paramOfNonFunction name owner) (b.program.isFunction owner)
  (id, b.modifyDecl owner fun decl =>
    match decl.kind with
    | .function f => { decl with kind := .function { f with params := f.params ++ [id] } }
    | .aggregate _ => decl)

/-- Adds a local. -/
def addLocal (b : Builder) (owner : DeclId) (name : String) (ty : ValueType) : VarId × Builder :=
  (b.expect (.localOfNonFunction name owner) (b.program.isFunction owner)).addVar
    owner name ty .local

/-- Adds a field. -/
def field (b : Builder) (owner : DeclId) (name : String) (ty : ValueType) : VarId × Builder :=
  let (id, b) := b.addVar owner name ty .field
  let b := b.expect (.fieldOfNonAggregate name owner) (b.program.isAggregate owner)
  (id, b.modifyDecl owner fun decl =>
    match decl.kind with
    | .function _ => decl
    | .aggregate a => { decl with kind := .aggregate { a with fields := a.fields ++ [id] } })

/-- Gives a function its body. -/
def setBody (b : Builder) (owner : DeclId) (body : List Stmt) : Builder :=
  (b.expect (.bodyOfNonFunction owner) (b.program.isFunction owner)).modifyDecl owner fun decl =>
    match decl.kind with
    | .function f => { decl with kind := .function { f with body } }
    | .aggregate _ => decl

end Builder

/-- The program, if no step was misused and it has no flaw. -/
def Builder.finish (b : Builder) : Except ProgramError Program :=
  match b.misuses with
  | misuse :: _ => .error (.misuse misuse)
  | [] =>
    match b.program.check with
    | .error flaw => .error (.flaw flaw)
    | .ok () => .ok b.program

end StaticChain
