import StaticChain.Program.Query

/-!
# Checking a program

`Program.check` accepts the programs that the compiler works on: positions agree with names, the
parent and child links agree and have no cycle, every variable belongs to exactly one declaration
and is of the kind its place asks for, and every name in a type or a body exists and is of the kind
its place asks for. Types are otherwise taken on trust.

A program that is not accepted has a `Flaw`. The checks run in a fixed order and the first flaw is
the answer: positions, then links and variables declaration by declaration, then ownership, then
bodies.
-/

namespace StaticChain

/-- What can be wrong with a program. -/
inductive Flaw where
  | declMisplaced (name : String) (index : Nat) (id : DeclId)
  | varMisplaced (name : String) (index : Nat) (id : VarId)
  | ownerUnknown (name : String) (owner : DeclId)
  | unitVariable (name : String)
  | notAnAggregate (user : String) (used : DeclId)
  | parentUnknown (name : String) (parent : DeclId)
  | notAChild (name parentName : String)
  | childOfAnother (name childName : String)
  | childUnknown (name : String) (child : DeclId)
  | cycle (name : String)
  | localUnknown (name : String) (var : VarId)
  | localOfAnother (name varName : String)
  | paramsOutOfPlace (name : String)
  | wrongKind (varName name : String)
  | fieldsDiffer (name : String)
  | notAllFields (name : String)
  | declaredTwice (path : String)
  | neverDeclared
  | letUnknown (var : VarId)
  | letElsewhere (name : String)
  | varUnknown (var : VarId)
  | fieldUnknown (field : VarId)
  | notAField (name : String)
  | notAFunction (target : DeclId)
  | notAMethod (path : String)
  | receiverMissing (path : String)
  | argumentCount (path : String) (expected given : Nat)
  | newOfNonAggregate (target : DeclId)
  | initializerCount (path : String) (expected given : Nat)
  | thisOfNonAggregate (target : DeclId)
  | notAFunctionValue (target : DeclId)
deriving DecidableEq, Inhabited, Repr

def Flaw.message : Flaw → String
  | .declMisplaced name index id =>
    s!"Declaration '{name}' is stored at index {index} but has id {id}"
  | .varMisplaced name index id => s!"Variable '{name}' is stored at index {index} but has id {id}"
  | .ownerUnknown name owner => s!"Variable '{name}' is owned by unknown {owner}"
  | .unitVariable name => s!"Variable '{name}' cannot have the Unit type"
  | .notAnAggregate user used =>
    s!"'{user}' uses {used} as an instance type, but it is not an aggregate"
  | .parentUnknown name parent => s!"'{name}' has unknown parent {parent}"
  | .notAChild name parentName =>
    s!"'{name}' names '{parentName}' as its parent but is not one of its children"
  | .childOfAnother name childName =>
    s!"'{name}' lists '{childName}' as a child, but the child has a different parent"
  | .childUnknown name child => s!"'{name}' has unknown child {child}"
  | .cycle name => s!"'{name}' is part of a nesting cycle"
  | .localUnknown name var => s!"'{name}' declares unknown {var}"
  | .localOfAnother name varName =>
    s!"'{name}' declares '{varName}', which is owned by another declaration"
  | .paramsOutOfPlace name =>
    s!"Parameters of '{name}' must be declared before its locals, in order"
  | .wrongKind varName name => s!"'{varName}' in function '{name}' has the wrong variable kind"
  | .fieldsDiffer name => s!"Fields of aggregate '{name}' do not match its declared variables"
  | .notAllFields name => s!"Aggregate '{name}' can only declare fields"
  | .declaredTwice path => s!"Variable '{path}' is declared by more than one declaration"
  | .neverDeclared => "Some variables are not declared by any declaration"
  | .letUnknown var => s!"Let binds unknown {var}"
  | .letElsewhere name =>
    s!"'{name}' can only be bound by a let in the function that declares it"
  | .varUnknown var => s!"Reference to unknown {var}"
  | .fieldUnknown field => s!"Reference to unknown field {field}"
  | .notAField name => s!"'{name}' is not a field"
  | .notAFunction target => s!"Call target {target} is not a function"
  | .notAMethod path => s!"'{path}' is not a method and cannot be called with a receiver"
  | .receiverMissing path => s!"Method '{path}' needs a receiver"
  | .argumentCount path expected given =>
    s!"'{path}' takes {expected} arguments but {given} were given"
  | .newOfNonAggregate target => s!"Cannot construct {target}, it is not an aggregate"
  | .initializerCount path expected given =>
    s!"'{path}' has {expected} fields but {given} initializers were given"
  | .thisOfNonAggregate target => s!"'this' of {target} which is not an aggregate"
  | .notAFunctionValue target =>
    s!"Only free or nested functions can be used as values, not {target}"

/-- Passes if the condition holds, which excludes the flaw, and otherwise fails with it. -/
def Flaw.excludedBy (flaw : Flaw) (condition : Bool) : Except Flaw Unit :=
  if condition then .ok () else .error flaw

namespace Program

variable (p : Program)

/-! ## Types -/

mutual

/-- Every instance type in the type names an aggregate. -/
def checkType (user : String) : ValueType → Except Flaw Unit
  | .instanceOf aggregate =>
    (Flaw.notAnAggregate user aggregate).excludedBy (p.isAggregate aggregate)
  | .function params ret => do
    checkTypes user params
    checkType user ret
  | _ => .ok ()

def checkTypes (user : String) : List ValueType → Except Flaw Unit
  | [] => .ok ()
  | ty :: rest => do
    checkType user ty
    checkTypes user rest

end

/-! ## Declarations and variables -/

/-- A variable stands at its position, has an owner and is of a type that has values to store. -/
def checkVariable (index : Nat) (var : Variable) : Except Flaw Unit := do
  (Flaw.varMisplaced var.name index var.id).excludedBy (var.id.index == index)
  (Flaw.ownerUnknown var.name var.owner).excludedBy (p.decl? var.owner).isSome
  (Flaw.unitVariable var.name).excludedBy (!var.ty.isUnit)
  p.checkType var.name var.ty

/-- A declaration's parent lists it as a child. -/
def checkParent (decl : Declaration) : Except Flaw Unit :=
  match decl.parent with
  | none => .ok ()
  | some parent =>
    match p.decl? parent with
    | none => .error (.parentUnknown decl.name parent)
    | some parentDecl =>
      (Flaw.notAChild decl.name parentDecl.name).excludedBy (parentDecl.children.contains decl.id)

/-- A child of a declaration has it as its parent. -/
def checkChild (decl : Declaration) (child : DeclId) : Except Flaw Unit :=
  match p.decl? child with
  | none => .error (.childUnknown decl.name child)
  | some childDecl =>
    (Flaw.childOfAnother decl.name childDecl.name).excludedBy (childDecl.parent == some decl.id)

/-- Whether a parent chain ends within `n` declarations. -/
def chainEnds : Nat → Option DeclId → Bool
  | _, none => true
  | 0, some _ => false
  | n + 1, some id => chainEnds n (p.parent? id)

/-- The links of a declaration agree with those around it, and its parent chain ends. -/
def checkNesting (decl : Declaration) : Except Flaw Unit := do
  p.checkParent decl
  decl.children.forM (p.checkChild decl)
  (Flaw.cycle decl.name).excludedBy (p.chainEnds p.declarations.size decl.parent)

/-- A declared variable exists and belongs to the declaration. -/
def checkLocal (decl : Declaration) (id : VarId) : Except Flaw Unit :=
  match p.var? id with
  | none => .error (.localUnknown decl.name id)
  | some var => (Flaw.localOfAnother decl.name var.name).excludedBy (var.owner == decl.id)

/-- A variable of a function is of the kind that its place says. -/
def checkFunctionLocal (decl : Declaration) (params : List VarId) (id : VarId) :
    Except Flaw Unit :=
  match p.var? id with
  | none => .error (.localUnknown decl.name id)
  | some var =>
    (Flaw.wrongKind var.name decl.name).excludedBy
      (var.kind == if params.contains id then .param else .local)

/-- A variable of an aggregate is a field. -/
def checkAggregateLocal (decl : Declaration) (id : VarId) : Except Flaw Unit :=
  match p.var? id with
  | none => .error (.localUnknown decl.name id)
  | some var => (Flaw.notAllFields decl.name).excludedBy (var.kind == .field)

/-- The variables of a declaration are its own, in the order and of the kinds that it says. -/
def checkLocals (decl : Declaration) : Except Flaw Unit := do
  decl.locals.forM (p.checkLocal decl)
  match decl.kind with
  | .function function =>
    (Flaw.paramsOutOfPlace decl.name).excludedBy (function.params.isPrefixOf decl.locals)
    decl.locals.forM (p.checkFunctionLocal decl function.params)
  | .aggregate aggregate =>
    (Flaw.fieldsDiffer decl.name).excludedBy (aggregate.fields == decl.locals)
    decl.locals.forM (p.checkAggregateLocal decl)

/-- The variables that declarations list, in order. -/
def allLocals : List VarId := p.declarations.toList.flatMap Declaration.locals

/-- The first of some variables that stood among the ones before it. -/
def firstRepeated : List VarId → List VarId → Option VarId
  | _, [] => none
  | seen, id :: rest => if seen.contains id then some id else firstRepeated (id :: seen) rest

/-- Every variable is declared exactly once. -/
def checkOwnership : Except Flaw Unit :=
  match firstRepeated [] p.allLocals with
  | some id => .error (.declaredTwice (p.variableName id))
  | none => Flaw.neverDeclared.excludedBy (p.allLocals.length == p.vars.size)

/-! ## Bodies -/

def checkVar (id : VarId) : Except Flaw Unit :=
  (Flaw.varUnknown id).excludedBy (p.var? id).isSome

def checkField (id : VarId) : Except Flaw Unit :=
  match p.var? id with
  | some var => (Flaw.notAField var.name).excludedBy (var.kind == .field)
  | none => .error (.fieldUnknown id)

/-- A call of a function, or with `method` of a method, passes as many arguments as it takes. -/
def checkCallee (target : DeclId) (given : Nat) (method : Bool) : Except Flaw Unit :=
  match p.function? target with
  | none => .error (.notAFunction target)
  | some function => do
    (if method then Flaw.notAMethod (p.qualifiedName target)
      else Flaw.receiverMissing (p.qualifiedName target)).excludedBy (p.isMethod target == method)
    (Flaw.argumentCount (p.qualifiedName target) function.params.length given).excludedBy
      (function.params.length == given)

/-- A new instance has one initial value for each field. -/
def checkNew (target : DeclId) (given : Nat) : Except Flaw Unit :=
  match p.aggregate? target with
  | none => .error (.newOfNonAggregate target)
  | some aggregate =>
    (Flaw.initializerCount (p.qualifiedName target) aggregate.fields.length given).excludedBy
      (aggregate.fields.length == given)

mutual

/-- Every name in the expression exists and is of the kind its place asks for. -/
def checkExpr : Expr → Except Flaw Unit
  | .int _ => .ok ()
  | .bool _ => .ok ()
  | .var id => p.checkVar id
  | .binary _ lhs rhs => do
    checkExpr lhs
    checkExpr rhs
  | .unary _ operand => checkExpr operand
  | .call function args => do
    p.checkCallee function args.length false
    checkExprs args
  | .methodCall receiver method args => do
    checkExpr receiver
    p.checkCallee method args.length true
    checkExprs args
  | .new aggregate args => do
    p.checkNew aggregate args.length
    checkExprs args
  | .fieldGet base field => do
    checkExpr base
    p.checkField field
  | .this aggregate => (Flaw.thisOfNonAggregate aggregate).excludedBy (p.isAggregate aggregate)
  | .functionRef function =>
    (Flaw.notAFunctionValue function).excludedBy (p.isFunction function && !p.isMethod function)
  | .callValue callee args => do
    checkExpr callee
    checkExprs args

def checkExprs : List Expr → Except Flaw Unit
  | [] => .ok ()
  | expr :: rest => do
    checkExpr expr
    checkExprs rest

end

/-- A `let` sets a local of the function it stands in. -/
def checkLet (function : DeclId) (id : VarId) : Except Flaw Unit :=
  match p.var? id with
  | none => .error (.letUnknown id)
  | some var =>
    (Flaw.letElsewhere var.name).excludedBy (var.owner == function && var.kind == .local)

def checkPlace : Place → Except Flaw Unit
  | .var id => p.checkVar id
  | .field base field => do
    p.checkExpr base
    p.checkField field

mutual

/-- Every name in a statement of the function exists and is of the kind its place asks for. -/
def checkStmt (function : DeclId) : Stmt → Except Flaw Unit
  | .letVar id value => do
    p.checkLet function id
    p.checkExpr value
  | .assign target value => do
    p.checkPlace target
    p.checkExpr value
  | .expr value => p.checkExpr value
  | .branch condition thenBlock elseBlock => do
    p.checkExpr condition
    checkBlock function thenBlock
    checkBlock function elseBlock
  | .loop condition body => do
    p.checkExpr condition
    checkBlock function body
  | .ret (some value) => p.checkExpr value
  | .ret none => .ok ()

def checkBlock (function : DeclId) : List Stmt → Except Flaw Unit
  | [] => .ok ()
  | stmt :: rest => do
    checkStmt function stmt
    checkBlock function rest

end

/-- The return type and the body of a function. -/
def checkBody (decl : Declaration) : Except Flaw Unit :=
  match decl.kind with
  | .function function => do
    p.checkType decl.name function.returnType
    p.checkBlock decl.id function.body
  | .aggregate _ => .ok ()

/-! ## The whole program -/

/-- Finds the first flaw of a program. -/
def check : Except Flaw Unit := do
  p.declarations.toList.zipIdx.forM fun (decl, index) =>
    (Flaw.declMisplaced decl.name index decl.id).excludedBy (decl.id.index == index)
  p.vars.toList.zipIdx.forM fun (var, index) => p.checkVariable index var
  p.declarations.toList.forM fun decl => do
    p.checkNesting decl
    p.checkLocals decl
  p.checkOwnership
  p.declarations.toList.forM p.checkBody

end Program

end StaticChain
