import StaticChain.Lowering.Body

/-!
# Lowering programs

`Scope.lowerFunction` lowers one function with its prologue; `Nesting.lower` registers all functions
of a program, so that calls can name what is declared later, and lowers them one by one. A function
that cannot be lowered does not stop the others, and the defects come in the order of the functions.
-/

namespace StaticChain

open Lir (Emit ValueId LocalId FunctionBuilder)

namespace Scope

variable (s : Scope)

/-- The function before its body is written: its number, path, parameters and result. -/
def startFunction (decl : Declaration) (function : FunctionDecl) :
    Except Defect FunctionBuilder := do
  let p := s.nesting.program
  let id ← s.getFunction decl.id
  let params ← function.params.mapM fun param => do
    (← p.getVar param).ty.storage
  return .start id (p.qualifiedName decl.id) decl.id decl.parent.isSome params
    function.returnType.storage?

/-- Reads captured parameters into values and gives the other ones their locals. -/
def bindParams : Nat → List VarId → Emit (List (VarId × ValueId) × List (VarId × LocalId))
  | _, [] => return ([], [])
  | index, param :: rest => do
    let source := (← get).function.paramLocal index
    if s.nesting.captures.isCaptured param then
      let value ← FunctionBuilder.localGet source
      let (arrived, locals) ← bindParams (index + 1) rest
      return ((param, value) :: arrived, locals)
    else
      let (arrived, locals) ← bindParams (index + 1) rest
      return (arrived, (param, source) :: locals)

/-- Adds a local for each variable that is not captured. -/
def bindLocals : List VarId → Emit (List (VarId × LocalId))
  | [] => return []
  | id :: rest => do
    if s.nesting.captures.isCaptured id then
      bindLocals rest
    else
      let ty ← Emit.of (do (← s.nesting.program.getVar id).ty.storage)
      let added ← FunctionBuilder.addLocal ty
      let locals ← bindLocals rest
      return (id, added) :: locals

/-- What a function's code starts from: its context, the captured parameters as they arrive, and
the locals of all variables that are not captured. -/
def bindVariables (decl : Declaration) (function : FunctionDecl) :
    Emit (Option ValueId × List (VarId × ValueId) × List (VarId × LocalId)) := do
  let incoming ← match (← get).function.contextLocal? with
    | some source => some <$> FunctionBuilder.localGet source
    | none => pure none
  let (arrived, params) ← s.bindParams 0 function.params
  let locals ← s.bindLocals (decl.locals.drop function.params.length)
  return (incoming, arrived, params ++ locals)

/-- The body of a function and the end of its code: a return where there is no result, and a mark
that the end is not reached where there is one. -/
def lowerBody (function : FunctionDecl) : Emit Unit := do
  s.lowerBlock function.body
  FunctionBuilder.push (if function.returnType.isUnit then .ret none else .unreachable)

/-- Lowers a function. The scope that comes back is the one its body was lowered in, as far as it
was set up. -/
def lowerFunction (id : DeclId) : Except Defect Lir.Function × Scope :=
  let p := s.nesting.program
  match (do return (← p.getDecl id, ← p.getFunction id) : Except Defect _) with
  | .error defect => (.error defect, s)
  | .ok (decl, function) =>
    let s := s.reset
    match s.startFunction decl function with
    | .error defect => (.error defect, s)
    | .ok builder =>
      match (s.bindVariables decl function).run builder with
      | (.error defect, _) => (.error defect, s)
      | (.ok (incoming, arrived, locals), builder) =>
        let s := { s with locals }
        match (s.nesting.enterFunction id incoming arrived).run builder with
        | (.error defect, _) => (.error defect, s)
        | (.ok v, builder) =>
          let s := { s with current := some v }
          match (s.lowerBody function).run builder with
          | (.error defect, _) => (.error defect, s)
          | (.ok (), builder) => (builder.finish, s)

end Scope

namespace Nesting

variable (n : Nesting)

/-- The functions of the program, methods included. -/
def functionOrder : List DeclId := n.program.preorder.filter n.program.isFunction

/-- The scope in which all functions are registered. -/
def scope : Scope :=
  n.functionOrder.foldl (fun s id => (s.register id).2) (Scope.of n)

/-- The results of lowering the functions one by one. -/
def lowered : List (Except Defect Lir.Function) :=
  n.functionOrder.map fun id => (n.scope.lowerFunction id).1

/-- The module of the program, or the defects of all functions that have one. -/
def lower : Except (List Defect) Lir.Module :=
  let defects := n.lowered.filterMap fun
    | .error defect => some defect
    | .ok _ => none
  if defects.isEmpty then
    .ok {
      structs := n.layouts.structs
      functions := (n.lowered.filterMap Except.toOption).toArray }
  else .error defects

end Nesting

end StaticChain
