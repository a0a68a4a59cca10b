import StaticChain.Chain.Basic
import StaticChain.Diagnostic
import StaticChain.Program.Query

/-!
# Defects

A `Defect` is a promise that one pass of the compiler makes to another and that does not hold: a
name that does not exist, a variable that was not marked captured, a carrier without a slot. It
names declarations and variables by position; `Defect.toDiagnostic` finds their paths in the
program.
-/

namespace StaticChain

/-- What can be wrong between the passes of the compiler. -/
inductive Defect where
  -- Lookups
  | declUnknown (id : DeclId)
  | varUnknown (id : VarId)
  | notAFunction (id : DeclId)
  | notAnAggregate (id : DeclId)
  | calledNonFunction (ty : ValueType)
  -- Captures and layouts
  | notEnclosing (useSite target : DeclId) (var : Option VarId)
  | unitStorage
  | summaryMissing (id : DeclId)
  | layoutMissing (owner : DeclId)
  -- Chains
  | notACarrier (useSite target : DeclId)
  | selfWithoutFrame (useSite : DeclId)
  | targetNotAround (useSite target : DeclId)
  | linkMissing (through : DeclId) (layout : String)
  | neverCaptured (useSite : DeclId) (var : VarId) (name : String)
  | slotMissing (name layout : String)
  | startMissing (useSite : DeclId) (start : Chain.Start)
  -- Frames, instances and contexts
  | allocationMissing (layout : String)
  | contextMissing (function : DeclId)
  | paramSlotMissing (var : VarId) (layout : String)
  | fieldCount (layout : String) (fields given : Nat)
  | outerMissing (layout : String)
  | outerUnexpected (layout : String)
  | receiverMissing (useSite method : DeclId)
  | methodAsValue (useSite method : DeclId)
  -- Lowering
  | functionUnregistered (id : DeclId)
  | outsideFunction
  | localMissing (var : VarId)
  | notAFunctionValue (ty : ValueType)
  | unitAsValue (current : Option DeclId)
  | fieldSlotMissing (current : Option DeclId) (name layout : String)
  | localUndeclared (id : Lir.LocalId)
  | blockUnbalanced (function : String)
  | blocksOpen (function : String) (count : Nat)
deriving Inhabited, Repr

namespace Defect

variable (p : Program)

def message : Defect → String
  | .declUnknown id => s!"Declaration {id} is not part of the nesting tree"
  | .varUnknown id => s!"Variable {id} is not part of the nesting tree"
  | .notAFunction id => s!"Expected '{p.qualifiedName id}' to be a function"
  | .notAnAggregate id => s!"Expected '{p.qualifiedName id}' to be an aggregate"
  | .calledNonFunction ty => s!"Called a value of type {ty.text} as a function"
  | .notEnclosing useSite target _ =>
    s!"'{p.qualifiedName target}' is referenced from '{p.qualifiedName useSite}', " ++
      "which is not nested inside it"
  | .unitStorage => "Unit values have no storage"
  | .summaryMissing id => s!"No capture summary for '{p.qualifiedName id}'"
  | .layoutMissing owner => s!"No context layout exists for {owner}"
  | .notACarrier _ target =>
    s!"'{p.qualifiedName target}' carries no context and cannot be the end of a chain"
  | .selfWithoutFrame _ => "A use site without its own frame cannot point at itself"
  | .targetNotAround _ target =>
    s!"'{p.qualifiedName target}' is not an enclosing scope of the use site"
  | .linkMissing _ layout => s!"'{layout}' has no link slot to walk through"
  | .neverCaptured _ _ name =>
    s!"'{name}' belongs to an enclosing function but was never marked captured"
  | .slotMissing name layout => s!"'{name}' has no slot in {layout}"
  | .startMissing _ start => s!"Chain starts from {start.name}, which this activation lacks"
  | .allocationMissing layout => s!"No allocation decision for {layout}"
  | .contextMissing function =>
    s!"'{p.qualifiedName function}' has a parent link but received no context"
  | .paramSlotMissing var layout =>
    s!"Captured parameter {p.variableName var} has no slot in {layout}"
  | .fieldCount layout fields given =>
    s!"{layout} has {fields} fields but {given} initializers were lowered"
  | .outerMissing layout => s!"{layout} needs an outer link but none was threaded"
  | .outerUnexpected layout => s!"{layout} has no outer slot for the threaded link"
  | .receiverMissing _ method =>
    s!"Method '{p.qualifiedName method}' was called without a receiver"
  | .methodAsValue _ method =>
    s!"Method '{p.qualifiedName method}' cannot be used as a function value"
  | .functionUnregistered id =>
    s!"Function '{p.qualifiedName id}' was never registered for lowering"
  | .outsideFunction => "Body lowering started outside of a function"
  | .localMissing var => s!"'{p.variableName var}' has no local in the current function"
  | .notAFunctionValue ty => s!"Expected a function value, found {ty.text}"
  | .unitAsValue _ => "A Unit expression was used as a value"
  | .fieldSlotMissing _ name layout => s!"Field '{name}' has no slot in {layout}"
  | .localUndeclared id => s!"Read of undeclared LIR local {id}"
  | .blockUnbalanced function => s!"Unbalanced block in LIR function '{function}'"
  | .blocksOpen function count => s!"LIR function '{function}' finished with {count} open blocks"

/-- The declaration at which a defect is reported, and whether its path is given too. -/
def place : Defect → Option (DeclId × Bool)
  | .notEnclosing useSite _ _ => some (useSite, false)
  | .notACarrier useSite _ => some (useSite, true)
  | .selfWithoutFrame useSite => some (useSite, true)
  | .targetNotAround useSite _ => some (useSite, true)
  | .linkMissing through _ => some (through, true)
  | .neverCaptured useSite _ _ => some (useSite, true)
  | .startMissing useSite _ => some (useSite, true)
  | .receiverMissing useSite _ => some (useSite, false)
  | .methodAsValue useSite _ => some (useSite, false)
  | .unitAsValue (some current) => some (current, true)
  | .fieldSlotMissing (some current) _ _ => some (current, true)
  | _ => none

/-- The pass that found the defect, where the report names it. -/
def stage : Defect → Option String
  | .notEnclosing .. => some "capture analysis"
  | .notACarrier .. => some "context resolution"
  | .selfWithoutFrame .. => some "context resolution"
  | .targetNotAround .. => some "context resolution"
  | .linkMissing .. => some "context resolution"
  | .neverCaptured .. => some "context resolution"
  | .startMissing .. => some "context resolution"
  | .receiverMissing .. => some "context threading"
  | .unitAsValue .. => some "body lowering"
  | .fieldSlotMissing .. => some "body lowering"
  | _ => none

/-- The paths that a report gives besides. -/
def paths : Defect → List (Diagnostic.Key × String)
  | .notEnclosing useSite target var =>
    [(.useSite, p.qualifiedName useSite), (.declaration, p.qualifiedName target)] ++
      (var.map fun id => (.variable, p.variableName id)).toList
  | .neverCaptured _ var _ => [(.variable, p.variableName var)]
  | _ => []

/-- The defect as shown to a user. -/
def toDiagnostic (d : Defect) : Diagnostic where
  kind := .compiler
  message := d.message p
  declaration := d.place.map Prod.fst
  declarationPath := (d.place.filter Prod.snd).map fun (id, _) => p.qualifiedName id
  details := (d.stage.map fun stage => (.compilationStage, stage)).toList ++ d.paths p

end Defect

/-! ## Lookups that must succeed -/

namespace Program

variable (p : Program)

def getDecl (id : DeclId) : Except Defect Declaration :=
  match p.decl? id with
  | some decl => .ok decl
  | none => .error (.declUnknown id)

def getVar (id : VarId) : Except Defect Variable :=
  match p.var? id with
  | some var => .ok var
  | none => .error (.varUnknown id)

def getFunction (id : DeclId) : Except Defect FunctionDecl :=
  match p.decl? id with
  | none => .error (.declUnknown id)
  | some { kind := .function decl, .. } => .ok decl
  | some _ => .error (.notAFunction id)

def getAggregate (id : DeclId) : Except Defect AggregateDecl :=
  match p.decl? id with
  | none => .error (.declUnknown id)
  | some { kind := .aggregate decl, .. } => .ok decl
  | some _ => .error (.notAnAggregate id)

end Program

end StaticChain
