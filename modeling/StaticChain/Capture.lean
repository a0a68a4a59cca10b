import StaticChain.Defect
import StaticChain.Program.Reference

/-!
# Captured variables

A variable is captured when a function nested below its owner refers to it. Captured parameters and
locals live in the frame of their owner, and code below reaches the frame by following links.
`Captures.of` finds, for every declaration of a program, the captured variables it owns, whether it
needs a frame, the ancestors whose frames it must be able to reach, and for an aggregate whether
its instances link to the carrier around them.

Every reference that leaves its function is one `Use`: its path goes from the function up to, but
not including, the declaration it refers to. A reference to a field or to a context makes no frame,
but the aggregates on its path need a link.

Frames and instances together are the carriers (`Captures.isCarrier`).
-/

namespace StaticChain

namespace Captures

/-- A reference from a function to something outside it. -/
structure Use where
  /-- The function and the declarations around it, below the one referred to. -/
  path : List DeclId
  /-- The parameter or local referred to, with its owner. -/
  captured : Option (VarId × DeclId)
deriving DecidableEq, Inhabited, Repr

/-- What is known about the captures of a declaration. -/
structure Summary where
  /-- The captured variables it owns, in order. -/
  captured : List VarId
  frameNeeded : Bool
  /-- The ancestors whose frames are reached from here or from below. -/
  passThrough : List DeclId
  /-- Whether instances link to the carrier around them. -/
  needsOuter : Bool
deriving DecidableEq, Inhabited, Repr

end Captures

/-- The captures of a program. -/
structure Captures where
  /-- One summary for each declaration. -/
  summaries : Array Captures.Summary
  /-- The captured variables, each once. -/
  captured : List VarId
deriving Inhabited, Repr

namespace Captures

/-! ## Uses -/

variable (p : Program)

/-- The declarations from `useSite` up to `target`, which is left out. -/
def pathTo (useSite target : DeclId) (var : Option VarId) : Except Defect (List DeclId) :=
  if (p.ancestors useSite).contains target then
    .ok (useSite :: (p.ancestors useSite).takeWhile (· != target))
  else .error (.notEnclosing useSite target var)

/-- The use that a reference of a function makes, if it leaves the function. -/
def useOf (useSite : DeclId) : Reference → Except Defect (Option Use)
  | .variable id => do
    let var ← p.getVar id
    if var.owner = useSite then return none
    let path ← pathTo p useSite var.owner (some id)
    return some { path, captured := if var.kind = .field then none else some (id, var.owner) }
  | .context target => do
    if target = useSite then return none
    let path ← pathTo p useSite target none
    return some { path, captured := none }

/-- The uses that a function makes, in the order of its text. -/
def usesIn (useSite : DeclId) : Except Defect (List Use) := do
  return (← (p.references useSite).mapM (useOf p useSite)).reduceOption

/-- The uses of the whole program. -/
def uses : Except Defect (List Use) := do
  return (← p.preorder.mapM (usesIn p)).flatten

/-! ## Summaries -/

/-- Whether some use captures the variable. -/
def capturedBy (uses : List Use) (id : VarId) : Bool :=
  uses.any fun use => use.captured.any (·.1 == id)

/-- Whether a declaration lies on the path of a use that captures a variable of `owner`. -/
def reaches (uses : List Use) (id owner : DeclId) : Bool :=
  uses.any fun use => use.path.contains id && use.captured.any (·.2 == owner)

/-- Whether a declaration lies on the path of a use. -/
def crossed (uses : List Use) (id : DeclId) : Bool :=
  uses.any fun use => use.path.contains id

def summaryOf (uses : List Use) (decl : Declaration) : Summary :=
  let captured := decl.locals.filter (capturedBy uses)
  { captured
    frameNeeded := p.isFunction decl.id && !captured.isEmpty
    passThrough := (p.declarations.toList.map Declaration.id).filter (reaches uses decl.id)
    needsOuter := p.isAggregate decl.id && crossed uses decl.id }

/-- The captures of a program, unless a body refers to something that is not around it. -/
def of : Except Defect Captures := do
  let uses ← uses p
  return {
    summaries := p.declarations.map (summaryOf p uses)
    captured := (p.vars.toList.map Variable.id).filter (capturedBy uses) }

/-! ## Questions -/

variable (c : Captures)

def summary? (id : DeclId) : Option Summary := c.summaries[id.index]?

def isCaptured (id : VarId) : Bool := c.captured.contains id

def isFrameNeeded (id : DeclId) : Bool := (c.summary? id).any (·.frameNeeded)

def needsOuter (id : DeclId) : Bool := (c.summary? id).any (·.needsOuter)

/-- Functions with a frame and aggregates carry a context at run time. -/
def isCarrier (id : DeclId) : Bool := p.isAggregate id || c.isFrameNeeded id

/-- The declaration itself if it is a carrier, and otherwise the closest carrier around it. -/
def nearestCarrier? (id : DeclId) : Option DeclId :=
  (id :: p.ancestors id).find? (c.isCarrier p)

/-! ## The report -/

/-- The lines about one declaration; none if there is nothing to say. -/
def reportOf (id : DeclId) : String :=
  match c.summary? id with
  | none => ""
  | some s =>
    if s.captured.isEmpty && s.passThrough.isEmpty && !s.needsOuter then ""
    else
      p.qualifiedName id ++ (if s.frameNeeded then " [frame]" else "") ++
        (if s.needsOuter then " [outer]" else "") ++ "\n" ++
        (if s.captured.isEmpty then ""
          else "    captures: " ++ ", ".intercalate (s.captured.map p.variableName) ++ "\n") ++
        (if s.passThrough.isEmpty then ""
          else "    reaches: " ++ ", ".intercalate (s.passThrough.map p.qualifiedName) ++ "\n")

/-- The captures as text, declaration by declaration. -/
def report : String := String.join (p.preorder.map (c.reportOf p))

end Captures

end StaticChain
