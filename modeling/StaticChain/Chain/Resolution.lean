import StaticChain.Nesting

/-!
# Finding chains

How a use site reaches a carrier around it depends on the program and its captures only. Functions
without a frame are passed over. From its own frame, or else from the context it was given, the
code follows one link for each carrier on the way except the last (`Nesting.chainTo`).

`Nesting.resolve` says where a variable lives as seen from a use site, `Nesting.callContext` and
`Nesting.constructionContext` which context a call or a construction passes on: the nearest carrier
at or above the parent of what is called or built.
-/

namespace StaticChain

/-- Where a variable lives as seen from a use site. -/
inductive Resolution where
  /-- In a local of the use site. -/
  | local (var : VarId)
  /-- In a slot of the carrier at the end of a chain. -/
  | slot (chain : Chain) (struct : Lir.StructId) (slot : Nat) (ty : Lir.Ty)
deriving DecidableEq, Inhabited, Repr

/-- The hidden argument of a call or a construction. -/
inductive ContextArgument where
  /-- There is none. -/
  | none
  /-- There is no carrier to pass. -/
  | null
  | chain (chain : Chain)
  /-- The receiver of a method call. -/
  | receiver
deriving DecidableEq, Inhabited, Repr

namespace Nesting

variable (n : Nesting)

/-- The link of a carrier. -/
def hop (through : DeclId) : Except Defect Chain.Hop := do
  let layout ← n.layouts.getLayout through
  match layout.parentSlot, layout.outerSlot with
  | some slot, _ => return { through, link := .parent, struct := layout.struct, slot }
  | none, some slot => return { through, link := .outer, struct := layout.struct, slot }
  | none, none => throw (.linkMissing through layout.name)

/-- The carriers among some declarations, up to and including `target`; `none` without it. -/
def carriersTo (target : DeclId) (around : List DeclId) : Option (List DeclId) :=
  let carriers := around.filter (n.captures.isCarrier n.program)
  if carriers.contains target then some (carriers.takeWhile (· != target) ++ [target]) else none

/-- How `useSite` reaches the carrier of `target`. -/
def chainTo (useSite target : DeclId) : Except Defect Chain := do
  if !n.captures.isCarrier n.program target then
    throw (.notACarrier useSite target)
  let framed := n.captures.isFrameNeeded useSite
  if target = useSite then
    if !framed then throw (.selfWithoutFrame useSite)
    return { useSite, target, start := .ownFrame, carriers := [], hops := [] }
  let some carriers := n.carriersTo target (n.program.ancestors useSite)
    | throw (.targetNotAround useSite target)
  let through := (if framed then [useSite] else []) ++ carriers.dropLast
  return {
    useSite
    target
    start := if framed then .ownFrame else .incoming
    carriers
    hops := ← through.mapM n.hop }

/-- Where a variable lives as seen from `useSite`. -/
def resolve (useSite : DeclId) (id : VarId) : Except Defect Resolution := do
  let var ← n.program.getVar id
  let captured := n.captures.isCaptured id
  if var.owner = useSite ∧ !captured then
    return .local id
  if var.kind ≠ .field ∧ !captured then
    throw (.neverCaptured useSite id var.name)
  let chain ← n.chainTo useSite var.owner
  let layout ← n.layouts.getLayout var.owner
  match layout.slotOf? id with
  | none => throw (.slotMissing var.name layout.name)
  | some slot =>
    match layout.slotType? slot with
    | none => throw (.slotMissing var.name layout.name)
    | some ty => return .slot chain layout.struct slot ty

/-! ## Contexts -/

/-- The nearest carrier at or above `parent`, as seen from `useSite`. -/
def contextBelow (useSite parent : DeclId) : Except Defect ContextArgument :=
  match n.captures.nearestCarrier? n.program parent with
  | some carrier => return .chain (← n.chainTo useSite carrier)
  | none => return .null

/-- The context that a call of `callee` passes. -/
def callContext (useSite callee : DeclId) : Except Defect ContextArgument := do
  let _ ← n.program.getFunction callee
  match n.program.parent? callee with
  | none => return .none
  | some parent =>
    if n.program.isAggregate parent then return .receiver
    else n.contextBelow useSite parent

/-- The context that an instance of `aggregate` is linked to. -/
def constructionContext (useSite aggregate : DeclId) : Except Defect ContextArgument := do
  let layout ← n.layouts.getLayout aggregate
  if layout.outerSlot.isNone then return .none
  match n.program.parent? aggregate with
  | some parent => n.contextBelow useSite parent
  | none => return .null

end Nesting

end StaticChain
