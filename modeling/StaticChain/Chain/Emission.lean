import StaticChain.Chain.Resolution
import StaticChain.Lir.Builder

/-!
# Writing code for the static chain

The code that follows a chain (`Nesting.emitChain`), that makes the frame of a function
(`Nesting.enterFunction`) and an instance (`Nesting.emitInstance`), and that finds the hidden
context of calls, constructions and function values.
-/

namespace StaticChain

open Lir (Emit ValueId FunctionBuilder)

/-- Where the code finds a variable. -/
inductive VariableAddress where
  | local (var : VarId)
  | slot (addr : ValueId) (ty : Lir.Ty)
deriving DecidableEq, Inhabited, Repr

namespace Nesting

variable (n : Nesting)

/-! ## Following chains -/

/-- Reads the link slots of some hops one after the other. -/
def emitHops (pointer : ValueId) : List Chain.Hop → StateM FunctionBuilder ValueId
  | [] => return pointer
  | hop :: rest => do
    let addr ← FunctionBuilder.fieldAddr pointer hop.struct hop.slot
    let next ← FunctionBuilder.load addr .ptr
    emitHops next rest

/-- The pointer at which a chain starts. -/
def chainStart (v : Vantage) : Chain.Start → Except Defect ValueId
  | .ownFrame => v.frame.elim (.error (.startMissing v.decl .ownFrame)) .ok
  | .incoming => v.incoming.elim (.error (.startMissing v.decl .incoming)) .ok

/-- Follows a chain to the pointer of its target. -/
def emitChain (v : Vantage) (chain : Chain) : Emit ValueId := do
  let pointer ← Emit.of (chainStart v chain.start)
  emitHops pointer chain.hops

/-- The pointer to the carrier of `target`. -/
def emitContextPointer (v : Vantage) (target : DeclId) : Emit ValueId := do
  let chain ← Emit.of (n.chainTo v.decl target)
  emitChain v chain

/-- The address of a variable, or the local that holds it. -/
def emitVariableAddress (v : Vantage) (id : VarId) : Emit VariableAddress := do
  match ← Emit.of (n.resolve v.decl id) with
  | .local id => return .local id
  | .slot chain struct slot ty =>
    let carrier ← emitChain v chain
    let addr ← FunctionBuilder.fieldAddr carrier struct slot
    return .slot addr ty

/-! ## Frames and instances -/

/-- Moves captured parameters into their slots of the frame; others are left alone. -/
def emitParams (layout : Layout) (frame : ValueId) : List (VarId × ValueId) → Emit Unit
  | [] => return
  | (id, value) :: rest => do
    if n.captures.isCaptured id then
      match layout.slotOf? id with
      | none => throw (.paramSlotMissing id layout.name)
      | some slot =>
        let addr ← FunctionBuilder.fieldAddr frame layout.struct slot
        FunctionBuilder.store addr value ((layout.slotType? slot).getD .ptr)
    emitParams layout frame rest

/-- The prologue of a function: makes its frame if it needs one, links it to the context and moves
captured parameters into it. The context is the nearest carrier around the function, so the link
needs no walk. -/
def enterFunction (decl : DeclId) (incoming : Option ValueId) (params : List (VarId × ValueId)) :
    Emit Vantage := do
  if !n.captures.isFrameNeeded decl then
    return { decl, frame := none, incoming }
  let layout ← Emit.of (n.layouts.getLayout decl)
  let some kind := n.plan.kind? decl | throw (.allocationMissing layout.name)
  let frame ← FunctionBuilder.alloc layout.struct kind
  match layout.parentSlot, incoming with
  | none, _ => pure ()
  | some _, none => throw (.contextMissing decl)
  | some slot, some parent =>
    let addr ← FunctionBuilder.fieldAddr frame layout.struct slot
    FunctionBuilder.store addr parent .ptr
  n.emitParams layout frame params
  return { decl, frame := some frame, incoming }

/-- Stores initial values into slots. -/
def emitFields (struct : Lir.StructId) (object : ValueId) :
    List ((Layout.Slot × Nat) × ValueId) → StateM FunctionBuilder Unit
  | [] => return
  | ((slot, index), value) :: rest => do
    let addr ← FunctionBuilder.fieldAddr object struct index
    FunctionBuilder.store addr value slot.ty
    emitFields struct object rest

/-- Makes an instance, links it to `outer` and stores the initial values of its fields. -/
def emitInstance (aggregate : DeclId) (outer : Option ValueId) (fields : List ValueId) :
    Emit ValueId := do
  let layout ← Emit.of (n.layouts.getLayout aggregate)
  let slots := layout.slots.zipIdx.filter fun (slot, _) => slot.kind matches .field _
  if slots.length ≠ fields.length then
    throw (.fieldCount layout.name slots.length fields.length)
  let object ← FunctionBuilder.alloc layout.struct .heap
  match layout.outerSlot, outer with
  | none, none => pure ()
  | some _, none => throw (.outerMissing layout.name)
  | none, some _ => throw (.outerUnexpected layout.name)
  | some slot, some outer =>
    let addr ← FunctionBuilder.fieldAddr object layout.struct slot
    FunctionBuilder.store addr outer .ptr
  emitFields layout.struct object (slots.zip fields)
  return object

/-! ## Hidden contexts -/

/-- The context that a direct call passes; a function at top level takes none. -/
def emitCallContext (v : Vantage) (callee : DeclId) : Emit (Option ValueId) := do
  match ← Emit.of (n.callContext v.decl callee) with
  | .none => return none
  | .null => some <$> FunctionBuilder.null
  | .chain chain => some <$> emitChain v chain
  | .receiver => throw (.receiverMissing v.decl callee)

/-- The context that a new instance is linked to; an instance without link takes none. -/
def emitConstructionContext (v : Vantage) (aggregate : DeclId) : Emit (Option ValueId) := do
  match ← Emit.of (n.constructionContext v.decl aggregate) with
  | .none => return none
  | .null => some <$> FunctionBuilder.null
  | .chain chain => some <$> emitChain v chain
  | .receiver => throw (.receiverMissing v.decl aggregate)

/-- The context of a function value: what a direct call would pass, or null. -/
def emitClosureContext (v : Vantage) (target : DeclId) : Emit ValueId := do
  match ← Emit.of (n.callContext v.decl target) with
  | .none => FunctionBuilder.null
  | .null => FunctionBuilder.null
  | .chain chain => emitChain v chain
  | .receiver => throw (.methodAsValue v.decl target)

end Nesting

end StaticChain
