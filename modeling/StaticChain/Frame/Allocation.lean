import StaticChain.Frame.Layout

/-!
# Where frames live

A frame may live on the stack if nothing made during its activation can keep a pointer to it once
the activation has returned. What can keep one is a function value and an instance with an `outer`
link, so a frame goes to the heap when a body in its owner's subtree makes either of them for a
declaration nested below the owner (`Program.frameEscapes`). Instances always live on the heap.
-/

namespace StaticChain

/-- How frames are allocated. -/
inductive FramePolicy where
  | alwaysHeap
  /-- On the stack wherever that is safe. -/
  | escapeAnalysis
deriving DecidableEq, Inhabited, Repr

namespace Program

variable (p : Program) (layouts : Layouts)

/-- Whether a declaration is nested below `owner`. -/
def isNestedBelow (owner id : DeclId) : Bool :=
  id != owner && p.isAncestorOrSelf owner id

/-- Whether an expression makes something that can keep a pointer to the frame of `owner`. -/
def keepsFrame (owner : DeclId) : Expr → Bool
  | .functionRef function => p.isNestedBelow owner function
  | .new aggregate _ =>
    (layouts.layout? aggregate).any (·.outerSlot.isSome) && p.isNestedBelow owner aggregate
  | _ => false

/-- Whether the frame of `owner` can outlive its activation. -/
def frameEscapes (owner : DeclId) : Bool :=
  (p.preorderFrom p.levels owner).any fun id =>
    (p.function? id).any fun function => Stmt.anyIn (p.keepsFrame layouts owner) function.body

end Program

/-- Where the frame of each function with a frame lives. -/
structure FramePlan where
  frames : List (DeclId × Lir.AllocKind)
deriving Inhabited, Repr

namespace FramePlan

def empty : FramePlan := ⟨[]⟩

/-- Where a policy puts the frame of a function. -/
def kindOf (p : Program) (layouts : Layouts) : FramePolicy → DeclId → Lir.AllocKind
  | .alwaysHeap, _ => .heap
  | .escapeAnalysis, owner => if p.frameEscapes layouts owner then .heap else .stack

/-- The plan for the layouts of a program. -/
def of (p : Program) (layouts : Layouts) (policy : FramePolicy) : FramePlan where
  frames := ((layouts.layouts.toList.map Layout.owner).filter p.isFunction).eraseDups.map
    fun owner => (owner, kindOf p layouts policy owner)

/-- Where the frame of a function lives, if it has one. -/
def kind? (plan : FramePlan) (function : DeclId) : Option Lir.AllocKind :=
  (plan.frames.find? (·.1 == function)).map Prod.snd

/-- The number of frames on the heap. -/
def heapFrames (plan : FramePlan) : Nat := plan.frames.countP (·.2 == .heap)

end FramePlan

end StaticChain
