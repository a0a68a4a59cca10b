import StaticChain.Frame.Allocation

/-!
# The tables of a program

`Nesting` puts a program together with what the analyses found out about it: its captures, the
layouts of its carriers and where its frames live. Lowering reads these tables and changes nothing
in them.

Parts can be replaced one by one, and the tables then need not agree; whatever relies on an
agreement answers with a `Defect` where it does not hold.
-/

namespace StaticChain

structure Nesting where
  program : Program
  captures : Captures
  layouts : Layouts
  plan : FramePlan
deriving Inhabited

namespace Nesting

/-- The tables of a program under a policy. -/
def of (p : Program) (policy : FramePolicy) : Except Defect Nesting := do
  let captures ← Captures.of p
  let layouts ← Layouts.of p captures
  return { program := p, captures, layouts, plan := FramePlan.of p layouts policy }

/-- Makes layouts and plan again, from the captures as they are. -/
def rebuild (n : Nesting) (policy : FramePolicy) : Except Defect Nesting := do
  let layouts ← Layouts.of n.program n.captures
  return { n with layouts, plan := FramePlan.of n.program layouts policy }

end Nesting

/-- What the code of one activation knows of the static chain. -/
structure Vantage where
  /-- The function of the activation. -/
  decl : DeclId
  /-- Its own frame, if it has one. -/
  frame : Option Lir.ValueId
  /-- The context it was given: the nearest carrier around the function, which is the receiver for
  a method, or null. A function at top level is given none. -/
  incoming : Option Lir.ValueId
deriving DecidableEq, Inhabited, Repr

end StaticChain
