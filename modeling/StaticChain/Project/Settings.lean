import StaticChain.Frame.Allocation
import StaticChain.Machine.Run

/-!
# Settings

What a project can choose: where frames live, what is written for each unit and where, and how long
a program may run. Everything has a default.
-/

namespace StaticChain

/-- Which reports are written beside a unit. -/
structure Dumps where
  analysis : Bool := false
  layouts : Bool := false
  lir : Bool := false
deriving DecidableEq, Inhabited, Repr

namespace Dumps

def all (value : Bool) : Dumps := ⟨value, value, value⟩

def any (d : Dumps) : Bool := d.analysis || d.layouts || d.lir

/-- What either of two choices asks for. -/
def or (d e : Dumps) : Dumps :=
  ⟨d.analysis || e.analysis, d.layouts || e.layouts, d.lir || e.lir⟩

end Dumps

structure Settings where
  frames : FramePolicy := .escapeAnalysis
  emitWasm : Bool := false
  /-- Where outputs go; without it they go beside each input. -/
  outputDir : Option String := none
  maxSteps : Nat := Machine.defaultMaxSteps
  dumps : Dumps := {}
deriving DecidableEq, Inhabited, Repr

end StaticChain
