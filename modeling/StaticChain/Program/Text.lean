import StaticChain.Json.Printer
import StaticChain.Json.Reader
import StaticChain.Program.Codec
import StaticChain.Program.Error

/-!
# Programs as text

A program file holds the JSON form of a program. `Program.text` writes it and `Program.parse` reads
it back and checks it, so everything after reading can rely on the check.
-/

namespace StaticChain.Program

/-- The text of a program file. -/
def text (p : Program) : String := p.toJson.pretty

/-- The program that a JSON value denotes, checked. -/
def ofJson (value : Json) : Except ProgramError Program :=
  match ofJson? maxNesting value with
  | none => .error .malformedText
  | some p =>
    match p.check with
    | .error flaw => .error (.flaw flaw)
    | .ok () => .ok p

/-- The program in the text of a program file. -/
def parse (source : String) : Except ProgramError Program :=
  match Json.parse? source with
  | none => .error .malformedText
  | some value => ofJson value

end StaticChain.Program
