import StaticChain.Diagnostic
import StaticChain.Program.Check

/-!
# Why there is no program

A program is read from a text or built step by step, and checked either way. `ProgramError` is what
can come of that instead of a program.
-/

namespace StaticChain

/-- A step of a builder that does not fit what was built before. -/
inductive Misuse where
  | nestedInUnknown (name : String) (parent : DeclId)
  | ownedByUnknown (name : String) (owner : DeclId)
  | methodOutsideAggregate (name : String)
  | paramAfterLocal (name functionPath : String)
  | paramOfNonFunction (name : String) (owner : DeclId)
  | localOfNonFunction (name : String) (owner : DeclId)
  | fieldOfNonAggregate (name : String) (owner : DeclId)
  | bodyOfNonFunction (owner : DeclId)
deriving DecidableEq, Inhabited, Repr

def Misuse.message : Misuse → String
  | .nestedInUnknown name parent => s!"'{name}' is nested in unknown {parent}"
  | .ownedByUnknown name owner => s!"'{name}' is declared by unknown {owner}"
  | .methodOutsideAggregate name => s!"Method '{name}' must be declared inside an aggregate"
  | .paramAfterLocal name functionPath =>
    s!"Parameter '{name}' declared after a local of '{functionPath}'"
  | .paramOfNonFunction name owner => s!"Parameter '{name}' must belong to a function, not {owner}"
  | .localOfNonFunction name owner => s!"Local '{name}' must belong to a function, not {owner}"
  | .fieldOfNonAggregate name owner => s!"Field '{name}' must belong to an aggregate, not {owner}"
  | .bodyOfNonFunction owner => s!"Only functions have bodies, {owner} is not one"

/-- Why there is no program. -/
inductive ProgramError where
  /-- The text is not the JSON form of a program. -/
  | malformedText
  | misuse (cause : Misuse)
  | flaw (cause : Flaw)
deriving DecidableEq, Inhabited, Repr

def ProgramError.message : ProgramError → String
  | .malformedText => "Invalid program JSON"
  | .misuse cause => cause.message
  | .flaw cause => cause.message

def ProgramError.toDiagnostic (error : ProgramError) : Diagnostic :=
  { kind := .program, message := error.message }

end StaticChain
