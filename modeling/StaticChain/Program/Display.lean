import StaticChain.Program.Query

/-!
# The outline of a program

`Program.outline` shows the nesting of a program, one declaration or variable a line and two blanks
a level.
-/

namespace StaticChain

def AggregateKind.word : AggregateKind → String
  | .classType => "Class"
  | .structType => "Struct"

/-- How an outline introduces a variable. -/
def VarKind.word : VarKind → String
  | .param => "param"
  | .local => "let"
  | .field => "field"

namespace Program

variable (p : Program)

def indent (depth : Nat) : String :=
  String.ofList (List.replicate (2 * depth) ' ')

/-- The line of a declaration. -/
def outlineHead (decl : Declaration) : String :=
  match decl.kind with
  | .function function => "fn " ++ decl.name ++ " -> " ++ function.returnType.text
  | .aggregate aggregate => aggregate.kind.word ++ " " ++ decl.name

/-- The line of a variable; a variable that does not exist has none. -/
def outlineVariable (depth : Nat) (id : VarId) : String :=
  match p.var? id with
  | some var =>
    indent (depth + 1) ++ var.kind.word ++ " " ++ var.name ++ ": " ++ var.ty.text ++ "\n"
  | none => ""

/-- The lines of a declaration and of what is nested below it, down to `n` levels. -/
def outlineFrom : Nat → Nat → DeclId → String
  | 0, _, _ => ""
  | n + 1, depth, id =>
    match p.decl? id with
    | none => indent depth ++ "<missing " ++ toString id ++ ">\n"
    | some decl =>
      indent depth ++ outlineHead decl ++ "  [" ++ toString id ++ "]\n" ++
        String.join (decl.locals.map (p.outlineVariable depth)) ++
        String.join (decl.children.map (outlineFrom n (depth + 1)))

/-- The nesting of the program as text. -/
def outline : String :=
  String.join (p.roots.map (p.outlineFrom p.levels 0))

end Program

end StaticChain
