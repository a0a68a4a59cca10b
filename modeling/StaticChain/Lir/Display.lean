import StaticChain.Lir.Basic

/-!
# The text of a module

`Lir.Module.text` shows a module to a reader: its struct types, an empty line, its functions.
Instructions stand one a line, indented by four blanks a level.
-/

namespace StaticChain.Lir

/-- How instructions name an operator. -/
def BinOp.word : BinOp → String
  | .add => "add"
  | .sub => "sub"
  | .mul => "mul"
  | .div => "div"
  | .rem => "rem"
  | .eq => "eq"
  | .ne => "ne"
  | .lt => "lt"
  | .le => "le"
  | .gt => "gt"
  | .ge => "ge"

def UnaryOp.word : UnaryOp → String
  | .neg => "neg"
  | .eqz => "eqz"

def AllocKind.word : AllocKind → String
  | .stack => "stack"
  | .heap => "heap"

/-- Things with a comma between them. -/
def commaList [ToString α] (values : List α) : String :=
  ", ".intercalate (values.map toString)

/-- The value an instruction writes, if any. -/
def destText : Option ValueId → String
  | some dest => toString dest ++ " = "
  | none => ""

def margin (depth : Nat) : String :=
  String.ofList (List.replicate (4 * depth) ' ')

mutual

/-- An instruction with its lines at a depth. -/
def Inst.text (depth : Nat) : Inst → String
  | .const dest value => margin depth ++ s!"{dest} = const {value.toInt}\n"
  | .null dest => margin depth ++ s!"{dest} = null\n"
  | .binary dest op lhs rhs => margin depth ++ s!"{dest} = {op.word} {lhs}, {rhs}\n"
  | .unary dest op operand => margin depth ++ s!"{dest} = {op.word} {operand}\n"
  | .localGet dest source => margin depth ++ s!"{dest} = get {source}\n"
  | .localSet target value => margin depth ++ s!"set {target}, {value}\n"
  | .alloc dest struct kind => margin depth ++ s!"{dest} = alloc.{kind.word} {struct}\n"
  | .fieldAddr dest base struct slot => margin depth ++ s!"{dest} = addr {base}, {struct}.{slot}\n"
  | .load dest addr ty => margin depth ++ s!"{dest} = load.{ty} {addr}\n"
  | .store addr value ty => margin depth ++ s!"store.{ty} {addr}, {value}\n"
  | .call dest function args =>
    margin depth ++ s!"{destText dest}call {function}({commaList args})\n"
  | .makeClosure dest function context =>
    margin depth ++ s!"{dest} = closure {function}, {context}\n"
  | .callClosure dest closure args _ =>
    margin depth ++ s!"{destText dest}call_closure {closure}({commaList args})\n"
  | .branch condition thenBody elseBody =>
    margin depth ++ s!"if {condition} \x7b\n" ++ textList (depth + 1) thenBody ++
      (if elseBody.isEmpty then ""
        else margin depth ++ "\x7d else \x7b\n" ++ textList (depth + 1) elseBody) ++
      margin depth ++ "\x7d\n"
  | .loop header condition body =>
    margin depth ++ "loop \x7b\n" ++ textList (depth + 1) header ++
      margin (depth + 1) ++ s!"break_unless {condition}\n" ++ textList (depth + 1) body ++
      margin depth ++ "\x7d\n"
  | .ret (some value) => margin depth ++ s!"return {value}\n"
  | .ret none => margin depth ++ "return\n"
  | .unreachable => margin depth ++ "unreachable\n"

/-- The instructions of a body. -/
def textList (depth : Nat) : List Inst → String
  | [] => ""
  | inst :: rest => Inst.text depth inst ++ textList depth rest

end

def StructType.text (s : StructType) : String :=
  s!"struct {s.id} {s.name} \x7b" ++
    ",".intercalate (s.slots.map fun ty => " " ++ ty.text) ++ " \x7d"

namespace Function

/-- What a caller passes, as the head of a function shows it. -/
def paramTexts (f : Function) : List String :=
  (if f.hasContext then ["ctx: ptr"] else []) ++ f.params.map Ty.text

def retText (f : Function) : String :=
  match f.ret with
  | some ty => " -> " ++ ty.text
  | none => ""

def text (f : Function) : String :=
  s!"fn {f.id} {f.name}(" ++ ", ".intercalate f.paramTexts ++ ")" ++ f.retText ++ " \x7b\n" ++
    textList 1 f.body ++ "\x7d\n"

end Function

def Module.text (m : Module) : String :=
  String.join (m.structs.toList.map fun s => s.text ++ "\n") ++
    (if m.structs.isEmpty then "" else "\n") ++
    String.join (m.functions.toList.map fun f => f.text ++ "\n")

end StaticChain.Lir
