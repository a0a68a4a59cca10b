import StaticChain.Json.Basic
import StaticChain.Program.Basic

/-!
# Programs as JSON values

`toJson` writes a program, `ofJson?` reads one. A structure is an object with one member for each
field, an alternative is an object of one member named by its tag, and an alternative without
content is its tag as a string. A reader also takes a structure as the array of its fields, and an
alternative without content as a member whose value is `null`.

Readers count nesting. The number they take is how many levels of arrays and objects may still be
opened, and each container a reader looks into takes one of them; what is under a member that no
reader asks for is not looked into. `Program.maxNesting` is the number for a whole program. The
same number ends the recursion.
-/

namespace StaticChain

/-- The elements of a list, each read with one level less. -/
def Json.listOf? (read : Nat → Json → Option α) : Nat → Json → Option (List α)
  | n + 1, .arr items => items.mapM (read n)
  | _, _ => none

/-- The tag of an alternative that has no content. -/
def Json.bareTag? (n : Nat) (value : Json) : Option String :=
  match n, value.variant? with
  | _, some (tag, none) => some tag
  | _ + 1, some (tag, some .null) => some tag
  | _, _ => none

/-- An alternative with content: an object of one member. -/
def Json.tagged (tag : String) (content : Json) : Json := .object [(tag, content)]

namespace DeclId

def toJson (id : DeclId) : Json := .nat id.index

def ofJson? (value : Json) : Option DeclId := value.word?.map DeclId.mk

end DeclId

namespace VarId

def toJson (id : VarId) : Json := .nat id.index

def ofJson? (value : Json) : Option VarId := value.word?.map VarId.mk

end VarId

/-! ## Types -/

namespace ValueType

mutual

def toJson : ValueType → Json
  | .unit => .str "Unit"
  | .int => .str "Int"
  | .bool => .str "Bool"
  | .instanceOf aggregate => .tagged "Instance" aggregate.toJson
  | .function params ret =>
    .tagged "Function" (.object [("params", .arr (toJsonList params)), ("ret", toJson ret)])

def toJsonList : List ValueType → List Json
  | [] => []
  | ty :: rest => toJson ty :: toJsonList rest

end

/-- A type that is its tag alone. -/
def ofTag? : String → Option ValueType
  | "Unit" => some .unit
  | "Int" => some .int
  | "Bool" => some .bool
  | _ => none

def ofJson? : Nat → Json → Option ValueType
  | 0, value => (Json.bareTag? 0 value).bind ofTag?
  | n + 1, value =>
    match value.variant? with
    | some ("Instance", some content) => (DeclId.ofJson? content).map .instanceOf
    | some ("Function", some content) =>
      match n, content.record? ["params", "ret"] with
      | m + 1, some [some params, some ret] =>
        match m, params with
        | k + 1, .arr items => do
          let params ← items.mapM (ofJson? k)
          let ret ← ofJson? (k + 1) ret
          some (.function params ret)
        | _, _ => none
      | _, _ => none
    | _ => (Json.bareTag? (n + 1) value).bind ofTag?

end ValueType

/-! ## Bodies -/

namespace BinOp

/-- The operators by their tags. -/
def tag : BinOp → String
  | .add => "Add"
  | .sub => "Sub"
  | .mul => "Mul"
  | .div => "Div"
  | .rem => "Rem"
  | .eq => "Eq"
  | .ne => "Ne"
  | .lt => "Lt"
  | .le => "Le"
  | .gt => "Gt"
  | .ge => "Ge"
  | .and => "And"
  | .or => "Or"

def all : List BinOp := [.add, .sub, .mul, .div, .rem, .eq, .ne, .lt, .le, .gt, .ge, .and, .or]

def ofJson? (n : Nat) (value : Json) : Option BinOp :=
  (Json.bareTag? n value).bind fun tag => all.find? (·.tag == tag)

end BinOp

namespace UnaryOp

def tag : UnaryOp → String
  | .neg => "Neg"
  | .not => "Not"

def ofJson? (n : Nat) (value : Json) : Option UnaryOp :=
  (Json.bareTag? n value).bind fun tag => [UnaryOp.neg, UnaryOp.not].find? (·.tag == tag)

end UnaryOp

namespace Expr

mutual

def toJson : Expr → Json
  | .int value => .tagged "Int" (.int value.toInt)
  | .bool value => .tagged "Bool" (.bool value)
  | .var id => .tagged "Var" id.toJson
  | .binary op lhs rhs =>
    .tagged "Binary" (.object [("op", .str op.tag), ("lhs", toJson lhs), ("rhs", toJson rhs)])
  | .unary op operand =>
    .tagged "Unary" (.object [("op", .str op.tag), ("operand", toJson operand)])
  | .call function args =>
    .tagged "Call" (.object [("function", function.toJson), ("args", .arr (toJsonList args))])
  | .methodCall receiver method args =>
    .tagged "MethodCall" (.object [("receiver", toJson receiver), ("method", method.toJson),
      ("args", .arr (toJsonList args))])
  | .new aggregate args =>
    .tagged "New" (.object [("aggregate", aggregate.toJson), ("args", .arr (toJsonList args))])
  | .fieldGet base field =>
    .tagged "FieldGet" (.object [("base", toJson base), ("field", field.toJson)])
  | .this aggregate => .tagged "This" (.object [("aggregate", aggregate.toJson)])
  | .functionRef function => .tagged "FunctionRef" function.toJson
  | .callValue callee args =>
    .tagged "CallValue" (.object [("callee", toJson callee), ("args", .arr (toJsonList args))])

def toJsonList : List Expr → List Json
  | [] => []
  | expr :: rest => toJson expr :: toJsonList rest

end

/-- An expression. Its object takes one level, the structure of its content another; `m` levels
are then left for the operands, and one less for each of a list of them. -/
def ofJson? : Nat → Json → Option Expr
  | 0, _ => none
  | n + 1, value =>
    match value.variant? with
    | some ("Int", some content) => content.int64?.map .int
    | some ("Bool", some content) => content.bool?.map .bool
    | some ("Var", some content) => (VarId.ofJson? content).map .var
    | some ("FunctionRef", some content) => (DeclId.ofJson? content).map .functionRef
    | some (tag, some content) =>
      match n with
      | 0 => none
      | m + 1 =>
        let operands (args : Json) : Option (List Expr) :=
          match m, args with
          | k + 1, .arr items => items.mapM (ofJson? k)
          | _, _ => none
        match tag with
        | "Binary" =>
          match content.record? ["op", "lhs", "rhs"] with
          | some [some op, some lhs, some rhs] => do
            let op ← BinOp.ofJson? m op
            let lhs ← ofJson? m lhs
            let rhs ← ofJson? m rhs
            some (.binary op lhs rhs)
          | _ => none
        | "Unary" =>
          match content.record? ["op", "operand"] with
          | some [some op, some operand] => do
            let op ← UnaryOp.ofJson? m op
            let operand ← ofJson? m operand
            some (.unary op operand)
          | _ => none
        | "Call" =>
          match content.record? ["function", "args"] with
          | some [some function, some args] => do
            let function ← DeclId.ofJson? function
            let args ← operands args
            some (.call function args)
          | _ => none
        | "MethodCall" =>
          match content.record? ["receiver", "method", "args"] with
          | some [some receiver, some method, some args] => do
            let receiver ← ofJson? m receiver
            let method ← DeclId.ofJson? method
            let args ← operands args
            some (.methodCall receiver method args)
          | _ => none
        | "New" =>
          match content.record? ["aggregate", "args"] with
          | some [some aggregate, some args] => do
            let aggregate ← DeclId.ofJson? aggregate
            let args ← operands args
            some (.new aggregate args)
          | _ => none
        | "FieldGet" =>
          match content.record? ["base", "field"] with
          | some [some base, some field] => do
            let base ← ofJson? m base
            let field ← VarId.ofJson? field
            some (.fieldGet base field)
          | _ => none
        | "This" =>
          match content.record? ["aggregate"] with
          | some [some aggregate] => (DeclId.ofJson? aggregate).map .this
          | _ => none
        | "CallValue" =>
          match content.record? ["callee", "args"] with
          | some [some callee, some args] => do
            let callee ← ofJson? m callee
            let args ← operands args
            some (.callValue callee args)
          | _ => none
        | _ => none
    | _ => none

end Expr

namespace Place

def toJson : Place → Json
  | .var id => .tagged "Var" id.toJson
  | .field base id => .tagged "Field" (.object [("base", base.toJson), ("field", id.toJson)])

def ofJson? : Nat → Json → Option Place
  | 0, _ => none
  | n + 1, value =>
    match value.variant?, n with
    | some ("Var", some content), _ => (VarId.ofJson? content).map .var
    | some ("Field", some content), m + 1 =>
      match content.record? ["base", "field"] with
      | some [some base, some id] => do
        let base ← Expr.ofJson? m base
        let id ← VarId.ofJson? id
        some (.field base id)
      | _ => none
    | _, _ => none

end Place

namespace Stmt

mutual

def toJson : Stmt → Json
  | .letVar var value => .tagged "Let" (.object [("var", var.toJson), ("value", value.toJson)])
  | .assign target value =>
    .tagged "Assign" (.object [("target", target.toJson), ("value", value.toJson)])
  | .expr value => .tagged "Expr" value.toJson
  | .branch condition thenBlock elseBlock =>
    .tagged "If" (.object [("condition", condition.toJson),
      ("then_block", .arr (toJsonList thenBlock)), ("else_block", .arr (toJsonList elseBlock))])
  | .loop condition body =>
    .tagged "While" (.object [("condition", condition.toJson), ("body", .arr (toJsonList body))])
  | .ret value => .tagged "Return" (Json.option Expr.toJson value)

def toJsonList : List Stmt → List Json
  | [] => []
  | stmt :: rest => toJson stmt :: toJsonList rest

end

/-- A statement. Every other statement than an expression and a return is a structure with an
expression in it, which takes a third level. -/
def ofJson? : Nat → Json → Option Stmt
  | 0, _ => none
  | n + 1, value =>
    match value.variant? with
    | some ("Expr", some content) => (Expr.ofJson? n content).map .expr
    | some ("Return", some .null) => some (.ret none)
    | some ("Return", some content) => (Expr.ofJson? n content).map (.ret ∘ some)
    | some (tag, some content) =>
      match n with
      | k + 2 =>
        let block : Json → Option (List Stmt)
          | .arr items => items.mapM (ofJson? k)
          | _ => none
        match tag with
        | "Let" =>
          match content.record? ["var", "value"] with
          | some [some var, some value] => do
            let var ← VarId.ofJson? var
            let value ← Expr.ofJson? (k + 1) value
            some (.letVar var value)
          | _ => none
        | "Assign" =>
          match content.record? ["target", "value"] with
          | some [some target, some value] => do
            let target ← Place.ofJson? (k + 1) target
            let value ← Expr.ofJson? (k + 1) value
            some (.assign target value)
          | _ => none
        | "If" =>
          match content.record? ["condition", "then_block", "else_block"] with
          | some [some condition, some thenBlock, some elseBlock] => do
            let condition ← Expr.ofJson? (k + 1) condition
            let thenBlock ← block thenBlock
            let elseBlock ← block elseBlock
            some (.branch condition thenBlock elseBlock)
          | _ => none
        | "While" =>
          match content.record? ["condition", "body"] with
          | some [some condition, some body] => do
            let condition ← Expr.ofJson? (k + 1) condition
            let body ← block body
            some (.loop condition body)
          | _ => none
        | _ => none
      | _ => none
    | _ => none

end Stmt

/-! ## Declarations -/

namespace FunctionDecl

def toJson (decl : FunctionDecl) : Json :=
  .object [("params", .list VarId.toJson decl.params), ("return_type", decl.returnType.toJson),
    ("body", .arr (Stmt.toJsonList decl.body))]

def ofJson? : Nat → Json → Option FunctionDecl
  | 0, _ => none
  | n + 1, value =>
    match value.record? ["params", "return_type", "body"] with
    | some [some params, some returnType, some body] => do
      let params ← Json.listOf? (fun _ => VarId.ofJson?) n params
      let returnType ← ValueType.ofJson? n returnType
      let body ← Json.listOf? Stmt.ofJson? n body
      some { params, returnType, body }
    | _ => none

end FunctionDecl

namespace AggregateKind

def tag : AggregateKind → String
  | .classType => "Class"
  | .structType => "Struct"

def ofJson? (n : Nat) (value : Json) : Option AggregateKind :=
  (Json.bareTag? n value).bind fun tag =>
    [AggregateKind.classType, AggregateKind.structType].find? (·.tag == tag)

end AggregateKind

namespace AggregateDecl

def toJson (decl : AggregateDecl) : Json :=
  .object [("aggregate_kind", .str decl.kind.tag), ("fields", .list VarId.toJson decl.fields)]

def ofJson? : Nat → Json → Option AggregateDecl
  | 0, _ => none
  | n + 1, value =>
    match value.record? ["aggregate_kind", "fields"] with
    | some [some kind, some fields] => do
      let kind ← AggregateKind.ofJson? n kind
      let fields ← Json.listOf? (fun _ => VarId.ofJson?) n fields
      some { kind, fields }
    | _ => none

end AggregateDecl

namespace DeclKind

def toJson : DeclKind → Json
  | .function decl => .tagged "Function" decl.toJson
  | .aggregate decl => .tagged "Aggregate" decl.toJson

def ofJson? : Nat → Json → Option DeclKind
  | 0, _ => none
  | n + 1, value =>
    match value.variant? with
    | some ("Function", some content) => (FunctionDecl.ofJson? n content).map .function
    | some ("Aggregate", some content) => (AggregateDecl.ofJson? n content).map .aggregate
    | _ => none

end DeclKind

namespace Declaration

def toJson (decl : Declaration) : Json :=
  .object [("id", decl.id.toJson), ("name", .str decl.name),
    ("parent", .option DeclId.toJson decl.parent), ("locals", .list VarId.toJson decl.locals),
    ("children", .list DeclId.toJson decl.children), ("kind", decl.kind.toJson)]

/-- The parent of a declaration: `null` or no member at all for none. -/
def parentOfJson? : Option Json → Option (Option DeclId)
  | none => some none
  | some .null => some none
  | some value => (DeclId.ofJson? value).map some

def ofJson? : Nat → Json → Option Declaration
  | 0, _ => none
  | n + 1, value =>
    match value.record? ["id", "name", "parent", "locals", "children", "kind"] with
    | some [some id, some name, parent, some locals, some children, some kind] => do
      let id ← DeclId.ofJson? id
      let name ← name.str?
      let parent ← parentOfJson? parent
      let locals ← Json.listOf? (fun _ => VarId.ofJson?) n locals
      let children ← Json.listOf? (fun _ => DeclId.ofJson?) n children
      let kind ← DeclKind.ofJson? n kind
      some { id, name, parent, locals, children, kind }
    | _ => none

end Declaration

namespace VarKind

def tag : VarKind → String
  | .param => "Param"
  | .local => "Local"
  | .field => "Field"

def ofJson? (n : Nat) (value : Json) : Option VarKind :=
  (Json.bareTag? n value).bind fun tag =>
    [VarKind.param, VarKind.local, VarKind.field].find? (·.tag == tag)

end VarKind

namespace Variable

def toJson (var : Variable) : Json :=
  .object [("id", var.id.toJson), ("name", .str var.name), ("ty", var.ty.toJson),
    ("owner", var.owner.toJson), ("kind", .str var.kind.tag)]

def ofJson? : Nat → Json → Option Variable
  | 0, _ => none
  | n + 1, value =>
    match value.record? ["id", "name", "ty", "owner", "kind"] with
    | some [some id, some name, some ty, some owner, some kind] => do
      let id ← VarId.ofJson? id
      let name ← name.str?
      let ty ← ValueType.ofJson? n ty
      let owner ← DeclId.ofJson? owner
      let kind ← VarKind.ofJson? n kind
      some { id, name, ty, owner, kind }
    | _ => none

end Variable

namespace Program

/-- How deep the arrays and objects of a program may be nested. -/
def maxNesting : Nat := 127

def toJson (p : Program) : Json :=
  .object [("declarations", .list Declaration.toJson p.declarations.toList),
    ("variables", .list Variable.toJson p.vars.toList)]

def ofJson? : Nat → Json → Option Program
  | 0, _ => none
  | n + 1, value =>
    match value.record? ["declarations", "variables"] with
    | some [some declarations, some vars] => do
      let declarations ← Json.listOf? Declaration.ofJson? n declarations
      let vars ← Json.listOf? Variable.ofJson? n vars
      some ⟨declarations.toArray, vars.toArray⟩
    | _ => none

end Program

end StaticChain
