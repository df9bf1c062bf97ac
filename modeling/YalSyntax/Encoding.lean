import YalSyntax.Json
import YalSyntax.Tree

namespace YalSyntax

namespace Json

def optionalText : Option String → Json
  | none => .null
  | some text => .string text

def node (type : String) (fields : List (String × Json)) : Json :=
  .object (("type", .string type) :: fields)

end Json

namespace Position

def toJson (position : Position) : Json :=
  .object [("line", .number position.line), ("column", .number position.column)]

end Position

namespace Token

def fields (token : Token) : List (String × Json) :=
  [("kind", .string token.kind.name), ("text", .string token.text),
    ("span", token.position.toJson)]

def toJson (token : Token) : Json := .object token.fields

end Token

namespace Expr

mutual

def toJson : Expr → Json
  | binary left operator right position =>
    .node "Binary" [("left", left.toJson), ("operator", .string operator.symbol),
      ("right", right.toJson), ("span", position.toJson)]
  | logical left operator right position =>
    .node "Logical" [("left", left.toJson), ("operator", .string operator.symbol),
      ("right", right.toJson), ("span", position.toJson)]
  | prefixed operator operand position =>
    .node "UnaryPrefix" [("operator", .string operator.symbol), ("operand", operand.toJson),
      ("span", position.toJson)]
  | suffixed operator operand position =>
    .node "UnaryPostfix" [("operator", .string operator.symbol), ("operand", operand.toJson),
      ("span", position.toJson)]
  | literal token => .node "Literal" token.fields
  | grouping inner position =>
    .node "Grouping" [("inner", inner.toJson), ("span", position.toJson)]
  | ident name position => .node "Variable" [("name", .string name), ("span", position.toJson)]
  | assign name value position =>
    .node "Assign" [("name", .string name), ("value", value.toJson), ("span", position.toJson)]
  | call name arguments position =>
    .node "Call" [("name", .string name), ("args", .array (listToJson arguments)),
      ("span", position.toJson)]
  | returned value position =>
    .node "Return" [("value", optionToJson value), ("span", position.toJson)]

def listToJson : List Expr → List Json
  | [] => []
  | value :: values => value.toJson :: listToJson values

def optionToJson : Option Expr → Json
  | none => .null
  | some value => value.toJson

end

end Expr

namespace Binding

def fields (binding : Binding) : List (String × Json) :=
  [("name", .string binding.name), ("type_annotation", .optionalText binding.type?),
    ("initializer", Expr.optionToJson binding.initializer), ("span", binding.position.toJson)]

def toJson (binding : Binding) : Json := .object binding.fields

end Binding

namespace Stmt

mutual

def toJson : Stmt → Json
  | expression value position =>
    .node "Expression" [("expr", value.toJson), ("span", position.toJson)]
  | declare binding => .node "VarDecl" binding.fields
  | typeDef name underlying position =>
    .node "TypeDef" [("name", .string name), ("underlying", .string underlying),
      ("span", position.toJson)]
  | block body position =>
    .node "Block" [("statements", .array (listToJson body)), ("span", position.toJson)]
  | conditional condition yes no position =>
    .node "If" [("condition", condition.toJson), ("then_branch", yes.toJson),
      ("else_branch", optionToJson no), ("span", position.toJson)]
  | whileLoop condition body position =>
    .node "While" [("condition", condition.toJson), ("body", body.toJson),
      ("span", position.toJson)]
  | forLoop initializer condition increment body position =>
    .node "For" [("initializer", optionToJson initializer),
      ("condition", Expr.optionToJson condition), ("increment", Expr.optionToJson increment),
      ("body", body.toJson), ("span", position.toJson)]
  | function name parameters returns body position =>
    .node "FnDecl" [("name", .string name), ("params", .array (parameters.map Binding.toJson)),
      ("return_type", .optionalText returns), ("body", body.toJson), ("span", position.toJson)]

def listToJson : List Stmt → List Json
  | [] => []
  | stmt :: stmts => stmt.toJson :: listToJson stmts

def optionToJson : Option Stmt → Json
  | none => .null
  | some stmt => stmt.toJson

end

end Stmt

namespace Program

def toJson (program : Program) : Json :=
  .object [("statements", .array (Stmt.listToJson program.statements))]

end Program

end YalSyntax
