import Mathlib
import YalSyntax.Encoding

namespace YalSyntax

open Token (Kind)

namespace BinaryOp

def ofSymbol? (text : String) : Option BinaryOp :=
  (Kind.all.filterMap ofKind?).find? (·.symbol == text)

theorem ofSymbol?_symbol (operator : BinaryOp) : ofSymbol? operator.symbol = some operator := by
  cases operator <;> decide

end BinaryOp

namespace LogicalOp

def ofSymbol? (text : String) : Option LogicalOp :=
  (Kind.all.filterMap ofKind?).find? (·.symbol == text)

theorem ofSymbol?_symbol (operator : LogicalOp) : ofSymbol? operator.symbol = some operator := by
  cases operator <;> decide

end LogicalOp

namespace UnaryOp

def ofSymbol? (text : String) : Option UnaryOp :=
  (Kind.all.filterMap ofKind?).find? (·.symbol == text)

theorem ofSymbol?_symbol (operator : UnaryOp) : ofSymbol? operator.symbol = some operator := by
  cases operator <;> decide

end UnaryOp

theorem Token.Kind.ofName?_name (kind : Kind) : Kind.ofName? kind.name = some kind := by
  cases kind <;> decide

/-- What a document stands for. -/
inductive Node
  | null
  | number (value : Nat)
  | text (value : String)
  | list (items : List Node)
  | position (position : Position)
  | token (token : Token)
  | binding (binding : Binding)
  | expr (value : Expr)
  | stmt (stmt : Stmt)
  | program (program : Program)

namespace Node

@[simp]
def number? : Node → Option Nat
  | number value => some value
  | _ => none

@[simp]
def text? : Node → Option String
  | text value => some value
  | _ => none

@[simp]
def position? : Node → Option Position
  | position value => some value
  | _ => none

@[simp]
def token? : Node → Option Token
  | token value => some value
  | _ => none

@[simp]
def binding? : Node → Option Binding
  | binding value => some value
  | _ => none

@[simp]
def expr? : Node → Option Expr
  | expr value => some value
  | _ => none

@[simp]
def stmt? : Node → Option Stmt
  | stmt value => some value
  | _ => none

variable {α : Type}

@[simp]
def named? (ofName? : String → Option α) (node : Node) : Option α := node.text?.bind ofName?

def list? (read : Node → Option α) : Node → Option (List α)
  | list items => items.mapM read
  | _ => none

def optional? (read : Node → Option α) : Node → Option (Option α)
  | null => some none
  | node => (read node).map some

def optional (write : α → Node) : Option α → Node
  | none => null
  | some value => write value

abbrev Parts := List (String × Node)

def Parts.get? (parts : Parts) (key : String) (read : Node → Option α) : Option α :=
  (parts.lookup key).bind read

def ofPosition? (parts : Parts) : Option Position := do
  return ⟨← parts.get? "line" number?, ← parts.get? "column" number?⟩

def ofToken? (parts : Parts) : Option Token := do
  return ⟨← parts.get? "kind" (named? Kind.ofName?), ← parts.get? "text" text?,
    ← parts.get? "span" position?⟩

def ofBinding? (parts : Parts) : Option Binding := do
  return ⟨← parts.get? "name" text?, ← parts.get? "type_annotation" (optional? text?),
    ← parts.get? "initializer" (optional? expr?), ← parts.get? "span" position?⟩

def ofProgram? (parts : Parts) : Option Program := do
  return ⟨← parts.get? "statements" (list? stmt?)⟩

def ofExpr? (parts : Parts) : String → Option Expr
  | "Binary" => do
    return .binary (← parts.get? "left" expr?)
      (← parts.get? "operator" (named? BinaryOp.ofSymbol?)) (← parts.get? "right" expr?)
      (← parts.get? "span" position?)
  | "Logical" => do
    return .logical (← parts.get? "left" expr?)
      (← parts.get? "operator" (named? LogicalOp.ofSymbol?)) (← parts.get? "right" expr?)
      (← parts.get? "span" position?)
  | "UnaryPrefix" => do
    return .prefixed (← parts.get? "operator" (named? UnaryOp.ofSymbol?))
      (← parts.get? "operand" expr?) (← parts.get? "span" position?)
  | "UnaryPostfix" => do
    return .suffixed (← parts.get? "operator" (named? UnaryOp.ofSymbol?))
      (← parts.get? "operand" expr?) (← parts.get? "span" position?)
  | "Literal" => (ofToken? parts).map .literal
  | "Grouping" => do
    return .grouping (← parts.get? "inner" expr?) (← parts.get? "span" position?)
  | "Variable" => do
    return .ident (← parts.get? "name" text?) (← parts.get? "span" position?)
  | "Assign" => do
    return .assign (← parts.get? "name" text?) (← parts.get? "value" expr?)
      (← parts.get? "span" position?)
  | "Call" => do
    return .call (← parts.get? "name" text?) (← parts.get? "args" (list? expr?))
      (← parts.get? "span" position?)
  | "Return" => do
    return .returned (← parts.get? "value" (optional? expr?)) (← parts.get? "span" position?)
  | _ => none

def ofStmt? (parts : Parts) : String → Option Stmt
  | "Expression" => do
    return .expression (← parts.get? "expr" expr?) (← parts.get? "span" position?)
  | "VarDecl" => (ofBinding? parts).map .declare
  | "TypeDef" => do
    return .typeDef (← parts.get? "name" text?) (← parts.get? "underlying" text?)
      (← parts.get? "span" position?)
  | "Block" => do
    return .block (← parts.get? "statements" (list? stmt?)) (← parts.get? "span" position?)
  | "If" => do
    return .conditional (← parts.get? "condition" expr?) (← parts.get? "then_branch" stmt?)
      (← parts.get? "else_branch" (optional? stmt?)) (← parts.get? "span" position?)
  | "While" => do
    return .whileLoop (← parts.get? "condition" expr?) (← parts.get? "body" stmt?)
      (← parts.get? "span" position?)
  | "For" => do
    return .forLoop (← parts.get? "initializer" (optional? stmt?))
      (← parts.get? "condition" (optional? expr?)) (← parts.get? "increment" (optional? expr?))
      (← parts.get? "body" stmt?) (← parts.get? "span" position?)
  | "FnDecl" => do
    return .function (← parts.get? "name" text?) (← parts.get? "params" (list? binding?))
      (← parts.get? "return_type" (optional? text?)) (← parts.get? "body" stmt?)
      (← parts.get? "span" position?)
  | _ => none

def ofParts? (parts : Parts) : Option Node :=
  match parts.lookup "type" with
  | some type => do
    let type ← type.text?
    (ofExpr? parts type).map expr <|> (ofStmt? parts type).map stmt
  | none =>
    (ofPosition? parts).map position <|> (ofToken? parts).map token <|>
      (ofBinding? parts).map binding <|> (ofProgram? parts).map program

end Node

namespace Json

mutual

def node? : Json → Option Node
  | null => some .null
  | bool _ => none
  | number value => some (.number value)
  | string value => some (.text value)
  | array items => (nodes? items).map .list
  | object fields => (parts? fields).bind Node.ofParts?

def nodes? : List Json → Option (List Node)
  | [] => some []
  | item :: items => do return (← node? item) :: (← nodes? items)

def parts? : List (String × Json) → Option Node.Parts
  | [] => some []
  | (key, value) :: fields => do return (key, ← node? value) :: (← parts? fields)

end

end Json

namespace Node

variable {α : Type} {read : Node → Option α}

@[simp]
theorem Parts.get?_nil (key : String) : Parts.get? [] key read = none := rfl

@[simp]
theorem Parts.get?_cons (key other : String) (node : Node) (parts : Parts) :
    Parts.get? ((key, node) :: parts) other read =
      if other = key then read node else parts.get? other read := by
  unfold get?
  split
  · rename_i same
    subst same
    rw [List.lookup_cons_self, Option.bind_some]
  · rename_i different
    rw [List.lookup_cons, beq_false_of_ne different]

theorem list?_map (write : α → Node) (inverse : ∀ value, read (write value) = some value)
    (values : List α) : list? read (.list (values.map write)) = some values := by
  rw [list?]
  induction values with
  | nil => rfl
  | cons value values further =>
    rw [List.map_cons, List.mapM_cons, inverse, further]
    rfl

theorem optional?_optional (write : α → Node)
    (inverse : ∀ value, read (write value) = some value)
    (present : ∀ value, write value ≠ null) (value : Option α) :
    optional? read (optional write value) = some value := by
  cases value with
  | none => rfl
  | some value =>
    rw [optional, optional?, inverse]
    · rfl
    · exact present value

@[simp]
theorem list?_expr (values : List Expr) : list? expr? (.list (values.map expr)) = some values :=
  list?_map expr (fun _ => rfl) values

@[simp]
theorem list?_stmt (stmts : List Stmt) : list? stmt? (.list (stmts.map stmt)) = some stmts :=
  list?_map stmt (fun _ => rfl) stmts

@[simp]
theorem list?_binding (bindings : List Binding) :
    list? binding? (.list (bindings.map binding)) = some bindings :=
  list?_map binding (fun _ => rfl) bindings

@[simp]
theorem optional?_text (value : Option String) :
    optional? text? (optional text value) = some value :=
  optional?_optional text (fun _ => rfl) nofun value

@[simp]
theorem optional?_expr (value : Option Expr) : optional? expr? (optional expr value) = some value :=
  optional?_optional expr (fun _ => rfl) nofun value

@[simp]
theorem optional?_stmt (value : Option Stmt) : optional? stmt? (optional stmt value) = some value :=
  optional?_optional stmt (fun _ => rfl) nofun value

end Node

namespace Json

@[simp]
theorem node?_number (value : Nat) : (number value).node? = some (.number value) := by
  rw [node?]

@[simp]
theorem node?_string (value : String) : (string value).node? = some (.text value) := by
  rw [node?]

@[simp]
theorem node?_array (items : List Json) : (array items).node? = (nodes? items).map .list := by
  rw [node?]

theorem node?_object (fields : List (String × Json)) :
    (object fields).node? = (parts? fields).bind Node.ofParts? := by
  rw [node?]

@[simp]
theorem parts?_nil : parts? [] = some [] := by
  rw [parts?]

@[simp]
theorem parts?_cons (key : String) (value : Json) (fields : List (String × Json)) :
    parts? ((key, value) :: fields) =
      value.node?.bind fun part => (parts? fields).map ((key, part) :: ·) := by
  rw [parts?]
  cases value.node? <;> cases parts? fields <;> rfl

theorem nodes?_map {α : Type} {toJson : α → Json} {write : α → Node}
    (each : ∀ value, (toJson value).node? = some (write value)) (values : List α) :
    nodes? (values.map toJson) = some (values.map write) := by
  induction values with
  | nil => rw [List.map_nil, nodes?, List.map_nil]
  | cons value values further =>
    rw [List.map_cons, nodes?, each, further]
    rfl

@[simp]
theorem node?_optionalText (text : Option String) :
    (optionalText text).node? = some (.optional .text text) := by
  cases text with
  | none => rw [optionalText, node?]; rfl
  | some text => exact node?_string text

end Json

open Json Node

@[simp]
theorem Position.node?_toJson (position : Position) :
    position.toJson.node? = some (.position position) := by
  rw [toJson, node?_object]
  simp [ofParts?, List.lookup, ofPosition?]

theorem Token.parts?_fields (token : Token) : Json.parts? token.fields =
    some [("kind", .text token.kind.name), ("text", .text token.text),
      ("span", .position token.position)] := by
  simp [fields]

@[simp]
theorem Token.node?_toJson (token : Token) : token.toJson.node? = some (.token token) := by
  rw [toJson, node?_object, parts?_fields]
  simp [ofParts?, List.lookup, ofPosition?, ofToken?, Kind.ofName?_name]

namespace Expr

theorem node?_node {type : String} {fields : List (String × Json)} {value : Expr}
    (found : ((Json.parts? fields).bind fun parts =>
      ofExpr? (("type", .text type) :: parts) type) = some value) :
    (Json.node type fields).node? = some (.expr value) := by
  obtain ⟨parts, same, found⟩ := Option.bind_eq_some_iff.mp found
  rw [Json.node, node?_object, parts?_cons, node?_string, same]
  simp [ofParts?, List.lookup, found]

mutual

theorem node?_toJson (value : Expr) : value.toJson.node? = some (.expr value) := by
  cases value with
  | binary left operator right position =>
    rw [toJson]
    apply node?_node
    simp [ofExpr?, node?_toJson left, node?_toJson right, BinaryOp.ofSymbol?_symbol]
  | logical left operator right position =>
    rw [toJson]
    apply node?_node
    simp [ofExpr?, node?_toJson left, node?_toJson right, LogicalOp.ofSymbol?_symbol]
  | prefixed operator operand position =>
    rw [toJson]
    apply node?_node
    simp [ofExpr?, node?_toJson operand, UnaryOp.ofSymbol?_symbol]
  | suffixed operator operand position =>
    rw [toJson]
    apply node?_node
    simp [ofExpr?, node?_toJson operand, UnaryOp.ofSymbol?_symbol]
  | literal token =>
    rw [toJson]
    apply node?_node
    simp [ofExpr?, token.parts?_fields, ofToken?, Kind.ofName?_name]
  | grouping inner position =>
    rw [toJson]
    apply node?_node
    simp [ofExpr?, node?_toJson inner]
  | ident name position =>
    rw [toJson]
    apply node?_node
    simp [ofExpr?]
  | assign name value position =>
    rw [toJson]
    apply node?_node
    simp [ofExpr?, node?_toJson value]
  | call name values position =>
    rw [toJson]
    apply node?_node
    simp [ofExpr?, nodes?_listToJson values]
  | returned value position =>
    rw [toJson]
    apply node?_node
    simp [ofExpr?, node?_optionToJson value]

theorem nodes?_listToJson (values : List Expr) :
    nodes? (listToJson values) = some (values.map .expr) := by
  cases values with
  | nil => rw [listToJson, nodes?]; rfl
  | cons value values =>
    rw [listToJson, nodes?, node?_toJson value, nodes?_listToJson values]
    rfl

theorem node?_optionToJson (value : Option Expr) :
    (optionToJson value).node? = some (.optional .expr value) := by
  cases value with
  | none => rw [optionToJson, node?]; rfl
  | some value => exact node?_toJson value

end

end Expr

namespace Binding

theorem parts?_fields (binding : Binding) : Json.parts? binding.fields =
    some [("name", .text binding.name), ("type_annotation", .optional .text binding.type?),
      ("initializer", .optional .expr binding.initializer), ("span", .position binding.position)] := by
  simp [fields, Expr.node?_optionToJson]

@[simp]
theorem node?_toJson (binding : Binding) : binding.toJson.node? = some (.binding binding) := by
  rw [toJson, node?_object, parts?_fields]
  simp [ofParts?, List.lookup, ofPosition?, ofToken?, ofBinding?]

end Binding

namespace Stmt

theorem node?_node {type : String} {fields : List (String × Json)} {stmt : Stmt}
    (other : ∀ parts, ofExpr? parts type = none)
    (found : ((Json.parts? fields).bind fun parts =>
      ofStmt? (("type", .text type) :: parts) type) = some stmt) :
    (Json.node type fields).node? = some (.stmt stmt) := by
  obtain ⟨parts, same, found⟩ := Option.bind_eq_some_iff.mp found
  rw [Json.node, node?_object, parts?_cons, node?_string, same]
  simp [ofParts?, List.lookup, other, found]

mutual

theorem node?_toJson (stmt : Stmt) : stmt.toJson.node? = some (.stmt stmt) := by
  cases stmt with
  | expression value position =>
    rw [toJson]
    apply node?_node (by simp [ofExpr?])
    simp [ofStmt?, value.node?_toJson]
  | declare binding =>
    rw [toJson]
    apply node?_node (by simp [ofExpr?])
    simp [ofStmt?, binding.parts?_fields, ofBinding?]
  | typeDef name underlying position =>
    rw [toJson]
    apply node?_node (by simp [ofExpr?])
    simp [ofStmt?]
  | block body position =>
    rw [toJson]
    apply node?_node (by simp [ofExpr?])
    simp [ofStmt?, nodes?_listToJson body]
  | conditional condition yes no position =>
    rw [toJson]
    apply node?_node (by simp [ofExpr?])
    simp [ofStmt?, condition.node?_toJson, node?_toJson yes, node?_optionToJson no]
  | whileLoop condition body position =>
    rw [toJson]
    apply node?_node (by simp [ofExpr?])
    simp [ofStmt?, condition.node?_toJson, node?_toJson body]
  | forLoop initializer condition increment body position =>
    rw [toJson]
    apply node?_node (by simp [ofExpr?])
    simp [ofStmt?, node?_optionToJson initializer, Expr.node?_optionToJson condition,
      Expr.node?_optionToJson increment, node?_toJson body]
  | function name parameters returns body position =>
    rw [toJson]
    apply node?_node (by simp [ofExpr?])
    have listed := nodes?_map Binding.node?_toJson parameters
    simp [ofStmt?, listed, node?_toJson body]

theorem nodes?_listToJson (stmts : List Stmt) :
    nodes? (listToJson stmts) = some (stmts.map .stmt) := by
  cases stmts with
  | nil => rw [listToJson, nodes?]; rfl
  | cons stmt stmts =>
    rw [listToJson, nodes?, node?_toJson stmt, nodes?_listToJson stmts]
    rfl

theorem node?_optionToJson (stmt : Option Stmt) :
    (optionToJson stmt).node? = some (.optional .stmt stmt) := by
  cases stmt with
  | none => rw [optionToJson, node?]; rfl
  | some stmt => exact node?_toJson stmt

end

end Stmt

theorem Program.node?_toJson (program : Program) :
    program.toJson.node? = some (.program program) := by
  rw [toJson, node?_object]
  simp [ofParts?, List.lookup, ofPosition?, ofToken?, ofBinding?, ofProgram?,
    Stmt.nodes?_listToJson]

end YalSyntax
