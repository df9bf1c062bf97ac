import YalSyntax.Tree

namespace YalSyntax

structure Outline.Row where
  depth : Nat
  label : String
  position : Position
deriving DecidableEq, Repr

namespace Binding

def label (binding : Binding) : String :=
  match binding.type? with
  | none => binding.name
  | some type => s!"{binding.name}: {type}"

end Binding

namespace Expr

def label : Expr → String
  | binary _ operator _ _ => s!"Binary {operator.symbol}"
  | logical _ operator _ _ => s!"Logical {operator.symbol}"
  | prefixed operator _ _ => s!"Prefix {operator.symbol}"
  | suffixed operator _ _ => s!"Postfix {operator.symbol}"
  | literal token => s!"Literal {token.kind.name} {token.text}"
  | grouping _ _ => "Grouping"
  | ident name _ => s!"Variable {name}"
  | assign name _ _ => s!"Assign {name}"
  | call name arguments _ => s!"Call {name}/{arguments.length}"
  | returned _ _ => "Return"

mutual

def outline (depth : Nat) (after : List Outline.Row) (expr : Expr) : List Outline.Row :=
  ⟨depth, expr.label, expr.position⟩ ::
    match expr with
    | binary left _ right _ | logical left _ right _ =>
      left.outline (depth + 1) (right.outline (depth + 1) after)
    | prefixed _ inner _ | suffixed _ inner _ | grouping inner _ | assign _ inner _ =>
      inner.outline (depth + 1) after
    | literal _ | ident _ _ => after
    | call _ arguments _ => outlineList (depth + 1) after arguments
    | returned value _ => outlineOption (depth + 1) after value

def outlineList (depth : Nat) (after : List Outline.Row) : List Expr → List Outline.Row
  | [] => after
  | value :: values => value.outline depth (outlineList depth after values)

def outlineOption (depth : Nat) (after : List Outline.Row) : Option Expr → List Outline.Row
  | none => after
  | some value => value.outline depth after

end

end Expr

namespace Stmt

def presence {α : Type} (part : Option α) : String := if part.isSome then "1" else "0"

def label : Stmt → String
  | expression _ _ => "ExprStmt"
  | declare binding => s!"VarDecl {binding.label}"
  | typeDef name underlying _ => s!"TypeDef {name} = {underlying}"
  | block body _ => s!"Block {body.length}"
  | conditional _ _ none _ => "If"
  | conditional _ _ (some _) _ => "If else"
  | whileLoop _ _ _ => "While"
  | forLoop initializer condition increment _ _ =>
    s!"For {presence initializer}{presence condition}{presence increment}"
  | function name parameters none _ _ => s!"FnDecl {name}/{parameters.length}"
  | function name parameters (some type) _ _ => s!"FnDecl {name}/{parameters.length}: {type}"

mutual

def outline (depth : Nat) (after : List Outline.Row) (stmt : Stmt) : List Outline.Row :=
  ⟨depth, stmt.label, stmt.position⟩ ::
    match stmt with
    | expression value _ => value.outline (depth + 1) after
    | declare binding => Expr.outlineOption (depth + 1) after binding.initializer
    | typeDef _ _ _ => after
    | block body _ => outlineList (depth + 1) after body
    | conditional condition yes no _ =>
      condition.outline (depth + 1)
        (yes.outline (depth + 1) (outlineOption (depth + 1) after no))
    | whileLoop condition body _ =>
      condition.outline (depth + 1) (body.outline (depth + 1) after)
    | forLoop initializer condition increment body _ =>
      outlineOption (depth + 1)
        (Expr.outlineOption (depth + 1)
          (Expr.outlineOption (depth + 1) (body.outline (depth + 1) after) increment) condition)
        initializer
    | function _ parameters _ body _ =>
      parameters.foldr
        (fun parameter after => ⟨depth + 1, s!"Param {parameter.label}", parameter.position⟩ ::
          Expr.outlineOption (depth + 2) after parameter.initializer)
        (body.outline (depth + 1) after)

def outlineList (depth : Nat) (after : List Outline.Row) : List Stmt → List Outline.Row
  | [] => after
  | stmt :: stmts => stmt.outline depth (outlineList depth after stmts)

def outlineOption (depth : Nat) (after : List Outline.Row) : Option Stmt → List Outline.Row
  | none => after
  | some stmt => stmt.outline depth after

end

end Stmt

namespace Program

def outline (program : Program) : List Outline.Row := Stmt.outlineList 0 [] program.statements

end Program

end YalSyntax
