import YalSyntax.Token
import YalSyntax.Operator

namespace YalSyntax

/-- A node carries the position of the token that stands for it: the operator of an operation, the
name of a variable or call, the first token of a statement. -/
inductive Expr
  | binary (left : Expr) (operator : BinaryOp) (right : Expr) (position : Position)
  | logical (left : Expr) (operator : LogicalOp) (right : Expr) (position : Position)
  | prefixed (operator : UnaryOp) (operand : Expr) (position : Position)
  | suffixed (operator : UnaryOp) (operand : Expr) (position : Position)
  | literal (token : Token)
  | grouping (inner : Expr) (position : Position)
  | ident (name : String) (position : Position)
  | assign (name : String) (value : Expr) (position : Position)
  | call (name : String) (arguments : List Expr) (position : Position)
  | returned (value : Option Expr) (position : Position)
deriving Repr, Inhabited

/-- A name with an optional type and an optional value, as `let` declares it. Parameters are bindings
too. -/
structure Binding where
  name : String
  type? : Option String
  initializer : Option Expr
  position : Position
deriving Repr, Inhabited

inductive Stmt
  | expression (value : Expr) (position : Position)
  | declare (binding : Binding)
  | typeDef (name : String) (underlying : String) (position : Position)
  | block (body : List Stmt) (position : Position)
  | conditional (condition : Expr) (yes : Stmt) (no : Option Stmt) (position : Position)
  | whileLoop (condition : Expr) (body : Stmt) (position : Position)
  | forLoop (initializer : Option Stmt) (condition : Option Expr) (increment : Option Expr)
      (body : Stmt) (position : Position)
  | function (name : String) (parameters : List Binding) (returns : Option String) (body : Stmt)
      (position : Position)
deriving Repr, Inhabited

structure Program where
  statements : List Stmt
deriving Repr, Inhabited

namespace Expr

def position : Expr → Position
  | binary _ _ _ position | logical _ _ _ position => position
  | prefixed _ _ position | suffixed _ _ position => position
  | literal token => token.position
  | grouping _ position | ident _ position => position
  | assign _ _ position | call _ _ position | returned _ position => position

def operation : Operator → Expr → Expr → Position → Expr
  | .binary operator, left, right, position => binary left operator right position
  | .logical operator, left, right, position => logical left operator right position

/-- The expression that returns the value of `value`; one that returns already stays as it is. -/
def asReturn : Expr → Expr
  | returned value position => returned value position
  | value => returned (some value) value.position

end Expr

namespace Stmt

def position : Stmt → Position
  | expression _ position | typeDef _ _ position | block _ position => position
  | declare binding => binding.position
  | conditional _ _ _ position | whileLoop _ _ position => position
  | forLoop _ _ _ _ position | function _ _ _ _ position => position

end Stmt

end YalSyntax
