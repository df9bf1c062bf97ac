import Mathlib
import YalSyntax.Proofs.Composition.Positions

namespace YalSyntax

open Grammar Reading

namespace Expr

/-- An operand: no assignment, no `return`, and no operation that binds weaker than `least`. -/
def Binds (least : Nat) : Expr → Prop
  | binary _ operator _ _ => least ≤ operator.kind.strength
  | logical _ operator _ _ => least ≤ operator.kind.strength
  | assign _ _ _ | returned _ _ => False
  | _ => True

/-- The operand of a leading operator: no assignment, no `return` and no two-sided operation. -/
def IsUnary : Expr → Prop
  | binary _ _ _ _ | logical _ _ _ _ | assign _ _ _ | returned _ _ => False
  | _ => True

def IsReturn : Expr → Prop
  | returned _ _ => True
  | _ => False

/-- A `return` without a value, alone or at the end of a chain of them. -/
inductive Valueless : Expr → Prop
  | bare {position : Position} : Valueless (returned none position)
  | chained {value : Expr} {position : Position} (inner : value.Valueless) :
      Valueless (returned (some value) position)

/-- What an expression asks of the expressions it is made of. -/
def Shaped : Expr → Prop
  | binary left operator right _ =>
    left.Binds operator.kind.strength ∧ right.Binds (operator.kind.strength + 1)
  | logical left operator right _ =>
    left.Binds operator.kind.strength ∧ right.Binds (operator.kind.strength + 1)
  | prefixed _ operand _ => operand.IsUnary
  | suffixed operator operand _ =>
    (operator = .increment ∨ operator = .decrement) ∧
      ∃ name position, operand = .ident name position
  | literal token => token.kind.isLiteral
  | grouping inner _ => ¬ inner.Valueless
  | assign _ value _ => ¬ value.IsReturn
  | call _ arguments _ => ∀ argument ∈ arguments, ¬ argument.Valueless
  | ident _ _ | returned _ _ => True

/-- Every expression within an expression, and the expression itself, is of its shape. -/
def WellShaped (value : Expr) : Prop := ∀ node ∈ value.nodes, node.Shaped

theorem IsUnary.binds {value : Expr} (unary : value.IsUnary) (least : Nat) : value.Binds least := by
  cases value <;> trivial

theorem IsUnary.not_isReturn {value : Expr} (unary : value.IsUnary) : ¬ value.IsReturn := by
  cases value <;> first | exact id | exact unary.elim

theorem Binds.weaker {value : Expr} {least weaker : Nat} (binds : value.Binds least)
    (weak : weaker ≤ least) : value.Binds weaker := by
  cases value <;> first | exact Nat.le_trans weak binds | exact binds

theorem Binds.not_isReturn {value : Expr} {least : Nat} (binds : value.Binds least) :
    ¬ value.IsReturn := by
  cases value <;> first | exact id | exact binds.elim

theorem Valueless.isReturn {value : Expr} (valueless : value.Valueless) : value.IsReturn := by
  cases valueless <;> trivial

@[simp] theorem binds_operation {operator : Operator} {left right : Expr} {position : Position}
    {least : Nat} : (operation operator left right position).Binds least ↔
      least ≤ operator.kind.strength := by
  cases operator <;> rfl

theorem wellShaped_operation {operator : Operator} {left right : Expr} {position : Position}
    (binds : left.Binds operator.kind.strength)
    (stronger : right.Binds (operator.kind.strength + 1)) (before : left.WellShaped)
    (behind : right.WellShaped) : (operation operator left right position).WellShaped := by
  cases operator <;>
    exact List.forall_mem_cons.mpr ⟨⟨binds, stronger⟩, List.forall_mem_append.mpr ⟨before, behind⟩⟩

end Expr

namespace Grammar

theorem Primary.isUnary {tokens rest : List Token} {value : Expr}
    (derived : Primary tokens value rest) : value.IsUnary := by
  cases derived <;> trivial

theorem Operand.isUnary {tokens rest : List Token} {value : Expr}
    (derived : Operand tokens value rest) : value.IsUnary := by
  cases derived with
  | suffixed => trivial
  | primary inner => exact inner.isUnary

theorem Unary.isUnary {tokens rest : List Token} {value : Expr}
    (derived : Unary tokens value rest) : value.IsUnary := by
  cases derived with
  | prefixed => trivial
  | operand inner => exact inner.isUnary

theorem Operation.binds : ∀ {strength : Nat} {tokens rest : List Token} {value : Expr},
    Operation strength tokens value rest → value.Binds strength
  | _, _, _, _, .chain _ isSign rfl _ => by
    rw [Expr.binds_operation, isSign]
  | _, _, _, _, .stronger _ inner => inner.binds.weaker (Nat.le_succ _)
  | _, _, _, _, .unary inner => inner.isUnary.binds _

theorem Assignment.not_isReturn {tokens rest : List Token} {value : Expr}
    (derived : Assignment tokens value rest) : ¬ value.IsReturn := by
  cases derived with
  | assign => nofun
  | operation inner => exact inner.binds.not_isReturn

theorem Expression.endsValue {tokens rest : List Token} {value : Expr}
    (derived : Expression tokens value rest) (valueless : value.Valueless) : EndsValue rest := by
  induction valueless generalizing tokens with
  | bare =>
    cases derived with
    | valueless _ ends => exact ends
    | assignment inner => exact absurd trivial inner.not_isReturn
  | chained _ further =>
    cases derived with
    | returned _ inner => exact further inner
    | assignment inner => exact absurd trivial inner.not_isReturn

theorem Expression.not_valueless {closer : Token} {kind : Token.Kind} {tokens rest : List Token}
    {value : Expr} (derived : Expression tokens value (closer :: rest))
    (isKind : closer.kind = kind) (goesOn : kind ≠ .semicolon ∧ kind ≠ .rightBrace) :
    ¬ value.Valueless := by
  intro valueless
  rcases derived.endsValue valueless closer rfl with ended | ended
  · exact goesOn.1 (isKind.symm.trans ended)
  · exact goesOn.2 (isKind.symm.trans ended)

mutual

theorem Expression.wellShaped : ∀ {tokens rest : List Token} {value : Expr},
    Expression tokens value rest → value.WellShaped
  | _, _, _, .valueless _ _ => List.forall_mem_singleton.mpr trivial
  | _, _, _, .returned _ inner => List.forall_mem_cons.mpr ⟨trivial, inner.wellShaped⟩
  | _, _, _, .assignment inner => inner.wellShaped

theorem Assignment.wellShaped : ∀ {tokens rest : List Token} {value : Expr},
    Assignment tokens value rest → value.WellShaped
  | _, _, _, .assign _ _ inner => List.forall_mem_cons.mpr ⟨inner.not_isReturn, inner.wellShaped⟩
  | _, _, _, .operation inner => inner.wellShaped

theorem Operation.wellShaped : ∀ {strength : Nat} {tokens rest : List Token} {value : Expr},
    Operation strength tokens value rest → value.WellShaped
  | _, _, _, _, .chain first isSign rfl second => by
    have binds := first.binds
    have stronger := second.binds
    rw [← isSign] at binds stronger
    exact Expr.wellShaped_operation binds stronger first.wellShaped second.wellShaped
  | _, _, _, _, .stronger _ inner => inner.wellShaped
  | _, _, _, _, .unary inner => inner.wellShaped

theorem Unary.wellShaped : ∀ {tokens rest : List Token} {value : Expr},
    Unary tokens value rest → value.WellShaped
  | _, _, _, .prefixed _ inner => List.forall_mem_cons.mpr ⟨inner.isUnary, inner.wellShaped⟩
  | _, _, _, .operand inner => inner.wellShaped

theorem Operand.wellShaped : ∀ {tokens rest : List Token} {value : Expr},
    Operand tokens value rest → value.WellShaped
  | _, _, _, .suffixed _ _ steps =>
    List.forall_mem_cons.mpr ⟨⟨steps, _, _, rfl⟩, List.forall_mem_singleton.mpr trivial⟩
  | _, _, _, .primary inner => inner.wellShaped

theorem Primary.wellShaped : ∀ {tokens rest : List Token} {value : Expr},
    Primary tokens value rest → value.WellShaped
  | _, _, _, .literal isLiteral => List.forall_mem_singleton.mpr isLiteral
  | _, _, _, .ident _ => List.forall_mem_singleton.mpr trivial
  | _, _, _, .call _ _ inner => List.forall_mem_cons.mpr inner.wellShaped
  | _, _, _, .grouping _ inner isClose =>
    List.forall_mem_cons.mpr ⟨inner.not_valueless isClose ⟨nofun, nofun⟩, inner.wellShaped⟩

theorem Arguments.wellShaped : ∀ {tokens rest : List Token} {values : List Expr},
    Arguments tokens values rest →
      (∀ value ∈ values, ¬ value.Valueless) ∧ ∀ node ∈ Expr.insideList values, node.Shaped
  | _, _, _, .empty _ => ⟨List.forall_mem_nil _, List.forall_mem_nil _⟩
  | _, _, _, .listed inner => inner.wellShaped

theorem MoreArguments.wellShaped : ∀ {tokens rest : List Token} {values : List Expr},
    MoreArguments tokens values rest →
      (∀ value ∈ values, ¬ value.Valueless) ∧ ∀ node ∈ Expr.insideList values, node.Shaped
  | _, _, _, .last inner isClose => by
    have valued := inner.not_valueless isClose ⟨nofun, nofun⟩
    exact ⟨List.forall_mem_singleton.mpr valued,
      List.forall_mem_append.mpr ⟨inner.wellShaped, List.forall_mem_nil _⟩⟩
  | _, _, _, .more inner isComma others => by
    have valued := inner.not_valueless isComma ⟨nofun, nofun⟩
    obtain ⟨others, shaped⟩ := others.wellShaped
    exact ⟨List.forall_mem_cons.mpr ⟨valued, others⟩,
      List.forall_mem_append.mpr ⟨inner.wellShaped, shaped⟩⟩

end

end Grammar

namespace Stmt

/-- What may be the body of another statement: no declaration. -/
def IsBody : Stmt → Prop
  | declare _ | typeDef _ _ _ => False
  | _ => True

/-- What may be the first clause of a `for`. -/
def IsClause : Stmt → Prop
  | declare _ | expression _ _ => True
  | _ => False

/-- A statement that ends, through bodies without braces, in an `if` without an `else`. -/
inductive EndsOpen : Stmt → Prop
  | conditional {condition : Expr} {yes : Stmt} {position : Position} :
      EndsOpen (conditional condition yes none position)
  | alternative {condition : Expr} {yes no : Stmt} {position : Position} (inner : no.EndsOpen) :
      EndsOpen (conditional condition yes (some no) position)
  | whileLoop {condition : Expr} {body : Stmt} {position : Position} (inner : body.EndsOpen) :
      EndsOpen (whileLoop condition body position)
  | forLoop {initializer : Option Stmt} {condition increment : Option Expr} {body : Stmt}
      {position : Position} (inner : body.EndsOpen) :
      EndsOpen (forLoop initializer condition increment body position)
  | function {name : String} {parameters : List Binding} {returns : Option String} {body : Stmt}
      {position : Position} (inner : body.EndsOpen) :
      EndsOpen (function name parameters returns body position)

def values : Stmt → List Expr
  | expression value _ => [value]
  | declare binding => binding.initializer.toList
  | conditional condition _ _ _ | whileLoop condition _ _ => [condition]
  | forLoop _ condition increment _ _ => condition.toList ++ increment.toList
  | function _ parameters _ _ _ => parameters.flatMap (·.initializer.toList)
  | typeDef _ _ _ | block _ _ => []

/-- What a statement asks of the statements and expressions it is directly made of. -/
def Shaped : Stmt → Prop
  | conditional condition yes no _ =>
    ¬ condition.Valueless ∧ yes.IsBody ∧ ∀ other ∈ no, other.IsBody ∧ ¬ yes.EndsOpen
  | whileLoop condition body _ => ¬ condition.Valueless ∧ body.IsBody
  | forLoop initializer _ increment body _ =>
    (∀ first ∈ initializer, first.IsClause) ∧ (∀ value ∈ increment, ¬ value.Valueless) ∧ body.IsBody
  | function _ parameters _ body _ =>
    (∀ parameter ∈ parameters, parameter.initializer = none) ∧ body.IsBody
  | expression _ _ | declare _ | typeDef _ _ _ | block _ _ => True

/-- A statement is of its shape, and so are the expressions within it that no other statement
holds. -/
def Fits (stmt : Stmt) : Prop := stmt.Shaped ∧ ∀ value ∈ stmt.values, value.WellShaped

end Stmt

namespace Grammar

theorem LetDeclaration.fits {tokens rest : List Token} {stmt : Stmt}
    (derived : LetDeclaration tokens stmt rest) :
    stmt.IsClause ∧ ∀ node ∈ stmt.nodes, node.Fits := by
  cases derived with
  | declare _ _ initial =>
    refine ⟨trivial, List.forall_mem_singleton.mpr ⟨trivial, ?_⟩⟩
    cases initial with
    | absent => exact List.forall_mem_nil _
    | present _ inner _ => exact List.forall_mem_singleton.mpr inner.wellShaped

theorem ExpressionStatement.fits {implicit : Bool} {tokens rest : List Token} {stmt : Stmt}
    (derived : ExpressionStatement implicit tokens stmt rest) :
    stmt.IsClause ∧ ∀ node ∈ stmt.nodes, node.Fits := by
  cases derived with
  | ended inner _ | returning inner _ =>
    exact ⟨trivial, List.forall_mem_singleton.mpr
      ⟨trivial, List.forall_mem_singleton.mpr inner.wellShaped⟩⟩
  | tail _ inner _ _ =>
    refine ⟨trivial, List.forall_mem_singleton.mpr ⟨trivial, List.forall_mem_singleton.mpr ?_⟩⟩
    exact List.forall_mem_cons.mpr ⟨trivial, inner.wellShaped⟩

theorem FirstClause.fits {implicit : Bool} {tokens rest : List Token} {first : Option Stmt}
    (derived : FirstClause implicit tokens first rest) :
    (∀ stmt ∈ first, stmt.IsClause) ∧ ∀ node ∈ Stmt.insideOption first, node.Fits := by
  cases derived with
  | absent => exact ⟨nofun, List.forall_mem_nil _⟩
  | declaration inner =>
    obtain ⟨clause, fits⟩ := inner.fits
    exact ⟨by simpa using clause, fits⟩
  | expression inner =>
    obtain ⟨clause, fits⟩ := inner.fits
    exact ⟨by simpa using clause, fits⟩

theorem Clause.wellShaped {close : Token.Kind} {tokens rest : List Token} {value : Option Expr}
    (derived : Clause close tokens value rest) : ∀ node ∈ value.toList, node.WellShaped := by
  cases derived with
  | absent => exact List.forall_mem_nil _
  | present inner _ => exact List.forall_mem_singleton.mpr inner.wellShaped

theorem Clause.not_valueless {tokens rest : List Token} {value : Option Expr}
    (derived : Clause .rightParen tokens value rest) : ∀ node ∈ value, ¬ node.Valueless := by
  cases derived with
  | absent => nofun
  | present inner isClose =>
    rintro _ ⟨⟩
    exact inner.not_valueless isClose ⟨nofun, nofun⟩

theorem Condition.wellShaped {tokens rest : List Token} {value : Expr}
    (derived : Condition tokens value rest) : ¬ value.Valueless ∧ value.WellShaped := by
  cases derived with
  | parens _ inner isClose =>
    exact ⟨inner.not_valueless isClose ⟨nofun, nofun⟩, inner.wellShaped⟩

theorem Statement.isBody {implicit : Bool} {tokens rest : List Token} {stmt : Stmt}
    (derived : Statement implicit tokens stmt rest) : stmt.IsBody := by
  cases derived with
  | expression inner => cases inner <;> trivial
  | _ => trivial

theorem Statement.nearest {implicit : Bool} {tokens rest : List Token} {stmt : Stmt}
    (derived : Statement implicit tokens stmt rest) (endsOpen : stmt.EndsOpen) :
    ∀ next ∈ rest.head?, next.kind ≠ .elseWord := by
  induction endsOpen generalizing tokens with
  | conditional =>
    cases derived with
    | conditional _ _ _ nearest => exact nearest
    | expression inner => cases inner
  | alternative _ further =>
    cases derived with
    | alternative _ _ _ _ second => exact further second
    | expression inner => cases inner
  | whileLoop _ further =>
    cases derived with
    | whileLoop _ _ inner => exact further inner
    | expression inner => cases inner
  | forLoop _ further =>
    cases derived with
    | forLoop _ _ _ _ _ inner => exact further inner
    | expression inner => cases inner
  | function _ further =>
    cases derived with
    | function _ _ _ _ _ inner => exact further inner
    | expression inner => cases inner

mutual

theorem Statement.fits {implicit : Bool} : ∀ {tokens rest : List Token} {stmt : Stmt},
    Statement implicit tokens stmt rest → ∀ node ∈ stmt.nodes, node.Fits
  | _, _, _, .function _ _ _ listed _ inner => by
    have plain := listed.uninitialized
    refine List.forall_mem_cons.mpr ⟨⟨⟨plain, inner.isBody⟩, fun value given => ?_⟩, inner.fits⟩
    obtain ⟨parameter, member, given⟩ := List.mem_flatMap.mp given
    rw [plain parameter member] at given
    exact absurd given List.not_mem_nil
  | _, _, _, .forLoop _ _ first next last inner => by
    obtain ⟨clause, initializer⟩ := first.fits
    have values := List.forall_mem_append.mpr ⟨next.wellShaped, last.wellShaped⟩
    exact List.forall_mem_cons.mpr ⟨⟨⟨clause, last.not_valueless, inner.isBody⟩, values⟩,
      List.forall_mem_append.mpr ⟨initializer, inner.fits⟩⟩
  | _, _, _, .whileLoop _ test inner => by
    obtain ⟨valued, condition⟩ := test.wellShaped
    exact List.forall_mem_cons.mpr ⟨⟨⟨valued, inner.isBody⟩,
      List.forall_mem_singleton.mpr condition⟩, inner.fits⟩
  | _, _, _, .conditional _ test inner _ => by
    obtain ⟨valued, condition⟩ := test.wellShaped
    exact List.forall_mem_cons.mpr ⟨⟨⟨valued, inner.isBody, nofun⟩,
      List.forall_mem_singleton.mpr condition⟩,
      List.forall_mem_append.mpr ⟨inner.fits, List.forall_mem_nil _⟩⟩
  | _, _, _, .alternative _ test inner isElse second => by
    obtain ⟨valued, condition⟩ := test.wellShaped
    have closed : ¬ Stmt.EndsOpen _ := fun endsOpen => inner.nearest endsOpen _ rfl isElse
    refine List.forall_mem_cons.mpr ⟨⟨⟨valued, inner.isBody, ?_⟩,
      List.forall_mem_singleton.mpr condition⟩,
      List.forall_mem_append.mpr ⟨inner.fits, second.fits⟩⟩
    rintro _ ⟨⟩
    exact ⟨second.isBody, closed⟩
  | _, _, _, .block _ inner _ =>
    List.forall_mem_cons.mpr ⟨⟨trivial, List.forall_mem_nil _⟩, inner.fits⟩
  | _, _, _, .expression inner => inner.fits.2

theorem Declaration.fits {implicit : Bool} : ∀ {tokens rest : List Token} {stmt : Stmt},
    Declaration implicit tokens stmt rest → ∀ node ∈ stmt.nodes, node.Fits
  | _, _, _, .letDeclaration inner => inner.fits.2
  | _, _, _, .typeDef _ _ _ _ _ =>
    List.forall_mem_singleton.mpr ⟨trivial, List.forall_mem_nil _⟩
  | _, _, _, .statement inner => inner.fits

theorem Declarations.fits {implicit : Bool} : ∀ {tokens rest : List Token} {stmts : List Stmt},
    Declarations implicit tokens stmts rest → ∀ node ∈ Stmt.insideList stmts, node.Fits
  | _, _, _, .none => List.forall_mem_nil _
  | _, _, _, .more first second => List.forall_mem_append.mpr ⟨first.fits, second.fits⟩

end

end Grammar

/-- Every statement of a program that is read is of its shape, and so is every expression in it. -/
theorem parseTokens_shaped {tokens : List Token} {program : Program}
    (read : parseTokens tokens = .ok program) :
    ∀ stmt ∈ program.nodes, stmt.Shaped ∧
      ∀ value ∈ stmt.values, ∀ node ∈ value.nodes, node.Shaped :=
  (derives_of_parseTokens read).fits

theorem parseTokens_shaped_alternative :
    let tokens : List Token := [⟨.ifWord, "if", ⟨1, 1⟩⟩, ⟨.leftParen, "(", ⟨1, 4⟩⟩,
      ⟨.identifier, "a", ⟨1, 5⟩⟩, ⟨.rightParen, ")", ⟨1, 6⟩⟩, ⟨.identifier, "b", ⟨1, 8⟩⟩,
      ⟨.equal, "=", ⟨1, 10⟩⟩, ⟨.decimalNumber, "1", ⟨1, 12⟩⟩, ⟨.plus, "+", ⟨1, 14⟩⟩,
      ⟨.decimalNumber, "2", ⟨1, 16⟩⟩, ⟨.star, "*", ⟨1, 18⟩⟩, ⟨.decimalNumber, "3", ⟨1, 20⟩⟩,
      ⟨.semicolon, ";", ⟨1, 21⟩⟩, ⟨.elseWord, "else", ⟨1, 23⟩⟩, ⟨.returnWord, "return", ⟨1, 28⟩⟩,
      ⟨.semicolon, ";", ⟨1, 34⟩⟩, ⟨.finish, "", ⟨1, 35⟩⟩]
    let sum : Expr := .binary (.literal ⟨.decimalNumber, "1", ⟨1, 12⟩⟩) .add
      (.binary (.literal ⟨.decimalNumber, "2", ⟨1, 16⟩⟩) .multiply
        (.literal ⟨.decimalNumber, "3", ⟨1, 20⟩⟩) ⟨1, 18⟩) ⟨1, 14⟩
    let program : Program := ⟨[.conditional (.ident "a" ⟨1, 5⟩)
      (.expression (.assign "b" sum ⟨1, 8⟩) ⟨1, 8⟩)
      (some (.expression (.returned none ⟨1, 28⟩) ⟨1, 28⟩)) ⟨1, 1⟩]⟩
    parseTokens tokens = .ok program ∧
      ∀ stmt ∈ program.nodes, stmt.Shaped ∧
        ∀ value ∈ stmt.values, ∀ node ∈ value.nodes, node.Shaped := by
  intro tokens sum program
  have read : parseTokens tokens = .ok program := by cbv
  exact ⟨read, parseTokens_shaped read⟩

end YalSyntax
