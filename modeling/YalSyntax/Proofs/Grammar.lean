import YalSyntax.Reading

namespace YalSyntax

namespace Grammar

/-- What may stand behind a `return` without a value. -/
def EndsValue (rest : List Token) : Prop :=
  ∀ next ∈ rest.head?, next.kind = .semicolon ∨ next.kind = .rightBrace

mutual

/-- `expression := "return" expression? | assignment` -/
inductive Expression : List Token → Expr → List Token → Prop
  | valueless {word : Token} {rest : List Token} (isReturn : word.kind = .returnWord)
      (ends : EndsValue rest) : Expression (word :: rest) (.returned none word.position) rest
  | returned {word : Token} {tokens rest : List Token} {value : Expr}
      (isReturn : word.kind = .returnWord) (inner : Expression tokens value rest) :
      Expression (word :: tokens) (.returned (some value) word.position) rest
  | assignment {tokens rest : List Token} {value : Expr} (inner : Assignment tokens value rest) :
      Expression tokens value rest

/-- `assignment := IDENT "=" assignment | logicOr` -/
inductive Assignment : List Token → Expr → List Token → Prop
  | assign {name sign : Token} {tokens rest : List Token} {value : Expr}
      (isName : name.kind = .identifier) (isEqual : sign.kind = .equal)
      (inner : Assignment tokens value rest) :
      Assignment (name :: sign :: tokens) (.assign name.text value name.position) rest
  | operation {tokens rest : List Token} {value : Expr} (inner : Operation 1 tokens value rest) :
      Assignment tokens value rest

/-- The tiers of two-sided operators, each left-associative: a strength of one is `logicOr`, a
strength of five `factor`, and above all tiers stands `unary`. -/
inductive Operation : Nat → List Token → Expr → List Token → Prop
  | chain {strength : Nat} {sign : Token} {tokens middle rest : List Token} {left right : Expr}
      {operator : Operator} (first : Operation strength tokens left (sign :: middle))
      (isSign : operator.kind = sign.kind) (binds : sign.kind.strength = strength)
      (second : Operation (strength + 1) middle right rest) :
      Operation strength tokens (.operation operator left right sign.position) rest
  | stronger {strength : Nat} {tokens rest : List Token} {value : Expr}
      (weak : strength < unaryStrength) (inner : Operation (strength + 1) tokens value rest) :
      Operation strength tokens value rest
  | unary {tokens rest : List Token} {value : Expr} (inner : Unary tokens value rest) :
      Operation unaryStrength tokens value rest

/-- `unary := ("!" | "-" | "++" | "--") unary | operand` -/
inductive Unary : List Token → Expr → List Token → Prop
  | prefixed {sign : Token} {tokens rest : List Token} {operator : UnaryOp} {value : Expr}
      (isSign : operator.kind = sign.kind) (inner : Unary tokens value rest) :
      Unary (sign :: tokens) (.prefixed operator value sign.position) rest
  | operand {tokens rest : List Token} {value : Expr} (inner : Operand tokens value rest) :
      Unary tokens value rest

/-- `operand := IDENT ("++" | "--") | primary` -/
inductive Operand : List Token → Expr → List Token → Prop
  | suffixed {name sign : Token} {rest : List Token} {operator : UnaryOp}
      (isName : name.kind = .identifier) (isSign : operator.kind = sign.kind)
      (steps : operator = .increment ∨ operator = .decrement) :
      Operand (name :: sign :: rest)
        (.suffixed operator (.ident name.text name.position) name.position) rest
  | primary {tokens rest : List Token} {value : Expr} (inner : Primary tokens value rest) :
      Operand tokens value rest

/-- `primary := LITERAL | IDENT | IDENT "(" arguments ")" | "(" expression ")"` -/
inductive Primary : List Token → Expr → List Token → Prop
  | literal {token : Token} {rest : List Token} (isLiteral : token.kind.isLiteral) :
      Primary (token :: rest) (.literal token) rest
  | ident {name : Token} {rest : List Token} (isName : name.kind = .identifier) :
      Primary (name :: rest) (.ident name.text name.position) rest
  | call {name opener : Token} {tokens rest : List Token} {values : List Expr}
      (isName : name.kind = .identifier) (isOpen : opener.kind = .leftParen)
      (inner : Arguments tokens values rest) :
      Primary (name :: opener :: tokens) (.call name.text values name.position) rest
  | grouping {opener closer : Token} {tokens rest : List Token} {value : Expr}
      (isOpen : opener.kind = .leftParen) (inner : Expression tokens value (closer :: rest))
      (isClose : closer.kind = .rightParen) :
      Primary (opener :: tokens) (.grouping value opener.position) rest

inductive Arguments : List Token → List Expr → List Token → Prop
  | empty {closer : Token} {rest : List Token} (isClose : closer.kind = .rightParen) :
      Arguments (closer :: rest) [] rest
  | listed {tokens rest : List Token} {values : List Expr} (inner : MoreArguments tokens values rest) :
      Arguments tokens values rest

inductive MoreArguments : List Token → List Expr → List Token → Prop
  | last {closer : Token} {tokens rest : List Token} {value : Expr}
      (inner : Expression tokens value (closer :: rest)) (isClose : closer.kind = .rightParen) :
      MoreArguments tokens [value] rest
  | more {comma : Token} {tokens middle rest : List Token} {value : Expr} {values : List Expr}
      (inner : Expression tokens value (comma :: middle)) (isComma : comma.kind = .comma)
      (others : MoreArguments middle values rest) :
      MoreArguments tokens (value :: values) rest

end

inductive TypeMark : List Token → Option String → List Token → Prop
  | absent {tokens : List Token} : TypeMark tokens none tokens
  | present {colon name : Token} {rest : List Token} (isColon : colon.kind = .colon)
      (isName : name.kind = .identifier) : TypeMark (colon :: name :: rest) (some name.text) rest

inductive Bound : List Token → Binding → List Token → Prop
  | name {name : Token} {tokens rest : List Token} {type? : Option String}
      (isName : name.kind = .identifier) (mark : TypeMark tokens type? rest) :
      Bound (name :: tokens) ⟨name.text, type?, none, name.position⟩ rest

inductive MoreParameters : List Token → List Binding → List Token → Prop
  | last {closer : Token} {tokens rest : List Token} {parameter : Binding}
      (inner : Bound tokens parameter (closer :: rest)) (isClose : closer.kind = .rightParen) :
      MoreParameters tokens [parameter] rest
  | more {comma : Token} {tokens middle rest : List Token} {parameter : Binding}
      {parameters : List Binding} (inner : Bound tokens parameter (comma :: middle))
      (isComma : comma.kind = .comma) (others : MoreParameters middle parameters rest) :
      MoreParameters tokens (parameter :: parameters) rest

inductive Parameters : List Token → List Binding → List Token → Prop
  | empty {closer : Token} {rest : List Token} (isClose : closer.kind = .rightParen) :
      Parameters (closer :: rest) [] rest
  | listed {tokens rest : List Token} {parameters : List Binding}
      (inner : MoreParameters tokens parameters rest) : Parameters tokens parameters rest

inductive InitialValue : List Token → Option Expr → List Token → Prop
  | absent {semicolon : Token} {rest : List Token} (isEnd : semicolon.kind = .semicolon) :
      InitialValue (semicolon :: rest) none rest
  | present {sign semicolon : Token} {tokens rest : List Token} {value : Expr}
      (isEqual : sign.kind = .equal) (inner : Expression tokens value (semicolon :: rest))
      (isEnd : semicolon.kind = .semicolon) :
      InitialValue (sign :: tokens) (some value) rest

inductive LetDeclaration : List Token → Stmt → List Token → Prop
  | declare {word : Token} {tokens middle rest : List Token} {name : Binding}
      {initializer : Option Expr} (isLet : word.kind = .letWord) (bound : Bound tokens name middle)
      (initial : InitialValue middle initializer rest) :
      LetDeclaration (word :: tokens)
        (.declare { name with initializer, position := word.position }) rest

/-- `expression (";" | lookahead "}")`, where an expression before a `}` is returned. Only
`implicit` statements may leave the `return` out. -/
inductive ExpressionStatement (implicit : Bool) : List Token → Stmt → List Token → Prop
  | ended {first semicolon : Token} {tokens rest : List Token} {value : Expr}
      (inner : Expression (first :: tokens) value (semicolon :: rest))
      (isEnd : semicolon.kind = .semicolon) :
      ExpressionStatement implicit (first :: tokens) (.expression value first.position) rest
  | returning {first closer : Token} {tokens rest : List Token} {value : Option Expr}
      {position : Position} (inner : Expression (first :: tokens) (.returned value position)
        (closer :: rest)) (isClose : closer.kind = .rightBrace) :
      ExpressionStatement implicit (first :: tokens)
        (.expression (.returned value position) first.position) (closer :: rest)
  | tail {first closer : Token} {tokens rest : List Token} {value : Expr}
      (allowed : implicit = true) (inner : Expression (first :: tokens) value (closer :: rest))
      (isClose : closer.kind = .rightBrace) (plain : ∀ result at_, value ≠ .returned result at_) :
      ExpressionStatement implicit (first :: tokens)
        (.expression (.returned (some value) value.position) first.position) (closer :: rest)

/-- The first clause of a `for`, with the `;` behind it. -/
inductive FirstClause (implicit : Bool) : List Token → Option Stmt → List Token → Prop
  | absent {semicolon : Token} {rest : List Token} (isEnd : semicolon.kind = .semicolon) :
      FirstClause implicit (semicolon :: rest) none rest
  | declaration {tokens rest : List Token} {stmt : Stmt} (inner : LetDeclaration tokens stmt rest) :
      FirstClause implicit tokens (some stmt) rest
  | expression {tokens rest : List Token} {stmt : Stmt}
      (inner : ExpressionStatement implicit tokens stmt rest) :
      FirstClause implicit tokens (some stmt) rest

/-- An optional expression, with the token of a kind behind it. -/
inductive Clause (close : Token.Kind) : List Token → Option Expr → List Token → Prop
  | absent {closer : Token} {rest : List Token} (isClose : closer.kind = close) :
      Clause close (closer :: rest) none rest
  | present {closer : Token} {tokens rest : List Token} {value : Expr}
      (inner : Expression tokens value (closer :: rest)) (isClose : closer.kind = close) :
      Clause close tokens (some value) rest

inductive Condition : List Token → Expr → List Token → Prop
  | parens {opener closer : Token} {tokens rest : List Token} {value : Expr}
      (isOpen : opener.kind = .leftParen) (inner : Expression tokens value (closer :: rest))
      (isClose : closer.kind = .rightParen) : Condition (opener :: tokens) value rest

mutual

inductive Declaration (implicit : Bool) : List Token → Stmt → List Token → Prop
  | letDeclaration {tokens rest : List Token} {stmt : Stmt}
      (inner : LetDeclaration tokens stmt rest) : Declaration implicit tokens stmt rest
  | typeDef {word name sign underlying semicolon : Token} {rest : List Token}
      (isType : word.kind = .typeWord) (isName : name.kind = .identifier)
      (isEqual : sign.kind = .equal) (isUnderlying : underlying.kind = .identifier)
      (isEnd : semicolon.kind = .semicolon) :
      Declaration implicit (word :: name :: sign :: underlying :: semicolon :: rest)
        (.typeDef name.text underlying.text word.position) rest
  | statement {tokens rest : List Token} {stmt : Stmt}
      (inner : Statement implicit tokens stmt rest) : Declaration implicit tokens stmt rest

inductive Statement (implicit : Bool) : List Token → Stmt → List Token → Prop
  | function {word name opener : Token} {tokens middle behind rest : List Token}
      {parameters : List Binding} {returns : Option String} {body : Stmt}
      (isFn : word.kind = .fnWord) (isName : name.kind = .identifier)
      (isOpen : opener.kind = .leftParen) (listed : Parameters tokens parameters middle)
      (mark : TypeMark middle returns behind) (inner : Statement implicit behind body rest) :
      Statement implicit (word :: name :: opener :: tokens)
        (.function name.text parameters returns body word.position) rest
  | forLoop {word opener : Token} {tokens second third behind rest : List Token}
      {initializer : Option Stmt} {condition increment : Option Expr} {body : Stmt}
      (isFor : word.kind = .forWord) (isOpen : opener.kind = .leftParen)
      (first : FirstClause implicit tokens initializer second)
      (next : Clause .semicolon second condition third)
      (last : Clause .rightParen third increment behind)
      (inner : Statement implicit behind body rest) :
      Statement implicit (word :: opener :: tokens)
        (.forLoop initializer condition increment body word.position) rest
  | whileLoop {word : Token} {tokens behind rest : List Token} {condition : Expr} {body : Stmt}
      (isWhile : word.kind = .whileWord) (test : Condition tokens condition behind)
      (inner : Statement implicit behind body rest) :
      Statement implicit (word :: tokens) (.whileLoop condition body word.position) rest
  | conditional {word : Token} {tokens behind rest : List Token} {condition : Expr} {yes : Stmt}
      (isIf : word.kind = .ifWord) (test : Condition tokens condition behind)
      (inner : Statement implicit behind yes rest)
      (nearest : ∀ next ∈ rest.head?, next.kind ≠ .elseWord) :
      Statement implicit (word :: tokens) (.conditional condition yes none word.position) rest
  | alternative {word other : Token} {tokens behind middle rest : List Token} {condition : Expr}
      {yes no : Stmt} (isIf : word.kind = .ifWord) (test : Condition tokens condition behind)
      (inner : Statement implicit behind yes (other :: middle)) (isElse : other.kind = .elseWord)
      (second : Statement implicit middle no rest) :
      Statement implicit (word :: tokens) (.conditional condition yes (some no) word.position) rest
  | block {opener closer : Token} {tokens rest : List Token} {body : List Stmt}
      (isOpen : opener.kind = .leftBrace)
      (inner : Declarations implicit tokens body (closer :: rest))
      (isClose : closer.kind = .rightBrace) :
      Statement implicit (opener :: tokens) (.block body opener.position) rest
  | expression {tokens rest : List Token} {stmt : Stmt}
      (inner : ExpressionStatement implicit tokens stmt rest) :
      Statement implicit tokens stmt rest

inductive Declarations (implicit : Bool) : List Token → List Stmt → List Token → Prop
  | none {tokens : List Token} : Declarations implicit tokens [] tokens
  | more {tokens middle rest : List Token} {stmt : Stmt} {others : List Stmt}
      (first : Declaration implicit tokens stmt middle)
      (second : Declarations implicit middle others rest) :
      Declarations implicit tokens (stmt :: others) rest

end

/-- The tokens derive the program, from the first to the last. A rule names the tokens that it takes,
and three rules look at the token behind them as well: a `return` has no value just before a `;`, a
`}` or the end, an expression needs no `;` just before a `}`, and an `if` without an `else` does not
stand before an `else`. -/
def Derives (implicit : Bool) (tokens : List Token) (program : Program) : Prop :=
  Declarations implicit tokens program.statements []

end Grammar

end YalSyntax
