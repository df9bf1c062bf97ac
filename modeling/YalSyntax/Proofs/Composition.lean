import YalSyntax.Proofs.Grammar.Opening

namespace YalSyntax

mutual

/-- The tokens that an expression is made of. -/
inductive Expr.MadeOf : Expr → List Token → Prop
  | binary {left right : Expr} {operator : BinaryOp} {sign : Token} {first second : List Token}
      (before : left.MadeOf first) (isSign : sign.kind = operator.kind)
      (behind : right.MadeOf second) :
      MadeOf (.binary left operator right sign.position) (first ++ sign :: second)
  | logical {left right : Expr} {operator : LogicalOp} {sign : Token} {first second : List Token}
      (before : left.MadeOf first) (isSign : sign.kind = operator.kind)
      (behind : right.MadeOf second) :
      MadeOf (.logical left operator right sign.position) (first ++ sign :: second)
  | prefixed {operator : UnaryOp} {value : Expr} {sign : Token} {used : List Token}
      (isSign : sign.kind = operator.kind) (inner : value.MadeOf used) :
      MadeOf (.prefixed operator value sign.position) (sign :: used)
  | suffixed {operator : UnaryOp} {name sign : Token} (isName : name.kind = .identifier)
      (isSign : sign.kind = operator.kind) :
      MadeOf (.suffixed operator (.ident name.text name.position) name.position) [name, sign]
  | literal {token : Token} (isLiteral : token.kind.isLiteral) : MadeOf (.literal token) [token]
  | grouping {value : Expr} {opener closer : Token} {used : List Token}
      (isOpen : opener.kind = .leftParen) (inner : value.MadeOf used)
      (isClose : closer.kind = .rightParen) :
      MadeOf (.grouping value opener.position) (opener :: (used ++ [closer]))
  | ident {name : Token} (isName : name.kind = .identifier) :
      MadeOf (.ident name.text name.position) [name]
  | assign {value : Expr} {name sign : Token} {used : List Token}
      (isName : name.kind = .identifier) (isEqual : sign.kind = .equal)
      (inner : value.MadeOf used) :
      MadeOf (.assign name.text value name.position) (name :: sign :: used)
  | call {values : List Expr} {name opener : Token} {used : List Token}
      (isName : name.kind = .identifier) (isOpen : opener.kind = .leftParen)
      (inner : Expr.ListMadeOf values used) :
      MadeOf (.call name.text values name.position) (name :: opener :: used)
  | valueless {word : Token} (isReturn : word.kind = .returnWord) :
      MadeOf (.returned none word.position) [word]
  | returned {value : Expr} {word : Token} {used : List Token} (isReturn : word.kind = .returnWord)
      (inner : value.MadeOf used) :
      MadeOf (.returned (some value) word.position) (word :: used)

inductive Expr.ListMadeOf : List Expr → List Token → Prop
  | none {closer : Token} (isClose : closer.kind = .rightParen) : ListMadeOf [] [closer]
  | last {value : Expr} {closer : Token} {used : List Token} (inner : value.MadeOf used)
      (isClose : closer.kind = .rightParen) : ListMadeOf [value] (used ++ [closer])
  | more {value : Expr} {values : List Expr} {comma : Token} {used others : List Token}
      (inner : value.MadeOf used) (isComma : comma.kind = .comma)
      (behind : Expr.ListMadeOf values others) :
      ListMadeOf (value :: values) (used ++ comma :: others)

end

inductive Expr.OptionMadeOf : Option Expr → List Token → Prop
  | none : OptionMadeOf none []
  | some {value : Expr} {used : List Token} (inner : value.MadeOf used) :
      OptionMadeOf (some value) used

inductive TypeMadeOf : Option String → List Token → Prop
  | none : TypeMadeOf none []
  | some {colon name : Token} (isColon : colon.kind = .colon) (isName : name.kind = .identifier) :
      TypeMadeOf (some name.text) [colon, name]

inductive Binding.MadeOf : Binding → List Token → Prop
  | name {name : Token} {type? : Option String} {used : List Token}
      (isName : name.kind = .identifier) (mark : TypeMadeOf type? used) :
      MadeOf ⟨name.text, type?, none, name.position⟩ (name :: used)

inductive Binding.ListMadeOf : List Binding → List Token → Prop
  | none {closer : Token} (isClose : closer.kind = .rightParen) : ListMadeOf [] [closer]
  | last {parameter : Binding} {closer : Token} {used : List Token}
      (inner : parameter.MadeOf used) (isClose : closer.kind = .rightParen) :
      ListMadeOf [parameter] (used ++ [closer])
  | more {parameter : Binding} {parameters : List Binding} {comma : Token}
      {used others : List Token} (inner : parameter.MadeOf used) (isComma : comma.kind = .comma)
      (behind : Binding.ListMadeOf parameters others) :
      ListMadeOf (parameter :: parameters) (used ++ comma :: others)

inductive InitialMadeOf : Option Expr → List Token → Prop
  | none : InitialMadeOf none []
  | some {value : Expr} {sign : Token} {used : List Token} (isEqual : sign.kind = .equal)
      (inner : value.MadeOf used) : InitialMadeOf (some value) (sign :: used)

inductive ConditionMadeOf : Expr → List Token → Prop
  | parens {value : Expr} {opener closer : Token} {used : List Token}
      (isOpen : opener.kind = .leftParen) (inner : value.MadeOf used)
      (isClose : closer.kind = .rightParen) :
      ConditionMadeOf value (opener :: (used ++ [closer]))

mutual

/-- The tokens that a statement is made of. Where a `}` stands behind an expression, the expression
has no `;`, and it is returned whether a `return` is written or not. -/
inductive Stmt.MadeOf : Stmt → List Token → Prop
  | expression {value : Expr} {first semicolon : Token} {more : List Token}
      (inner : value.MadeOf (first :: more)) (isEnd : semicolon.kind = .semicolon) :
      MadeOf (.expression value first.position) (first :: (more ++ [semicolon]))
  | returning {value : Option Expr} {position : Position} {first : Token} {more : List Token}
      (inner : (Expr.returned value position).MadeOf (first :: more)) :
      MadeOf (.expression (.returned value position) first.position) (first :: more)
  | tail {value : Expr} {first : Token} {more : List Token} (inner : value.MadeOf (first :: more))
      (unwritten : first.kind ≠ .returnWord) :
      MadeOf (.expression (.returned (some value) value.position) first.position) (first :: more)
  | declare {name : Binding} {initializer : Option Expr} {word semicolon : Token}
      {used given : List Token} (isLet : word.kind = .letWord) (bound : name.MadeOf used)
      (initial : InitialMadeOf initializer given) (isEnd : semicolon.kind = .semicolon) :
      MadeOf (.declare { name with initializer, position := word.position })
        (word :: (used ++ (given ++ [semicolon])))
  | typeDef {word name sign underlying semicolon : Token} (isType : word.kind = .typeWord)
      (isName : name.kind = .identifier) (isEqual : sign.kind = .equal)
      (isUnderlying : underlying.kind = .identifier) (isEnd : semicolon.kind = .semicolon) :
      MadeOf (.typeDef name.text underlying.text word.position)
        [word, name, sign, underlying, semicolon]
  | block {body : List Stmt} {opener closer : Token} {used : List Token}
      (isOpen : opener.kind = .leftBrace) (inner : Stmt.ListMadeOf body used)
      (isClose : closer.kind = .rightBrace) :
      MadeOf (.block body opener.position) (opener :: (used ++ [closer]))
  | conditional {condition : Expr} {yes : Stmt} {word : Token} {tested used : List Token}
      (isIf : word.kind = .ifWord) (test : ConditionMadeOf condition tested)
      (inner : yes.MadeOf used) :
      MadeOf (.conditional condition yes none word.position) (word :: (tested ++ used))
  | alternative {condition : Expr} {yes no : Stmt} {word other : Token}
      {tested used others : List Token} (isIf : word.kind = .ifWord)
      (test : ConditionMadeOf condition tested) (inner : yes.MadeOf used)
      (isElse : other.kind = .elseWord) (behind : no.MadeOf others) :
      MadeOf (.conditional condition yes (some no) word.position)
        (word :: (tested ++ (used ++ other :: others)))
  | whileLoop {condition : Expr} {body : Stmt} {word : Token} {tested used : List Token}
      (isWhile : word.kind = .whileWord) (test : ConditionMadeOf condition tested)
      (inner : body.MadeOf used) :
      MadeOf (.whileLoop condition body word.position) (word :: (tested ++ used))
  | forLoop {initializer : Option Stmt} {condition increment : Option Expr} {body : Stmt}
      {word opener semicolon closer : Token} {first second third used : List Token}
      (isFor : word.kind = .forWord) (isOpen : opener.kind = .leftParen)
      (start : Stmt.FirstMadeOf initializer first)
      (next : Expr.OptionMadeOf condition second) (isEnd : semicolon.kind = .semicolon)
      (last : Expr.OptionMadeOf increment third) (isClose : closer.kind = .rightParen)
      (inner : body.MadeOf used) :
      MadeOf (.forLoop initializer condition increment body word.position)
        (word :: opener :: (first ++ (second ++ semicolon :: (third ++ closer :: used))))
  | function {parameters : List Binding} {returns : Option String} {body : Stmt}
      {word name opener : Token} {names mark used : List Token} (isFn : word.kind = .fnWord)
      (isName : name.kind = .identifier) (isOpen : opener.kind = .leftParen)
      (listed : Binding.ListMadeOf parameters names) (marked : TypeMadeOf returns mark)
      (inner : body.MadeOf used) :
      MadeOf (.function name.text parameters returns body word.position)
        (word :: name :: opener :: (names ++ (mark ++ used)))

/-- The tokens of the first clause of a `for`. The `;` is that of the statement, if there is one. -/
inductive Stmt.FirstMadeOf : Option Stmt → List Token → Prop
  | none {semicolon : Token} (isEnd : semicolon.kind = .semicolon) : FirstMadeOf none [semicolon]
  | some {stmt : Stmt} {used : List Token} (inner : stmt.MadeOf used) :
      FirstMadeOf (some stmt) used

inductive Stmt.ListMadeOf : List Stmt → List Token → Prop
  | none : ListMadeOf [] []
  | more {stmt : Stmt} {stmts : List Stmt} {used others : List Token} (inner : stmt.MadeOf used)
      (behind : Stmt.ListMadeOf stmts others) : ListMadeOf (stmt :: stmts) (used ++ others)

end

theorem Expr.MadeOf.ne_nil {value : Expr} {used : List Token} (made : value.MadeOf used) :
    used ≠ [] := by
  cases made <;> simp

theorem Expr.MadeOf.operation {left right : Expr} {operator : Operator} {sign : Token}
    {first second : List Token} (before : left.MadeOf first) (isSign : sign.kind = operator.kind)
    (behind : right.MadeOf second) :
    (Expr.operation operator left right sign.position).MadeOf (first ++ sign :: second) := by
  cases operator with
  | binary operator => exact .binary before isSign behind
  | logical operator => exact .logical before isSign behind

namespace Grammar

mutual

theorem Expression.madeOf : ∀ {tokens rest : List Token} {value : Expr},
    Expression tokens value rest → ∃ used, tokens = used ++ rest ∧ value.MadeOf used
  | _, _, _, .valueless isReturn _ => ⟨[_], rfl, .valueless isReturn⟩
  | _, _, _, .returned isReturn inner => by
    obtain ⟨used, rfl, made⟩ := inner.madeOf
    exact ⟨_ :: used, rfl, .returned isReturn made⟩
  | _, _, _, .assignment inner => inner.madeOf

theorem Assignment.madeOf : ∀ {tokens rest : List Token} {value : Expr},
    Assignment tokens value rest → ∃ used, tokens = used ++ rest ∧ value.MadeOf used
  | _, _, _, .assign isName isEqual inner => by
    obtain ⟨used, rfl, made⟩ := inner.madeOf
    exact ⟨_ :: _ :: used, rfl, .assign isName isEqual made⟩
  | _, _, _, .operation inner => inner.madeOf

theorem Operation.madeOf : ∀ {strength : Nat} {tokens rest : List Token} {value : Expr},
    Operation strength tokens value rest → ∃ used, tokens = used ++ rest ∧ value.MadeOf used
  | _, _, _, _, .chain first isSign _ second => by
    obtain ⟨used, rfl, made⟩ := first.madeOf
    obtain ⟨others, rfl, made'⟩ := second.madeOf
    exact ⟨used ++ _ :: others, by simp, .operation made isSign.symm made'⟩
  | _, _, _, _, .stronger _ inner => inner.madeOf
  | _, _, _, _, .unary inner => inner.madeOf

theorem Unary.madeOf : ∀ {tokens rest : List Token} {value : Expr},
    Unary tokens value rest → ∃ used, tokens = used ++ rest ∧ value.MadeOf used
  | _, _, _, .prefixed isSign inner => by
    obtain ⟨used, rfl, made⟩ := inner.madeOf
    exact ⟨_ :: used, rfl, .prefixed isSign.symm made⟩
  | _, _, _, .operand inner => inner.madeOf

theorem Operand.madeOf : ∀ {tokens rest : List Token} {value : Expr},
    Operand tokens value rest → ∃ used, tokens = used ++ rest ∧ value.MadeOf used
  | _, _, _, .suffixed isName isSign _ => ⟨[_, _], rfl, .suffixed isName isSign.symm⟩
  | _, _, _, .primary inner => inner.madeOf

theorem Primary.madeOf : ∀ {tokens rest : List Token} {value : Expr},
    Primary tokens value rest → ∃ used, tokens = used ++ rest ∧ value.MadeOf used
  | _, _, _, .literal isLiteral => ⟨[_], rfl, .literal isLiteral⟩
  | _, _, _, .ident isName => ⟨[_], rfl, .ident isName⟩
  | _, _, _, .call isName isOpen inner => by
    obtain ⟨used, rfl, made⟩ := inner.madeOf
    exact ⟨_ :: _ :: used, rfl, .call isName isOpen made⟩
  | _, _, _, .grouping isOpen inner isClose => by
    obtain ⟨used, rfl, made⟩ := inner.madeOf
    exact ⟨_ :: (used ++ [_]), by simp, .grouping isOpen made isClose⟩

theorem Arguments.madeOf : ∀ {tokens rest : List Token} {values : List Expr},
    Arguments tokens values rest → ∃ used, tokens = used ++ rest ∧ Expr.ListMadeOf values used
  | _, _, _, .empty isClose => ⟨[_], rfl, .none isClose⟩
  | _, _, _, .listed inner => inner.madeOf

theorem MoreArguments.madeOf : ∀ {tokens rest : List Token} {values : List Expr},
    MoreArguments tokens values rest → ∃ used, tokens = used ++ rest ∧ Expr.ListMadeOf values used
  | _, _, _, .last inner isClose => by
    obtain ⟨used, rfl, made⟩ := inner.madeOf
    exact ⟨used ++ [_], by simp, .last made isClose⟩
  | _, _, _, .more inner isComma others => by
    obtain ⟨used, rfl, made⟩ := inner.madeOf
    obtain ⟨behind, rfl, made'⟩ := others.madeOf
    exact ⟨used ++ _ :: behind, by simp, .more made isComma made'⟩

end

theorem TypeMark.madeOf {tokens rest : List Token} {type? : Option String}
    (derived : TypeMark tokens type? rest) : ∃ used, tokens = used ++ rest ∧ TypeMadeOf type? used := by
  cases derived with
  | absent => exact ⟨[], rfl, .none⟩
  | present isColon isName => exact ⟨[_, _], rfl, .some isColon isName⟩

theorem Bound.madeOf {tokens rest : List Token} {name : Binding}
    (derived : Bound tokens name rest) : ∃ used, tokens = used ++ rest ∧ name.MadeOf used := by
  cases derived with
  | name isName mark =>
    obtain ⟨used, rfl, made⟩ := mark.madeOf
    exact ⟨_ :: used, rfl, .name isName made⟩

theorem MoreParameters.madeOf {tokens rest : List Token} {parameters : List Binding}
    (derived : MoreParameters tokens parameters rest) :
    ∃ used, tokens = used ++ rest ∧ Binding.ListMadeOf parameters used := by
  induction derived with
  | last inner isClose =>
    obtain ⟨used, rfl, made⟩ := inner.madeOf
    exact ⟨used ++ [_], by simp, .last made isClose⟩
  | more inner isComma _ further =>
    obtain ⟨used, rfl, made⟩ := inner.madeOf
    obtain ⟨others, rfl, made'⟩ := further
    exact ⟨used ++ _ :: others, by simp, .more made isComma made'⟩

theorem Parameters.madeOf {tokens rest : List Token} {parameters : List Binding}
    (derived : Parameters tokens parameters rest) :
    ∃ used, tokens = used ++ rest ∧ Binding.ListMadeOf parameters used := by
  cases derived with
  | empty isClose => exact ⟨[_], rfl, .none isClose⟩
  | listed inner => exact inner.madeOf

theorem InitialValue.madeOf {tokens rest : List Token} {value : Option Expr}
    (derived : InitialValue tokens value rest) :
    ∃ used semicolon, tokens = used ++ semicolon :: rest ∧ semicolon.kind = .semicolon ∧
      InitialMadeOf value used := by
  cases derived with
  | absent isEnd => exact ⟨[], _, rfl, isEnd, .none⟩
  | present isEqual inner isEnd =>
    obtain ⟨used, rfl, made⟩ := inner.madeOf
    exact ⟨_ :: used, _, rfl, isEnd, .some isEqual made⟩

theorem LetDeclaration.madeOf {tokens rest : List Token} {stmt : Stmt}
    (derived : LetDeclaration tokens stmt rest) :
    ∃ used, tokens = used ++ rest ∧ stmt.MadeOf used := by
  cases derived with
  | declare isLet bound initial =>
    obtain ⟨used, rfl, made⟩ := bound.madeOf
    obtain ⟨given, semicolon, rfl, isEnd, made'⟩ := initial.madeOf
    exact ⟨_ :: (used ++ (given ++ [semicolon])), by simp, .declare isLet made made' isEnd⟩

theorem Expression.madeOf_cons {first : Token} {tokens rest : List Token} {value : Expr}
    (derived : Expression (first :: tokens) value rest) :
    ∃ more, tokens = more ++ rest ∧ value.MadeOf (first :: more) := by
  obtain ⟨used, split, made⟩ := derived.madeOf
  cases used with
  | nil => exact absurd rfl made.ne_nil
  | cons token more =>
    obtain ⟨rfl, rfl⟩ := List.cons.inj split
    exact ⟨more, rfl, made⟩

theorem Expression.unwritten {first : Token} {tokens rest : List Token} {value : Expr}
    (derived : Expression (first :: tokens) value rest)
    (plain : ∀ result position, value ≠ .returned result position) : first.kind ≠ .returnWord := by
  intro same
  cases derived with
  | valueless => exact plain _ _ rfl
  | returned => exact plain _ _ rfl
  | assignment inner =>
    obtain ⟨_, _, split, opens⟩ := inner.starts
    obtain ⟨rfl, -⟩ := List.cons.inj split
    rw [same] at opens
    cases opens

theorem ExpressionStatement.madeOf {implicit : Bool} {tokens rest : List Token} {stmt : Stmt}
    (derived : ExpressionStatement implicit tokens stmt rest) :
    ∃ used, tokens = used ++ rest ∧ stmt.MadeOf used := by
  cases derived with
  | ended inner isEnd =>
    obtain ⟨more, rfl, made⟩ := inner.madeOf_cons
    exact ⟨_ :: (more ++ [_]), by simp, .expression made isEnd⟩
  | returning inner _ =>
    obtain ⟨more, rfl, made⟩ := inner.madeOf_cons
    exact ⟨_ :: more, rfl, .returning made⟩
  | tail _ inner _ plain =>
    obtain ⟨more, rfl, made⟩ := inner.madeOf_cons
    exact ⟨_ :: more, rfl, .tail made (inner.unwritten plain)⟩

theorem FirstClause.madeOf {implicit : Bool} {tokens rest : List Token} {stmt : Option Stmt}
    (derived : FirstClause implicit tokens stmt rest) :
    ∃ used, tokens = used ++ rest ∧ Stmt.FirstMadeOf stmt used := by
  cases derived with
  | absent isEnd => exact ⟨[_], rfl, .none isEnd⟩
  | declaration inner =>
    obtain ⟨used, split, made⟩ := inner.madeOf
    exact ⟨used, split, .some made⟩
  | expression inner =>
    obtain ⟨used, split, made⟩ := inner.madeOf
    exact ⟨used, split, .some made⟩

theorem Clause.madeOf {close : Token.Kind} {tokens rest : List Token} {value : Option Expr}
    (derived : Clause close tokens value rest) :
    ∃ used closer, tokens = used ++ closer :: rest ∧ closer.kind = close ∧
      Expr.OptionMadeOf value used := by
  cases derived with
  | absent isClose => exact ⟨[], _, rfl, isClose, .none⟩
  | present inner isClose =>
    obtain ⟨used, rfl, made⟩ := inner.madeOf
    exact ⟨used, _, rfl, isClose, .some made⟩

theorem Condition.madeOf {tokens rest : List Token} {value : Expr}
    (derived : Condition tokens value rest) :
    ∃ used, tokens = used ++ rest ∧ ConditionMadeOf value used := by
  cases derived with
  | parens isOpen inner isClose =>
    obtain ⟨used, rfl, made⟩ := inner.madeOf
    exact ⟨_ :: (used ++ [_]), by simp, .parens isOpen made isClose⟩

mutual

theorem Declaration.madeOf : ∀ {implicit : Bool} {tokens rest : List Token} {stmt : Stmt},
    Declaration implicit tokens stmt rest → ∃ used, tokens = used ++ rest ∧ stmt.MadeOf used
  | _, _, _, _, .letDeclaration inner => inner.madeOf
  | _, _, _, _, .typeDef isType isName isEqual isUnderlying isEnd =>
    ⟨[_, _, _, _, _], rfl, .typeDef isType isName isEqual isUnderlying isEnd⟩
  | _, _, _, _, .statement inner => inner.madeOf

theorem Statement.madeOf : ∀ {implicit : Bool} {tokens rest : List Token} {stmt : Stmt},
    Statement implicit tokens stmt rest → ∃ used, tokens = used ++ rest ∧ stmt.MadeOf used
  | _, _, _, _, .function isFn isName isOpen listed mark inner => by
    obtain ⟨names, rfl, made⟩ := listed.madeOf
    obtain ⟨marked, rfl, made'⟩ := mark.madeOf
    obtain ⟨used, rfl, made''⟩ := inner.madeOf
    exact ⟨_ :: _ :: _ :: (names ++ (marked ++ used)), by simp,
      .function isFn isName isOpen made made' made''⟩
  | _, _, _, _, .forLoop isFor isOpen first next last inner => by
    obtain ⟨start, rfl, made⟩ := first.madeOf
    obtain ⟨tested, semicolon, rfl, isEnd, made'⟩ := next.madeOf
    obtain ⟨stepped, closer, rfl, isClose, made''⟩ := last.madeOf
    obtain ⟨used, rfl, body⟩ := inner.madeOf
    exact ⟨_ :: _ :: (start ++ (tested ++ semicolon :: (stepped ++ closer :: used))), by simp,
      .forLoop isFor isOpen made made' isEnd made'' isClose body⟩
  | _, _, _, _, .whileLoop isWhile test inner => by
    obtain ⟨tested, rfl, made⟩ := test.madeOf
    obtain ⟨used, rfl, made'⟩ := inner.madeOf
    exact ⟨_ :: (tested ++ used), by simp, .whileLoop isWhile made made'⟩
  | _, _, _, _, .conditional isIf test inner _ => by
    obtain ⟨tested, rfl, made⟩ := test.madeOf
    obtain ⟨used, rfl, made'⟩ := inner.madeOf
    exact ⟨_ :: (tested ++ used), by simp, .conditional isIf made made'⟩
  | _, _, _, _, .alternative isIf test inner isElse second => by
    obtain ⟨tested, rfl, made⟩ := test.madeOf
    obtain ⟨used, rfl, made'⟩ := inner.madeOf
    obtain ⟨others, rfl, made''⟩ := second.madeOf
    exact ⟨_ :: (tested ++ (used ++ _ :: others)), by simp,
      .alternative isIf made made' isElse made''⟩
  | _, _, _, _, .block isOpen inner isClose => by
    obtain ⟨used, rfl, made⟩ := inner.madeOf
    exact ⟨_ :: (used ++ [_]), by simp, .block isOpen made isClose⟩
  | _, _, _, _, .expression inner => inner.madeOf

theorem Declarations.madeOf : ∀ {implicit : Bool} {tokens rest : List Token} {stmts : List Stmt},
    Declarations implicit tokens stmts rest →
      ∃ used, tokens = used ++ rest ∧ Stmt.ListMadeOf stmts used
  | _, _, _, _, .none => ⟨[], rfl, .none⟩
  | _, _, _, _, .more first second => by
    obtain ⟨used, rfl, made⟩ := first.madeOf
    obtain ⟨others, rfl, made'⟩ := second.madeOf
    exact ⟨used ++ others, by simp, .more made made'⟩

end

theorem Derives.madeOf {implicit : Bool} {tokens : List Token} {program : Program}
    (derived : Derives implicit tokens program) : Stmt.ListMadeOf program.statements tokens := by
  obtain ⟨used, split, made⟩ := Declarations.madeOf derived
  rwa [split, List.append_nil]

end Grammar

end YalSyntax
