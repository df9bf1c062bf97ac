import YalSyntax.Proofs.Grammar

namespace YalSyntax

namespace Token.Kind

def opensOperand : Kind → Bool
  | identifier | leftParen => true
  | kind => kind.isLiteral

def opensOperation : Kind → Bool
  | bang | minus | increment | decrement => true
  | kind => kind.opensOperand

def opensExpression (kind : Kind) : Bool := kind = returnWord || kind.opensOperation

def opensStatement : Kind → Bool
  | fnWord | forWord | whileWord | ifWord | leftBrace => true
  | kind => kind.opensExpression

def opensDeclaration : Kind → Bool
  | letWord | typeWord => true
  | kind => kind.opensStatement

theorem opensOperation_of_operand {kind : Kind} (opens : kind.opensOperand) :
    kind.opensOperation := by
  cases kind <;> first | rfl | exact opens

theorem unary_of_opensOperand {kind : Kind} (opens : kind.opensOperand) :
    UnaryOp.ofKind? kind = none := by
  cases kind <;> first | rfl | cases opens

theorem opensOperation_of_unary {operator : UnaryOp} {kind : Kind} (same : operator.kind = kind) :
    kind.opensOperation := by
  subst same
  cases operator <;> rfl

theorem opensExpression_of_operation {kind : Kind} (opens : kind.opensOperation) :
    kind.opensExpression := by
  simp [opensExpression, opens]

theorem opensStatement_of_expression {kind : Kind} (opens : kind.opensExpression) :
    kind.opensStatement := by
  cases kind <;> first | rfl | exact opens

theorem opensDeclaration_of_statement {kind : Kind} (opens : kind.opensStatement) :
    kind.opensDeclaration := by
  cases kind <;> first | rfl | exact opens

end Token.Kind

namespace Grammar

/-- The tokens start with one whose kind has a property. -/
def StartsWith (property : Token.Kind → Bool) (tokens : List Token) : Prop :=
  ∃ first more, tokens = first :: more ∧ property first.kind

theorem StartsWith.imp {p q : Token.Kind → Bool} {tokens : List Token} (starts : StartsWith p tokens)
    (imp : ∀ {kind}, p kind → q kind) : StartsWith q tokens := by
  obtain ⟨first, more, same, holds⟩ := starts
  exact ⟨first, more, same, imp holds⟩

theorem Primary.starts {tokens rest : List Token} {value : Expr}
    (derived : Primary tokens value rest) : StartsWith Token.Kind.opensOperand tokens := by
  cases derived with
  | @literal token _ isLiteral =>
    refine ⟨token, _, rfl, ?_⟩
    cases token with | mk kind _ _ => cases kind <;> first | rfl | cases isLiteral
  | ident isName => exact ⟨_, _, rfl, by rw [isName]; rfl⟩
  | call isName _ _ => exact ⟨_, _, rfl, by rw [isName]; rfl⟩
  | grouping isOpen _ _ => exact ⟨_, _, rfl, by rw [isOpen]; rfl⟩

theorem Operand.starts {tokens rest : List Token} {value : Expr}
    (derived : Operand tokens value rest) : StartsWith Token.Kind.opensOperand tokens := by
  cases derived with
  | suffixed isName _ _ => exact ⟨_, _, rfl, by rw [isName]; rfl⟩
  | primary inner => exact inner.starts

theorem Unary.starts {tokens rest : List Token} {value : Expr}
    (derived : Unary tokens value rest) : StartsWith Token.Kind.opensOperation tokens := by
  cases derived with
  | prefixed isSign _ => exact ⟨_, _, rfl, Token.Kind.opensOperation_of_unary isSign⟩
  | operand inner => exact inner.starts.imp Token.Kind.opensOperation_of_operand

theorem Operation.starts : ∀ {strength : Nat} {tokens rest : List Token} {value : Expr},
    Operation strength tokens value rest → StartsWith Token.Kind.opensOperation tokens
  | _, _, _, _, .chain first _ _ _ => first.starts
  | _, _, _, _, .stronger _ inner => inner.starts
  | _, _, _, _, .unary inner => inner.starts

theorem Assignment.starts {tokens rest : List Token} {value : Expr}
    (derived : Assignment tokens value rest) : StartsWith Token.Kind.opensOperation tokens := by
  cases derived with
  | assign isName _ _ => exact ⟨_, _, rfl, by rw [isName]; rfl⟩
  | operation inner => exact inner.starts

theorem Expression.starts {tokens rest : List Token} {value : Expr}
    (derived : Expression tokens value rest) : StartsWith Token.Kind.opensExpression tokens := by
  cases derived with
  | valueless isReturn _ => exact ⟨_, _, rfl, by rw [isReturn]; rfl⟩
  | returned isReturn _ => exact ⟨_, _, rfl, by rw [isReturn]; rfl⟩
  | assignment inner => exact inner.starts.imp Token.Kind.opensExpression_of_operation

theorem MoreArguments.starts {tokens rest : List Token} {values : List Expr}
    (derived : MoreArguments tokens values rest) :
    StartsWith Token.Kind.opensExpression tokens := by
  cases derived with
  | last inner _ => exact inner.starts
  | more inner _ _ => exact inner.starts

theorem Bound.starts {tokens rest : List Token} {name : Binding}
    (derived : Bound tokens name rest) : StartsWith (· = .identifier) tokens := by
  cases derived with
  | name isName _ => exact ⟨_, _, rfl, by simp [isName]⟩

theorem Bound.uninitialized {tokens rest : List Token} {name : Binding}
    (derived : Bound tokens name rest) : name.initializer = none := by
  cases derived with
  | name _ _ => rfl

theorem MoreParameters.uninitialized {tokens rest : List Token} {parameters : List Binding}
    (derived : MoreParameters tokens parameters rest) :
    ∀ parameter ∈ parameters, parameter.initializer = none := by
  induction derived with
  | last inner _ => exact List.forall_mem_singleton.mpr inner.uninitialized
  | more inner _ _ further => exact List.forall_mem_cons.mpr ⟨inner.uninitialized, further⟩

theorem Parameters.uninitialized {tokens rest : List Token} {parameters : List Binding}
    (derived : Parameters tokens parameters rest) :
    ∀ parameter ∈ parameters, parameter.initializer = none := by
  cases derived with
  | empty _ => exact List.forall_mem_nil _
  | listed inner => exact inner.uninitialized

theorem MoreParameters.starts {tokens rest : List Token} {parameters : List Binding}
    (derived : MoreParameters tokens parameters rest) : StartsWith (· = .identifier) tokens := by
  cases derived with
  | last inner _ => exact inner.starts
  | more inner _ _ => exact inner.starts

theorem ExpressionStatement.starts {implicit : Bool} {tokens rest : List Token} {stmt : Stmt}
    (derived : ExpressionStatement implicit tokens stmt rest) :
    StartsWith Token.Kind.opensExpression tokens := by
  cases derived with
  | ended inner _ => exact inner.starts
  | returning inner _ => exact inner.starts
  | tail _ inner _ _ => exact inner.starts

theorem Statement.starts {implicit : Bool} {tokens rest : List Token} {stmt : Stmt}
    (derived : Statement implicit tokens stmt rest) :
    StartsWith Token.Kind.opensStatement tokens := by
  cases derived with
  | function isFn _ _ _ _ _ => exact ⟨_, _, rfl, by rw [isFn]; rfl⟩
  | forLoop isFor _ _ _ _ _ => exact ⟨_, _, rfl, by rw [isFor]; rfl⟩
  | whileLoop isWhile _ _ => exact ⟨_, _, rfl, by rw [isWhile]; rfl⟩
  | conditional isIf _ _ _ => exact ⟨_, _, rfl, by rw [isIf]; rfl⟩
  | alternative isIf _ _ _ _ => exact ⟨_, _, rfl, by rw [isIf]; rfl⟩
  | block isOpen _ _ => exact ⟨_, _, rfl, by rw [isOpen]; rfl⟩
  | expression inner => exact inner.starts.imp Token.Kind.opensStatement_of_expression

theorem Declaration.starts {implicit : Bool} {tokens rest : List Token} {stmt : Stmt}
    (derived : Declaration implicit tokens stmt rest) :
    StartsWith Token.Kind.opensDeclaration tokens := by
  cases derived with
  | letDeclaration inner =>
    cases inner with
    | declare isLet _ _ => exact ⟨_, _, rfl, by rw [isLet]; rfl⟩
  | typeDef isType _ _ _ _ => exact ⟨_, _, rfl, by rw [isType]; rfl⟩
  | statement inner => exact inner.starts.imp Token.Kind.opensDeclaration_of_statement

end Grammar

end YalSyntax
