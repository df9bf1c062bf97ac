import YalSyntax.Proofs.Rendering
import YalSyntax.Proofs.Grammar.Opening

namespace YalSyntax

open Grammar Lexical

def Lexemes (words : List (Token.Kind × String)) : Prop :=
  ∀ word ∈ words, IsLexeme word.1 word.2.toList

namespace Lexemes

@[simp] theorem nil_iff : Lexemes [] ↔ True := by simp [Lexemes]

@[simp] theorem cons_iff {kind : Token.Kind} {text : String} {words : List (Token.Kind × String)} :
    Lexemes ((kind, text) :: words) ↔ IsLexeme kind text.toList ∧ Lexemes words := by
  simp [Lexemes]

@[simp] theorem append_iff {first second : List (Token.Kind × String)} :
    Lexemes (first ++ second) ↔ Lexemes first ∧ Lexemes second :=
  List.forall_mem_append

theorem single {kind : Token.Kind} {text : String} (is : IsLexeme kind text.toList) :
    Lexemes [(kind, text)] := cons_iff.mpr ⟨is, nil_iff.mpr trivial⟩

end Lexemes

/-- The texts of the tokens are lexemes of their kinds. -/
def Scanned (tokens : List Token) : Prop := Lexemes (tokens.map Token.spelled)

@[simp] theorem scanned_cons_iff {token : Token} {tokens : List Token} :
    Scanned (token :: tokens) ↔ IsLexeme token.kind token.text.toList ∧ Scanned tokens := by
  simp [Scanned, Lexemes, Token.spelled]

theorem isLexeme_of_sign {kind : Token.Kind} {text : String} (spelled : kind.sign? = some text) :
    IsLexeme kind text.toList := .sign spelled

theorem isLexeme_of_keyword {kind : Token.Kind} {text : String}
    (reserved : Token.Kind.keyword? text = some kind) : IsLexeme kind text.toList := by
  have word : ∀ {first : Char} {more : List Char}, Token.Kind.keyword? text = some kind →
      text = String.ofList (first :: more) → isWordStart first → (∀ c ∈ more, isWordChar c) →
      IsLexeme kind text.toList := by
    intro first more reserved same starts continues
    subst same
    have is := IsLexeme.word starts continues
    rw [Token.Kind.ofWord, reserved] at is
    rwa [String.toList_ofList]
  unfold Token.Kind.keyword? at reserved
  split at reserved <;> first | (cases reserved; done) | skip
  all_goals exact word (by rw [← reserved]; rfl) rfl (by decide) (List.all_eq_true.mp rfl)

theorem isLexeme_of_kind {token : Token} {kind : Token.Kind} (isKind : token.kind = kind)
    (is : IsLexeme token.kind token.text.toList) : IsLexeme kind token.text.toList :=
  isKind ▸ is

theorem listed_lexemes {items : List (List (Token.Kind × String))}
    (lexemes : ∀ item ∈ items, Lexemes item) : Lexemes (listed items) := by
  have closer : Lexemes [(.rightParen, ")")] := .single (isLexeme_of_sign rfl)
  fun_induction listed items with
  | case1 => exact closer
  | case2 item => exact Lexemes.append_iff.mpr ⟨lexemes item (by simp), closer⟩
  | case3 item others some further =>
    have behind := further fun item member => lexemes item (by simp [member])
    rw [Lexemes.append_iff, Lexemes.cons_iff]
    exact ⟨lexemes item (by simp), isLexeme_of_sign rfl, behind⟩

theorem BinaryOp.isLexeme (operator : BinaryOp) :
    IsLexeme operator.kind operator.symbol.toList := by
  cases operator <;> exact isLexeme_of_sign rfl

theorem LogicalOp.isLexeme (operator : LogicalOp) :
    IsLexeme operator.kind operator.symbol.toList := by
  cases operator <;> exact isLexeme_of_sign rfl

theorem UnaryOp.isLexeme (operator : UnaryOp) :
    IsLexeme operator.kind operator.symbol.toList := by
  cases operator <;> exact isLexeme_of_sign rfl

theorem operation_lexemes {left right : Expr} (operator : Operator) (position : Position)
    (first : Lexemes left.written) (second : Lexemes right.written) :
    Lexemes (Expr.operation operator left right position).written := by
  cases operator with
  | binary operator =>
    rw [Expr.operation, Expr.written, Lexemes.append_iff, Lexemes.cons_iff]
    exact ⟨first, operator.isLexeme, second⟩
  | logical operator =>
    rw [Expr.operation, Expr.written, Lexemes.append_iff, Lexemes.cons_iff]
    exact ⟨first, operator.isLexeme, second⟩

mutual

theorem expression_lexemes : ∀ {tokens rest : List Token} {value : Expr},
    Expression tokens value rest → Scanned tokens → Lexemes value.written ∧ Scanned rest
  | _, _, _, .valueless isReturn _, scanned => by
    obtain ⟨word, others⟩ := scanned_cons_iff.mp scanned
    exact ⟨Lexemes.cons_iff.mpr ⟨isLexeme_of_keyword rfl, by simp [Expr.writtenOption]⟩, others⟩
  | _, _, _, .returned isReturn inner, scanned => by
    obtain ⟨word, others⟩ := scanned_cons_iff.mp scanned
    obtain ⟨lexemes, behind⟩ := expression_lexemes inner others
    exact ⟨Lexemes.cons_iff.mpr ⟨isLexeme_of_keyword rfl, lexemes⟩, behind⟩
  | _, _, _, .assignment inner, scanned => assignment_lexemes inner scanned

theorem assignment_lexemes : ∀ {tokens rest : List Token} {value : Expr},
    Assignment tokens value rest → Scanned tokens → Lexemes value.written ∧ Scanned rest
  | _, _, _, .assign isName _ inner, scanned => by
    obtain ⟨name, sign, others⟩ : _ ∧ _ ∧ _ := by simpa using scanned
    obtain ⟨lexemes, behind⟩ := assignment_lexemes inner others
    refine ⟨?_, behind⟩
    rw [Expr.written, Lexemes.cons_iff, Lexemes.cons_iff]
    exact ⟨isLexeme_of_kind isName name, isLexeme_of_sign rfl, lexemes⟩
  | _, _, _, .operation inner, scanned => operation_lexemes_of inner scanned

theorem operation_lexemes_of : ∀ {strength : Nat} {tokens rest : List Token} {value : Expr},
    Operation strength tokens value rest → Scanned tokens →
      Lexemes value.written ∧ Scanned rest
  | _, _, _, _, .chain first _ _ second, scanned => by
    obtain ⟨lexemes, middle⟩ := operation_lexemes_of first scanned
    obtain ⟨lexemes', behind⟩ := operation_lexemes_of second (scanned_cons_iff.mp middle).2
    exact ⟨operation_lexemes _ _ lexemes lexemes', behind⟩
  | _, _, _, _, .stronger _ inner, scanned => operation_lexemes_of inner scanned
  | _, _, _, _, .unary inner, scanned => unary_lexemes inner scanned

theorem unary_lexemes : ∀ {tokens rest : List Token} {value : Expr},
    Unary tokens value rest → Scanned tokens → Lexemes value.written ∧ Scanned rest
  | _, _, _, .prefixed _ inner, scanned => by
    obtain ⟨lexemes, behind⟩ := unary_lexemes inner (scanned_cons_iff.mp scanned).2
    exact ⟨Lexemes.cons_iff.mpr ⟨UnaryOp.isLexeme _, lexemes⟩, behind⟩
  | _, _, _, .operand inner, scanned => operand_lexemes inner scanned

theorem operand_lexemes : ∀ {tokens rest : List Token} {value : Expr},
    Operand tokens value rest → Scanned tokens → Lexemes value.written ∧ Scanned rest
  | _, _, _, .suffixed isName _ _, scanned => by
    obtain ⟨name, sign, others⟩ : _ ∧ _ ∧ _ := by simpa using scanned
    refine ⟨?_, others⟩
    rw [Expr.written, Expr.written, List.singleton_append, Lexemes.cons_iff, Lexemes.cons_iff]
    exact ⟨isLexeme_of_kind isName name, UnaryOp.isLexeme _, by simp⟩
  | _, _, _, .primary inner, scanned => primary_lexemes inner scanned

theorem primary_lexemes : ∀ {tokens rest : List Token} {value : Expr},
    Primary tokens value rest → Scanned tokens → Lexemes value.written ∧ Scanned rest
  | _, _, _, .literal _, scanned => by
    obtain ⟨literal, others⟩ := scanned_cons_iff.mp scanned
    exact ⟨Lexemes.cons_iff.mpr ⟨literal, by simp⟩, others⟩
  | _, _, _, .ident isName, scanned => by
    obtain ⟨name, others⟩ := scanned_cons_iff.mp scanned
    exact ⟨Lexemes.cons_iff.mpr ⟨isLexeme_of_kind isName name, by simp⟩, others⟩
  | _, _, _, .call isName _ inner, scanned => by
    obtain ⟨name, opener, others⟩ : _ ∧ _ ∧ _ := by simpa using scanned
    obtain ⟨lexemes, behind⟩ := arguments_lexemes inner others
    refine ⟨?_, behind⟩
    rw [Expr.written, Lexemes.cons_iff, Lexemes.cons_iff]
    exact ⟨isLexeme_of_kind isName name, isLexeme_of_sign rfl, listed_lexemes lexemes⟩
  | _, _, _, .grouping _ inner _, scanned => by
    obtain ⟨lexemes, behind⟩ := expression_lexemes inner (scanned_cons_iff.mp scanned).2
    refine ⟨?_, (scanned_cons_iff.mp behind).2⟩
    rw [Expr.written, Lexemes.cons_iff, Lexemes.append_iff, Lexemes.cons_iff]
    exact ⟨isLexeme_of_sign rfl, lexemes, isLexeme_of_sign rfl, by simp⟩

theorem arguments_lexemes : ∀ {tokens rest : List Token} {values : List Expr},
    Arguments tokens values rest → Scanned tokens →
      (∀ item ∈ Expr.writtenEach values, Lexemes item) ∧ Scanned rest
  | _, _, _, .empty _, scanned => ⟨by simp [Expr.writtenEach], (scanned_cons_iff.mp scanned).2⟩
  | _, _, _, .listed inner, scanned => moreArguments_lexemes inner scanned

theorem moreArguments_lexemes : ∀ {tokens rest : List Token} {values : List Expr},
    MoreArguments tokens values rest → Scanned tokens →
      (∀ item ∈ Expr.writtenEach values, Lexemes item) ∧ Scanned rest
  | _, _, _, .last inner _, scanned => by
    obtain ⟨lexemes, behind⟩ := expression_lexemes inner scanned
    exact ⟨by simpa [Expr.writtenEach] using lexemes, (scanned_cons_iff.mp behind).2⟩
  | _, _, _, .more inner _ others, scanned => by
    obtain ⟨lexemes, middle⟩ := expression_lexemes inner scanned
    obtain ⟨lexemes', behind⟩ := moreArguments_lexemes others (scanned_cons_iff.mp middle).2
    refine ⟨?_, behind⟩
    rw [Expr.writtenEach]
    exact List.forall_mem_cons.mpr ⟨lexemes, lexemes'⟩

end

theorem typeMark_lexemes {tokens rest : List Token} {type? : Option String}
    (derived : TypeMark tokens type? rest) (scanned : Scanned tokens) :
    Lexemes (writtenType type?) ∧ Scanned rest := by
  cases derived with
  | absent => exact ⟨Lexemes.nil_iff.mpr trivial, scanned⟩
  | present isColon isName =>
    obtain ⟨colon, name, others⟩ : _ ∧ _ ∧ _ := by simpa using scanned
    exact ⟨Lexemes.cons_iff.mpr ⟨isLexeme_of_sign rfl, .single (isLexeme_of_kind isName name)⟩,
      others⟩

theorem bound_lexemes {tokens rest : List Token} {name : Binding}
    (derived : Bound tokens name rest) (scanned : Scanned tokens) :
    Lexemes name.written ∧ Scanned rest := by
  cases derived with
  | name isName mark =>
    obtain ⟨name, others⟩ := scanned_cons_iff.mp scanned
    obtain ⟨lexemes, behind⟩ := typeMark_lexemes mark others
    rw [Binding.written, writtenInitial, List.append_nil]
    exact ⟨Lexemes.cons_iff.mpr ⟨isLexeme_of_kind isName name, lexemes⟩, behind⟩

theorem moreParameters_lexemes {tokens rest : List Token} {parameters : List Binding}
    (derived : MoreParameters tokens parameters rest) (scanned : Scanned tokens) :
    (∀ parameter ∈ parameters, Lexemes parameter.written) ∧ Scanned rest := by
  induction derived with
  | last inner _ =>
    obtain ⟨lexemes, behind⟩ := bound_lexemes inner scanned
    exact ⟨by simpa using lexemes, (scanned_cons_iff.mp behind).2⟩
  | more inner _ _ further =>
    obtain ⟨lexemes, middle⟩ := bound_lexemes inner scanned
    obtain ⟨lexemes', behind⟩ := further (scanned_cons_iff.mp middle).2
    exact ⟨List.forall_mem_cons.mpr ⟨lexemes, lexemes'⟩, behind⟩

theorem parameters_lexemes {tokens rest : List Token} {parameters : List Binding}
    (derived : Parameters tokens parameters rest) (scanned : Scanned tokens) :
    Lexemes (listed (parameters.map Binding.written)) ∧ Scanned rest := by
  cases derived with
  | empty _ => exact ⟨listed_lexemes (by simp), (scanned_cons_iff.mp scanned).2⟩
  | listed inner =>
    obtain ⟨lexemes, behind⟩ := moreParameters_lexemes inner scanned
    exact ⟨listed_lexemes (List.forall_mem_map.mpr lexemes), behind⟩

theorem initialValue_lexemes {tokens rest : List Token} {value : Option Expr}
    (derived : InitialValue tokens value rest) (scanned : Scanned tokens) :
    Lexemes (writtenInitial value) ∧ Scanned rest := by
  cases derived with
  | absent _ => exact ⟨Lexemes.nil_iff.mpr trivial, (scanned_cons_iff.mp scanned).2⟩
  | present _ inner _ =>
    obtain ⟨lexemes, behind⟩ := expression_lexemes inner (scanned_cons_iff.mp scanned).2
    exact ⟨Lexemes.cons_iff.mpr ⟨isLexeme_of_sign rfl, lexemes⟩, (scanned_cons_iff.mp behind).2⟩

theorem letDeclaration_lexemes {tokens rest : List Token} {stmt : Stmt}
    (derived : LetDeclaration tokens stmt rest) (scanned : Scanned tokens) :
    Lexemes stmt.written ∧ Scanned rest := by
  cases derived with
  | declare _ bound initial =>
    obtain ⟨lexemes, middle⟩ := bound_lexemes bound (scanned_cons_iff.mp scanned).2
    obtain ⟨lexemes', behind⟩ := initialValue_lexemes initial middle
    refine ⟨?_, behind⟩
    rw [Stmt.written, Binding.written_initialized bound.uninitialized, Lexemes.cons_iff,
      Lexemes.append_iff, Lexemes.append_iff]
    exact ⟨isLexeme_of_keyword rfl, ⟨lexemes, lexemes'⟩, .single (isLexeme_of_sign rfl)⟩

theorem expressionStatement_lexemes {implicit : Bool} {tokens rest : List Token} {stmt : Stmt}
    (derived : ExpressionStatement implicit tokens stmt rest) (scanned : Scanned tokens) :
    Lexemes stmt.written ∧ Scanned rest := by
  have ended : ∀ {value : Expr} {position : Position}, Lexemes value.written →
      Lexemes (Stmt.expression value position).written := by
    intro value position lexemes
    rw [Stmt.written, Lexemes.append_iff]
    exact ⟨lexemes, .single (isLexeme_of_sign rfl)⟩
  cases derived with
  | ended inner _ =>
    obtain ⟨lexemes, behind⟩ := expression_lexemes inner scanned
    exact ⟨ended lexemes, (scanned_cons_iff.mp behind).2⟩
  | returning inner _ =>
    obtain ⟨lexemes, behind⟩ := expression_lexemes inner scanned
    exact ⟨ended lexemes, behind⟩
  | tail _ inner _ _ =>
    obtain ⟨lexemes, behind⟩ := expression_lexemes inner scanned
    exact ⟨ended (Lexemes.cons_iff.mpr ⟨isLexeme_of_keyword rfl, lexemes⟩), behind⟩

theorem firstClause_lexemes {implicit : Bool} {tokens rest : List Token} {stmt : Option Stmt}
    (derived : FirstClause implicit tokens stmt rest) (scanned : Scanned tokens) :
    Lexemes (Stmt.writtenFirst stmt) ∧ Scanned rest := by
  cases derived with
  | absent _ => exact ⟨.single (isLexeme_of_sign rfl), (scanned_cons_iff.mp scanned).2⟩
  | declaration inner => exact letDeclaration_lexemes inner scanned
  | expression inner => exact expressionStatement_lexemes inner scanned

theorem clause_lexemes {close : Token.Kind} {tokens rest : List Token} {value : Option Expr}
    (derived : Clause close tokens value rest) (scanned : Scanned tokens) :
    Lexemes (Expr.writtenOption value) ∧ Scanned rest := by
  cases derived with
  | absent _ => exact ⟨Lexemes.nil_iff.mpr trivial, (scanned_cons_iff.mp scanned).2⟩
  | present inner _ =>
    obtain ⟨lexemes, behind⟩ := expression_lexemes inner scanned
    exact ⟨lexemes, (scanned_cons_iff.mp behind).2⟩

theorem condition_lexemes {tokens rest : List Token} {value : Expr}
    (derived : Condition tokens value rest) (scanned : Scanned tokens) :
    Lexemes (writtenCondition value) ∧ Scanned rest := by
  cases derived with
  | parens _ inner _ =>
    obtain ⟨lexemes, behind⟩ := expression_lexemes inner (scanned_cons_iff.mp scanned).2
    refine ⟨?_, (scanned_cons_iff.mp behind).2⟩
    rw [writtenCondition, Lexemes.cons_iff, Lexemes.append_iff]
    exact ⟨isLexeme_of_sign rfl, lexemes, .single (isLexeme_of_sign rfl)⟩

mutual

theorem declaration_lexemes : ∀ {implicit : Bool} {tokens rest : List Token} {stmt : Stmt},
    Declaration implicit tokens stmt rest → Scanned tokens → Lexemes stmt.written ∧ Scanned rest
  | _, _, _, _, .letDeclaration inner, scanned => letDeclaration_lexemes inner scanned
  | _, _, _, _, .typeDef _ isName _ isUnderlying _, scanned => by
    obtain ⟨word, name, sign, underlying, semicolon, others⟩ : _ ∧ _ ∧ _ ∧ _ ∧ _ ∧ _ := by
      simpa using scanned
    refine ⟨?_, others⟩
    rw [Stmt.written, Lexemes.cons_iff, Lexemes.cons_iff, Lexemes.cons_iff, Lexemes.cons_iff]
    exact ⟨isLexeme_of_keyword rfl, isLexeme_of_kind isName name, isLexeme_of_sign rfl,
      isLexeme_of_kind isUnderlying underlying, .single (isLexeme_of_sign rfl)⟩
  | _, _, _, _, .statement inner, scanned => statement_lexemes inner scanned

theorem statement_lexemes : ∀ {implicit : Bool} {tokens rest : List Token} {stmt : Stmt},
    Statement implicit tokens stmt rest → Scanned tokens → Lexemes stmt.written ∧ Scanned rest
  | _, _, _, _, .function _ isName _ listed mark inner, scanned => by
    obtain ⟨word, name, opener, others⟩ : _ ∧ _ ∧ _ ∧ _ := by simpa using scanned
    obtain ⟨lexemes, middle⟩ := parameters_lexemes listed others
    obtain ⟨lexemes', middle⟩ := typeMark_lexemes mark middle
    obtain ⟨lexemes'', behind⟩ := statement_lexemes inner middle
    refine ⟨?_, behind⟩
    rw [Stmt.written, Lexemes.cons_iff, Lexemes.cons_iff, Lexemes.cons_iff, Lexemes.append_iff,
      Lexemes.append_iff]
    exact ⟨isLexeme_of_keyword rfl, isLexeme_of_kind isName name, isLexeme_of_sign rfl, lexemes,
      lexemes', lexemes''⟩
  | _, _, _, _, .forLoop _ _ first next last inner, scanned => by
    obtain ⟨word, opener, others⟩ : _ ∧ _ ∧ _ := by simpa using scanned
    obtain ⟨firstLexemes, middle⟩ := firstClause_lexemes first others
    obtain ⟨nextLexemes, middle⟩ := clause_lexemes next middle
    obtain ⟨lastLexemes, middle⟩ := clause_lexemes last middle
    obtain ⟨lexemes, behind⟩ := statement_lexemes inner middle
    refine ⟨?_, behind⟩
    rw [Stmt.written, Lexemes.cons_iff, Lexemes.cons_iff, Lexemes.append_iff, Lexemes.append_iff,
      Lexemes.cons_iff, Lexemes.append_iff, Lexemes.cons_iff]
    exact ⟨isLexeme_of_keyword rfl, isLexeme_of_sign rfl, firstLexemes, nextLexemes,
      isLexeme_of_sign rfl, lastLexemes, isLexeme_of_sign rfl, lexemes⟩
  | _, _, _, _, .whileLoop _ test inner, scanned => by
    obtain ⟨lexemes, middle⟩ := condition_lexemes test (scanned_cons_iff.mp scanned).2
    obtain ⟨lexemes', behind⟩ := statement_lexemes inner middle
    refine ⟨?_, behind⟩
    rw [Stmt.written, Lexemes.cons_iff, Lexemes.append_iff]
    exact ⟨isLexeme_of_keyword rfl, lexemes, lexemes'⟩
  | _, _, _, _, .conditional _ test inner _, scanned => by
    obtain ⟨lexemes, middle⟩ := condition_lexemes test (scanned_cons_iff.mp scanned).2
    obtain ⟨lexemes', behind⟩ := statement_lexemes inner middle
    refine ⟨?_, behind⟩
    rw [Stmt.written, Lexemes.cons_iff, Lexemes.append_iff, Lexemes.append_iff]
    exact ⟨isLexeme_of_keyword rfl, lexemes, lexemes', Lexemes.nil_iff.mpr trivial⟩
  | _, _, _, _, .alternative _ test inner _ second, scanned => by
    obtain ⟨lexemes, middle⟩ := condition_lexemes test (scanned_cons_iff.mp scanned).2
    obtain ⟨lexemes', middle⟩ := statement_lexemes inner middle
    obtain ⟨lexemes'', behind⟩ := statement_lexemes second (scanned_cons_iff.mp middle).2
    refine ⟨?_, behind⟩
    rw [Stmt.written, Lexemes.cons_iff, Lexemes.append_iff, Lexemes.append_iff]
    exact ⟨isLexeme_of_keyword rfl, lexemes, lexemes',
      Lexemes.cons_iff.mpr ⟨isLexeme_of_keyword rfl, lexemes''⟩⟩
  | _, _, _, _, .block _ inner _, scanned => by
    obtain ⟨lexemes, behind⟩ := declarations_lexemes inner (scanned_cons_iff.mp scanned).2
    refine ⟨?_, (scanned_cons_iff.mp behind).2⟩
    rw [Stmt.written, Lexemes.cons_iff, Lexemes.append_iff]
    exact ⟨isLexeme_of_sign rfl, lexemes, .single (isLexeme_of_sign rfl)⟩
  | _, _, _, _, .expression inner, scanned => expressionStatement_lexemes inner scanned

theorem declarations_lexemes : ∀ {implicit : Bool} {tokens rest : List Token} {stmts : List Stmt},
    Declarations implicit tokens stmts rest → Scanned tokens →
      Lexemes (Stmt.writtenList stmts) ∧ Scanned rest
  | _, _, _, _, .none, scanned => ⟨Lexemes.nil_iff.mpr trivial, scanned⟩
  | _, _, _, _, .more first second, scanned => by
    obtain ⟨lexemes, middle⟩ := declaration_lexemes first scanned
    obtain ⟨lexemes', behind⟩ := declarations_lexemes second middle
    exact ⟨Lexemes.append_iff.mpr ⟨lexemes, lexemes'⟩, behind⟩

end

end YalSyntax
