import YalSyntax.Proofs.Grammar.Opening
import YalSyntax.Proofs.Grammar.Soundness.Statement
import YalSyntax.Proofs.Grammar.Viability.Expression
import YalSyntax.Proofs.Reader.Statement

namespace YalSyntax

open Grammar Phrase

namespace Grammar

def ParametersEnd : Phrase := fun tokens rest =>
  Phrase.token .rightParen tokens rest ∨
    ∃ comma more, tokens = comma :: more ∧ comma.kind = .comma ∧ Phrase.of MoreParameters more rest

theorem viable_parametersEnd : ParametersEnd.Viable [] :=
  (Viable.token (by decide : Token.Kind.rightParen ≠ .finish)).imp .inl

def GivenValue : Phrase := fun tokens rest =>
  tokens = rest ∨ ∃ sign more, tokens = sign :: more ∧ sign.kind = .equal ∧
    Phrase.of Expression more rest

theorem viable_givenValue : GivenValue.Viable [] := .of_tokens [] nofun fun _ => .inl rfl

theorem InitialValue.of_given {tokens middle rest : List Token} (given : GivenValue tokens middle)
    (ends : Phrase.token .semicolon middle rest) : Phrase.of InitialValue tokens rest := by
  obtain ⟨semicolon, rfl, isEnd⟩ := ends
  rcases given with rfl | ⟨sign, more, rfl, isEqual, value, inner⟩
  · exact ⟨_, .absent isEnd⟩
  · exact ⟨_, .present isEqual inner isEnd⟩

/-- What ends an expression statement: a `;`, or a `}` that is left. -/
def ExpressionEnd : Phrase := fun tokens rest =>
  Phrase.token .semicolon tokens rest ∨ tokens = rest ∧ ∃ next ∈ rest.head?, next.kind = .rightBrace

theorem viable_expressionEnd : ExpressionEnd.Viable [] :=
  (Viable.token (by decide : Token.Kind.semicolon ≠ .finish)).imp .inl

theorem ExpressionStatement.of_end {tokens middle rest : List Token}
    (first : Phrase.of Expression tokens middle) (ends : ExpressionEnd middle rest) :
    Phrase.of (ExpressionStatement true) tokens rest := by
  obtain ⟨value, inner⟩ := first
  obtain ⟨token, more, rfl, -⟩ := inner.starts
  rcases ends with ⟨semicolon, rfl, isEnd⟩ | ⟨rfl, closer, isNext, isClose⟩
  · exact ⟨_, .ended inner isEnd⟩
  · obtain ⟨behind, rfl⟩ := List.head?_eq_some_iff.mp isNext
    rcases value.asReturn_cases with ⟨result, position, rfl⟩ | ⟨plain, -⟩
    · exact ⟨_, .returning inner isClose⟩
    · exact ⟨_, .tail rfl inner isClose plain⟩

def Otherwise : Phrase := fun tokens rest =>
  (tokens = rest ∧ ∀ next ∈ rest.head?, next.kind ≠ .elseWord) ∨
    ∃ other more, tokens = other :: more ∧ other.kind = .elseWord ∧
      Phrase.of (Statement true) more rest

def BlockEnd : Phrase :=
  (Phrase.of (Declarations true)).followedBy (Phrase.token .rightBrace)

theorem viable_blockEnd : BlockEnd.Viable [] :=
  .followedBy (.of_tokens [] nofun fun _ => ⟨[], .none⟩) (.token (by decide))

theorem BlockEnd.more {tokens middle rest : List Token}
    (first : Phrase.of (Declaration true) tokens middle) (others : BlockEnd middle rest) :
    BlockEnd tokens rest := by
  obtain ⟨stmt, first⟩ := first
  obtain ⟨behind, ⟨body, second⟩, closes⟩ := others
  exact ⟨behind, ⟨stmt :: body, .more first second⟩, closes⟩

theorem viable_parameters : (Phrase.of Parameters).Viable [] :=
  (Viable.token (by decide : Token.Kind.rightParen ≠ .finish)).imp
    fun ⟨_, same, isClose⟩ => ⟨[], same ▸ .empty isClose⟩

theorem viable_typeMark : (Phrase.of TypeMark).Viable [] :=
  .of_tokens [] nofun fun _ => ⟨none, .absent⟩

theorem viable_clause {close : Token.Kind} (plain : close ≠ .finish) :
    (Phrase.of (Clause close)).Viable [] :=
  (Viable.token plain).imp fun ⟨_, same, isClose⟩ => ⟨none, same ▸ .absent isClose⟩

theorem viable_firstClause : (Phrase.of (FirstClause true)).Viable [] :=
  (Viable.token (by decide : Token.Kind.semicolon ≠ .finish)).imp
    fun ⟨_, same, isEnd⟩ => ⟨none, same ▸ .absent isEnd⟩

theorem viable_statement : (Phrase.of (Statement true)).Viable [] :=
  (viable_expression.followedBy viable_expressionEnd).imp fun ⟨_, first, ends⟩ =>
    have ⟨stmt, inner⟩ := ExpressionStatement.of_end first ends
    ⟨stmt, .expression inner⟩

theorem viable_otherwise : Otherwise.Viable [] :=
  ((Viable.token (by decide : Token.Kind.elseWord ≠ .finish)).followedBy viable_statement).imp
    fun ⟨_, ⟨other, same, isElse⟩, inner⟩ => .inr ⟨other, _, same, isElse, inner⟩

end Grammar

namespace Reader

theorem typeMark_follows (tokens : List Token) : Follows (Phrase.of TypeMark) typeMark tokens := by
  rw [typeMark_eq]
  refine .takeKind (fun colon rest _ isColon => ?_) fun _ => .done_of fun _ => ⟨none, .absent⟩
  refine (Follows.expect (by decide)).andThen_done.imp ?_
  rintro tokens rest ⟨name, rfl, isName⟩
  exact ⟨_, .present isColon isName⟩

theorem binding_follows (tokens : List Token) : Follows (Phrase.of Bound) binding tokens := by
  rw [binding_eq]
  refine (Follows.andThen (.expect (by decide))
    (fun name rest _ => (typeMark_follows rest).andThen_done) viable_typeMark).imp ?_
  rintro tokens rest ⟨_, ⟨name, rfl, isName⟩, type?, mark⟩
  exact ⟨_, .name isName mark⟩

theorem moreParameters_follows (before : List Binding) (tokens : List Token) :
    Follows (Phrase.of MoreParameters) (moreParameters before) tokens := by
  rw [moreParameters_eq]
  refine (Follows.andThen (binding_follows tokens) (fun parameter rest read => ?_)
    viable_parametersEnd).imp ?_
  · obtain ⟨shorter, -⟩ := Outcome.answer_eq_ok read
    refine .takeKind (fun comma more split isComma => ?_) fun _ => ?_
    · subst split
      exact (moreParameters_follows (parameter :: before) more).imp
        fun inner => .inr ⟨comma, _, rfl, isComma, inner⟩
    · exact (Follows.expect (by decide)).andThen_done.imp .inl
  · rintro tokens rest ⟨_, ⟨parameter, inner⟩, ⟨closer, rfl, isClose⟩ |
      ⟨comma, more, rfl, isComma, parameters, others⟩⟩
    · exact ⟨_, .last inner isClose⟩
    · exact ⟨_, .more inner isComma others⟩
termination_by tokens.length
decreasing_by simp only [List.length_cons] at shorter; omega

theorem parameters_follows (tokens : List Token) :
    Follows (Phrase.of Parameters) parameters tokens := by
  rw [parameters_eq]
  refine .takeKind (fun closer rest _ isClose => .done_of fun _ => ⟨_, .empty isClose⟩) fun _ => ?_
  exact (moreParameters_follows [] tokens).imp fun ⟨_, inner⟩ => ⟨_, .listed inner⟩

theorem initialValue_follows (room : Allowance) (tokens : List Token) :
    Follows GivenValue (initialValue room) tokens := by
  rw [initialValue_eq]
  refine .takeKind (fun sign rest _ isEqual => ?_) fun _ => .done_of fun _ => .inl rfl
  exact (expression_follows room rest).andThen_done.imp
    fun inner => .inr ⟨sign, _, rfl, isEqual, inner⟩

theorem letRest_follows (room : Allowance) {word : Token} (isLet : word.kind = .letWord)
    (position : Position) (tokens : List Token) :
    Follows ((Phrase.of LetDeclaration).after [word]) (letRest room position) tokens := by
  rw [letRest_eq]
  have ends : (Phrase.token .semicolon).Viable [] := .token (by decide)
  refine (Follows.andThen (binding_follows tokens) (fun name rest _ =>
    .andThen (initialValue_follows room rest) (fun value rest _ =>
      (Follows.expect (by decide)).andThen_done) ends) (viable_givenValue.followedBy ends)).imp ?_
  rintro tokens rest ⟨_, ⟨name, bound⟩, middle, given, ends⟩
  obtain ⟨value, initial⟩ := InitialValue.of_given given ends
  exact ⟨_, .declare isLet bound initial⟩

theorem typeRest_follows {word : Token} (isType : word.kind = .typeWord) (position : Position)
    (tokens : List Token) :
    Follows ((Phrase.of (Declaration true)).after [word]) (typeRest position) tokens := by
  rw [typeRest_eq]
  have ends : (Phrase.token .semicolon).Viable [] := .token (by decide)
  have names : ((Phrase.token .identifier).followedBy (.token .semicolon)).Viable [] :=
    .followedBy (.token (by decide)) ends
  have gives : ((Phrase.token .equal).followedBy
      ((Phrase.token .identifier).followedBy (.token .semicolon))).Viable [] :=
    .followedBy (.token (by decide)) names
  refine (Follows.andThen (.expect (by decide)) (fun name rest _ =>
    .andThen (.expect (by decide)) (fun _ rest _ =>
      .andThen (.expect (by decide)) (fun underlying rest _ =>
        (Follows.expect (by decide)).andThen_done) ends) names) gives).imp ?_
  rintro tokens rest ⟨_, ⟨name, rfl, isName⟩, _, ⟨sign, rfl, isEqual⟩, _,
    ⟨underlying, rfl, isUnderlying⟩, semicolon, rfl, isEnd⟩
  exact ⟨_, .typeDef isType isName isEqual isUnderlying isEnd⟩

theorem expressionAt_follows (room : Allowance) (position : Position) (tokens : List Token) :
    Follows (Phrase.of (ExpressionStatement true)) (expressionAt room position) tokens := by
  refine (Follows.andThen (expression_follows room tokens) (fun value rest _ => ?_)
    viable_expressionEnd).imp fun ⟨_, first, ends⟩ => ExpressionStatement.of_end first ends
  refine .branch (fun closes => .done (fun others same => .inr ⟨rfl, ?_⟩) viable_expressionEnd)
    fun _ => (Follows.expect (by decide)).andThen_done.imp .inl
  rw [same]
  obtain ⟨next, isNext, isClose⟩ := Option.map_eq_some_iff.mp (of_decide_eq_true closes)
  exact ⟨next, isNext, isClose⟩

theorem expressionStatement_follows (room : Allowance) (tokens : List Token) :
    Follows (Phrase.of (ExpressionStatement true)) (expressionStatement room) tokens :=
  (expressionAt_follows room _ tokens).congr (expressionStatement_eq room tokens)

theorem condition_follows (room : Allowance) (tokens : List Token) :
    Follows (Phrase.of Condition) (condition room) tokens := by
  rw [condition_eq]
  have ends : (Phrase.token .rightParen).Viable [] := .token (by decide)
  refine (Follows.andThen (.expect (by decide)) (fun _ rest _ =>
    .andThen (expression_follows room rest) (fun value rest _ =>
      (Follows.expect (by decide)).andThen_done) ends) (viable_expression.followedBy ends)).imp ?_
  rintro tokens rest ⟨_, ⟨opener, rfl, isOpen⟩, _, ⟨value, inner⟩, closer, rfl, isClose⟩
  exact ⟨_, .parens isOpen inner isClose⟩

theorem firstClause_follows (room : Allowance) (tokens : List Token) :
    Follows (Phrase.of (FirstClause true)) (firstClause room) tokens := by
  rw [firstClause_eq]
  refine .takeKind (fun semicolon rest _ isEnd => .done_of fun _ => ⟨_, .absent isEnd⟩) fun _ =>
    .takeKind (fun word rest _ isLet => ?_) fun _ => ?_
  · exact (letRest_follows room isLet word.position rest).andThen_done.imp
      fun ⟨_, inner⟩ => ⟨_, .declaration inner⟩
  · exact (expressionStatement_follows room tokens).andThen_done.imp
      fun ⟨_, inner⟩ => ⟨_, .expression inner⟩

theorem clause_follows (room : Allowance) {close : Token.Kind} (plain : close ≠ .finish)
    (tokens : List Token) : Follows (Phrase.of (Clause close)) (clause room close) tokens := by
  rw [clause_eq]
  refine .takeKind (fun closer rest _ isClose => .done_of fun _ => ⟨_, .absent isClose⟩) fun _ => ?_
  refine (Follows.andThen (expression_follows room tokens)
    (fun value rest _ => (Follows.expect plain).andThen_done) (.token plain)).imp ?_
  rintro tokens rest ⟨_, ⟨value, inner⟩, closer, rfl, isClose⟩
  exact ⟨_, .present inner isClose⟩

mutual

theorem declaration_follows (room : Allowance) (tokens : List Token) :
    Follows (Phrase.of (Declaration true)) (declaration room) tokens := by
  rw [declaration_eq]
  refine .takeKind (fun word rest _ isLet => ?_) fun _ => .takeKind (fun word rest _ isType =>
    typeRest_follows isType word.position rest) fun _ => ?_
  · exact (letRest_follows room isLet word.position rest).imp
      fun ⟨_, inner⟩ => ⟨_, .letDeclaration inner⟩
  · exact (statement_follows room tokens).imp fun ⟨_, inner⟩ => ⟨_, .statement inner⟩
termination_by 4 * tokens.length + 1
decreasing_by omega

theorem statement_follows (room : Allowance) (tokens : List Token) :
    Follows (Phrase.of (Statement true)) (statement room) tokens := by
  rw [statement_eq]
  refine .nested fun room => ?_
  refine .takeKind (fun word rest split isFn => functionRest_follows room isFn rest) fun _ => ?_
  refine .takeKind (fun word rest split isFor => forRest_follows room isFor rest) fun _ => ?_
  refine .takeKind (fun word rest split isWhile => whileRest_follows room isWhile rest) fun _ => ?_
  refine .takeKind (fun word rest split isIf => ifRest_follows room isIf rest) fun _ => ?_
  refine .takeKind (fun opener rest split isOpen => ?_) fun _ => ?_
  · refine (blockRest_follows room opener.position [] rest).imp ?_
    rintro tokens rest ⟨_, ⟨body, inner⟩, closer, rfl, isClose⟩
    exact ⟨_, .block isOpen inner isClose⟩
  · exact (expressionStatement_follows room tokens).imp fun ⟨_, inner⟩ => ⟨_, .expression inner⟩
termination_by 4 * tokens.length
decreasing_by all_goals subst_vars; simp only [List.length_cons]; omega

theorem functionRest_follows (room : Allowance) {word : Token} (isFn : word.kind = .fnWord)
    (tokens : List Token) :
    Follows ((Phrase.of (Statement true)).after [word]) (functionRest room word.position) tokens := by
  have returning := viable_typeMark.followedBy viable_statement
  have listing := viable_parameters.followedBy returning
  have opening := (Viable.token (by decide : Token.Kind.leftParen ≠ .finish)).followedBy listing
  refine (Follows.andThen (.expect (by decide)) (fun name second read =>
    .andThen (.expect (by decide)) (fun _ third read' =>
      .andThen (parameters_follows third) (fun names fourth listed =>
        .andThen (typeMark_follows fourth) (fun mark last marked => ?_) viable_statement)
      returning) listing) opening).imp ?_
  · obtain ⟨rfl, -⟩ := expect_eq_ok read
    obtain ⟨rfl, -⟩ := expect_eq_ok read'
    obtain ⟨shorter, -⟩ := Outcome.answer_eq_ok listed
    obtain ⟨within, -⟩ := Outcome.answer_eq_ok marked
    exact (statement_follows room last).andThen_done
  · rintro tokens rest ⟨_, ⟨name, rfl, isName⟩, _, ⟨opener, rfl, isOpen⟩, _, ⟨names, listed⟩, _,
      ⟨returns, mark⟩, body, inner⟩
    exact ⟨_, .function isFn isName isOpen listed mark inner⟩
termination_by 4 * tokens.length + 2
decreasing_by subst_vars; simp only [List.length_cons]; omega

theorem forRest_follows (room : Allowance) {word : Token} (isFor : word.kind = .forWord)
    (tokens : List Token) :
    Follows ((Phrase.of (Statement true)).after [word]) (forRest room word.position) tokens := by
  have stepping := (viable_clause (by decide : Token.Kind.rightParen ≠ .finish)).followedBy
    viable_statement
  have testing := (viable_clause (by decide : Token.Kind.semicolon ≠ .finish)).followedBy stepping
  refine (Follows.andThen (.expect (by decide)) (fun _ second read =>
    .andThen (firstClause_follows room second) (fun _ third first =>
      .andThen (clause_follows room (by decide) third) (fun _ fourth tested =>
        .andThen (clause_follows room (by decide) fourth) (fun _ last stepped => ?_)
          viable_statement) stepping) testing) (viable_firstClause.followedBy testing)).imp ?_
  · obtain ⟨rfl, -⟩ := expect_eq_ok read
    obtain ⟨shorter, -⟩ := Outcome.answer_eq_ok first
    obtain ⟨shorter', -⟩ := Outcome.answer_eq_ok tested
    obtain ⟨within, -⟩ := Outcome.answer_eq_ok stepped
    exact (statement_follows room last).andThen_done
  · rintro tokens rest ⟨_, ⟨opener, rfl, isOpen⟩, _, ⟨_, first⟩, _, ⟨_, next⟩, _, ⟨_, last⟩, body,
      inner⟩
    exact ⟨_, .forLoop isFor isOpen first next last inner⟩
termination_by 4 * tokens.length + 2
decreasing_by subst_vars; simp only [List.length_cons]; omega

theorem whileRest_follows (room : Allowance) {word : Token} (isWhile : word.kind = .whileWord)
    (tokens : List Token) :
    Follows ((Phrase.of (Statement true)).after [word]) (whileRest room word.position) tokens := by
  refine (Follows.andThen (condition_follows room tokens) (fun test rest read => ?_)
    viable_statement).imp ?_
  · obtain ⟨shorter, -⟩ := Outcome.answer_eq_ok read
    exact (statement_follows room rest).andThen_done
  · rintro tokens rest ⟨_, ⟨_, test⟩, body, inner⟩
    exact ⟨_, .whileLoop isWhile test inner⟩
termination_by 4 * tokens.length + 2
decreasing_by omega

theorem ifRest_follows (room : Allowance) {word : Token} (isIf : word.kind = .ifWord)
    (tokens : List Token) :
    Follows ((Phrase.of (Statement true)).after [word]) (ifRest room word.position) tokens := by
  refine (Follows.andThen (condition_follows room tokens) (fun test middle read => ?_)
    (viable_statement.followedBy viable_otherwise)).imp ?_
  · obtain ⟨shorter, -⟩ := Outcome.answer_eq_ok read
    refine .andThen (statement_follows room middle) (fun yes rest read' => ?_) viable_otherwise
    obtain ⟨fewer, -⟩ := Outcome.answer_eq_ok read'
    refine .takeKind (fun other more split isElse => ?_) fun missing => ?_
    · subst split
      exact (statement_follows room more).andThen_done.imp
        fun inner => .inr ⟨other, _, rfl, isElse, inner⟩
    · refine .done (fun others same => .inl ⟨rfl, ?_⟩) viable_otherwise
      rw [same]
      exact missing
  · rintro tokens rest ⟨_, ⟨_, test⟩, _, ⟨yes, inner⟩, ⟨rfl, nearest⟩ |
      ⟨other, more, rfl, isElse, no, second⟩⟩
    · exact ⟨_, .conditional isIf test inner nearest⟩
    · exact ⟨_, .alternative isIf test inner isElse second⟩
termination_by 4 * tokens.length + 2
decreasing_by all_goals subst_vars; (try simp only [List.length_cons] at *); omega

theorem blockRest_follows (room : Allowance) (position : Position) (before : List Stmt)
    (tokens : List Token) : Follows BlockEnd (blockRest room position before) tokens := by
  rw [blockRest_eq]
  refine .takeKind (fun closer rest _ isClose => .done_of fun others => ?_) fun _ =>
    .branch (fun _ => .fail rfl viable_blockEnd) fun _ => ?_
  · exact ⟨closer :: others, ⟨[], .none⟩, closer, rfl, isClose⟩
  · refine (Follows.andThen (declaration_follows room tokens) (fun stmt rest read => ?_)
      viable_blockEnd).imp fun ⟨_, first, others⟩ => BlockEnd.more first others
    obtain ⟨shorter, -⟩ := Outcome.answer_eq_ok read
    exact blockRest_follows room position (stmt :: before) rest
termination_by 4 * tokens.length + 2
decreasing_by all_goals omega

end

theorem declarations_follows (room : Allowance) (before : List Stmt) (tokens : List Token) :
    Follows (Phrase.of (Declarations true)) (declarations room before) tokens := by
  rw [declarations_eq]
  have none : ∀ others, Phrase.of (Declarations true) others others := fun _ => ⟨[], .none⟩
  refine .branch (fun _ => .done_of none) fun _ => ?_
  refine (Follows.andThen (declaration_follows room tokens) (fun stmt rest read => ?_)
    (.of_tokens [] nofun none)).imp ?_
  · obtain ⟨shorter, -⟩ := Outcome.answer_eq_ok read
    exact declarations_follows room (stmt :: before) rest
  · rintro tokens rest ⟨_, ⟨stmt, first⟩, body, others⟩
    exact ⟨_, .more first others⟩
termination_by tokens.length

end Reader

end YalSyntax
