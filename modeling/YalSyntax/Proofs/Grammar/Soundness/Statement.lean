import YalSyntax.Proofs.Grammar.Soundness.Expression

namespace YalSyntax

theorem Expr.asReturn_cases (value : Expr) :
    (∃ result position, value = .returned result position) ∨
      (∀ result position, value ≠ .returned result position) ∧
        value.asReturn = .returned (some value) value.position := by
  cases value with
  | returned result position => exact .inl ⟨result, position, rfl⟩
  | _ => exact .inr ⟨(fun _ _ same => nomatch same), rfl⟩

theorem Expr.asReturn_of_ne {value : Expr}
    (plain : ∀ result position, value ≠ .returned result position) :
    value.asReturn = .returned (some value) value.position := by
  rcases value.asReturn_cases with ⟨result, position, returned⟩ | ⟨-, wrapped⟩
  · exact absurd returned (plain result position)
  · exact wrapped

namespace Reading

open Grammar Nesting

theorem typeMark_sound {tokens rest : List Token} {type? : Option String}
    {shorter : rest.length < tokens.length + 1}
    (read : typeMark tokens = .ok type? rest shorter) : TypeMark tokens type? rest := by
  unfold typeMark at read
  split at read
  · cases read
    exact .absent
  · rename_i skipped
    obtain ⟨colon, rfl, isColon⟩ := skip?_eq_some skipped
    obtain ⟨name, middle, within, found, read⟩ := Outcome.andThen_eq_ok read
    obtain ⟨rfl, isName⟩ := expect_eq_ok found
    cases read
    exact .present isColon isName

theorem binding_sound {tokens rest : List Token} {name : Binding}
    {shorter : rest.length < tokens.length} (read : binding tokens = .ok name rest shorter) :
    Bound tokens name rest := by
  unfold binding at read
  obtain ⟨token, middle, within, found, read⟩ := Outcome.andThen_eq_ok read
  obtain ⟨rfl, isName⟩ := expect_eq_ok found
  obtain ⟨type?, last, within, marked, read⟩ := Outcome.andThen_eq_ok read
  cases read
  exact .name isName (typeMark_sound marked)

theorem moreParameters_sound {bound : Nat} (before : List Binding) (tokens : List Token)
    (within : tokens.length ≤ bound) {parameters : List Binding} {rest : List Token}
    {shorter : rest.length < bound}
    (read : moreParameters before tokens within = .ok parameters rest shorter) :
    ∃ others, parameters = before.reverse ++ others ∧ MoreParameters tokens others rest := by
  rw [moreParameters] at read
  obtain ⟨parameter, middle, fewer, found, read⟩ := Outcome.andThen_eq_ok read
  have inner := binding_sound found
  split at read
  · rename_i behind fewest skipped
    obtain ⟨comma, rfl, isComma⟩ := skip?_eq_some skipped
    have fewer' : behind.length + 1 < tokens.length := fewer
    obtain ⟨others, rfl, derived⟩ := moreParameters_sound _ behind _ read
    exact ⟨parameter :: others, by simp, .more inner isComma derived⟩
  · obtain ⟨closer, last, _, closed, read⟩ := Outcome.andThen_eq_ok read
    obtain ⟨rfl, isClose⟩ := expect_eq_ok closed
    cases read
    exact ⟨[parameter], by simp, .last inner isClose⟩
termination_by tokens.length
decreasing_by omega

theorem parameters_sound {tokens rest : List Token} {names : List Binding}
    {shorter : rest.length < tokens.length} (read : parameters tokens = .ok names rest shorter) :
    Parameters tokens names rest := by
  unfold parameters at read
  split at read
  · rename_i skipped
    obtain ⟨closer, rfl, isClose⟩ := skip?_eq_some skipped
    cases read
    exact .empty isClose
  · obtain ⟨others, same, inner⟩ := moreParameters_sound [] tokens _ read
    subst same
    exact .listed inner

theorem initialValue_sound {room : Allowance} {tokens middle rest : List Token}
    {value : Option Expr} {semicolon : Token} {shorter : middle.length < tokens.length + 1}
    {within : rest.length < middle.length}
    (read : initialValue room tokens = .ok value middle shorter)
    (ended : expect .semicolon middle = .ok semicolon rest within) :
    InitialValue tokens value rest := by
  obtain ⟨rfl, isEnd⟩ := expect_eq_ok ended
  unfold initialValue at read
  simp only [andThen_room, level_room] at read
  split at read
  · cases read
    exact .absent isEnd
  · rename_i skipped
    obtain ⟨sign, rfl, isEqual⟩ := skip?_eq_some skipped
    obtain ⟨result, last, within, found, read⟩ := Outcome.andThen_eq_ok read
    cases read
    exact .present isEqual (expression_sound room _ found) isEnd

theorem letRest_sound {room : Allowance} {word : Token} {tokens rest : List Token} {stmt : Stmt}
    {shorter : rest.length < tokens.length} (isLet : word.kind = .letWord)
    (read : letRest room word.position tokens = .ok stmt rest shorter) :
    LetDeclaration (word :: tokens) stmt rest := by
  unfold letRest at read
  simp only [andThen_room, level_room] at read
  obtain ⟨name, middle, within, bound, read⟩ := Outcome.andThen_eq_ok read
  obtain ⟨initializer, last, within, found, read⟩ := Outcome.andThen_eq_ok read
  obtain ⟨semicolon, behind, within, ended, read⟩ := Outcome.andThen_eq_ok read
  cases read
  exact .declare isLet (binding_sound bound) (initialValue_sound found ended)

theorem typeRest_sound {implicit : Bool} {word : Token} {tokens rest : List Token} {stmt : Stmt}
    {shorter : rest.length < tokens.length} (isType : word.kind = .typeWord)
    (read : typeRest word.position tokens = .ok stmt rest shorter) :
    Declaration implicit (word :: tokens) stmt rest := by
  unfold typeRest at read
  obtain ⟨name, second, within, named, read⟩ := Outcome.andThen_eq_ok read
  obtain ⟨rfl, isName⟩ := expect_eq_ok named
  obtain ⟨sign, third, within, signed, read⟩ := Outcome.andThen_eq_ok read
  obtain ⟨rfl, isEqual⟩ := expect_eq_ok signed
  obtain ⟨underlying, fourth, within, found, read⟩ := Outcome.andThen_eq_ok read
  obtain ⟨rfl, isUnderlying⟩ := expect_eq_ok found
  obtain ⟨semicolon, last, within, ended, read⟩ := Outcome.andThen_eq_ok read
  obtain ⟨rfl, isEnd⟩ := expect_eq_ok ended
  cases read
  exact .typeDef isType isName isEqual isUnderlying isEnd

theorem expressionStatement_sound {room : Allowance} {tokens rest : List Token} {stmt : Stmt}
    {shorter : rest.length < tokens.length}
    (read : expressionStatement room tokens = .ok stmt rest shorter) :
    ExpressionStatement true tokens stmt rest := by
  unfold expressionStatement at read
  simp only [andThen_room, level_room] at read
  obtain ⟨value, middle, within, found, read⟩ := Outcome.andThen_eq_ok read
  have inner := expression_sound room tokens found
  cases tokens with
  | nil => exact absurd within (Nat.not_lt_zero _)
  | cons first more =>
    split at read
    · rename_i closes
      obtain ⟨closer, behind, rfl, isClose⟩ := nextIs_eq_true_iff.mp closes
      cases read
      rcases value.asReturn_cases with ⟨result, position, rfl⟩ | ⟨plain, same⟩
      · exact .returning inner isClose
      · rw [same]
        exact .tail rfl inner isClose plain
    · obtain ⟨semicolon, last, within, ended, read⟩ := Outcome.andThen_eq_ok read
      obtain ⟨rfl, isEnd⟩ := expect_eq_ok ended
      cases read
      exact .ended inner isEnd

theorem condition_sound {room : Allowance} {tokens rest : List Token} {value : Expr}
    {shorter : rest.length < tokens.length}
    (read : condition room tokens = .ok value rest shorter) : Condition tokens value rest := by
  unfold condition at read
  simp only [andThen_room, level_room] at read
  obtain ⟨opener, second, within, opened, read⟩ := Outcome.andThen_eq_ok read
  obtain ⟨rfl, isOpen⟩ := expect_eq_ok opened
  obtain ⟨result, third, within, found, read⟩ := Outcome.andThen_eq_ok read
  obtain ⟨closer, last, within, closed, read⟩ := Outcome.andThen_eq_ok read
  obtain ⟨rfl, isClose⟩ := expect_eq_ok closed
  cases read
  exact .parens isOpen (expression_sound room _ found) isClose

theorem firstClause_sound {room : Allowance} {tokens rest : List Token} {first : Option Stmt}
    {shorter : rest.length < tokens.length}
    (read : firstClause room tokens = .ok first rest shorter) : FirstClause true tokens first rest := by
  unfold firstClause at read
  simp only [andThen_room, level_room] at read
  split at read
  · rename_i skipped
    obtain ⟨semicolon, rfl, isEnd⟩ := skip?_eq_some skipped
    cases read
    exact .absent isEnd
  · split at read
    · rename_i skipped
      obtain ⟨word, rfl, isLet⟩ := skip?_eq_some skipped
      obtain ⟨stmt, last, within, found, read⟩ := Outcome.andThen_eq_ok read
      cases read
      exact .declaration (letRest_sound isLet found)
    · obtain ⟨stmt, last, within, found, read⟩ := Outcome.andThen_eq_ok read
      cases read
      exact .expression (expressionStatement_sound found)

theorem clause_sound {room : Allowance} {close : Token.Kind} {tokens rest : List Token}
    {value : Option Expr} {shorter : rest.length < tokens.length}
    (read : clause room close tokens = .ok value rest shorter) : Clause close tokens value rest := by
  unfold clause at read
  simp only [andThen_room, level_room] at read
  split at read
  · rename_i skipped
    obtain ⟨closer, rfl, isClose⟩ := skip?_eq_some skipped
    cases read
    exact .absent isClose
  · obtain ⟨result, middle, within, found, read⟩ := Outcome.andThen_eq_ok read
    obtain ⟨closer, last, within, closed, read⟩ := Outcome.andThen_eq_ok read
    obtain ⟨rfl, isClose⟩ := expect_eq_ok closed
    cases read
    exact .present (expression_sound room _ found) isClose

mutual

theorem declaration_sound (room : Allowance) (tokens : List Token) {stmt : Stmt}
    {rest : List Token} {shorter : rest.length < tokens.length}
    (read : declaration room tokens = .ok stmt rest shorter) :
    Declaration true tokens stmt rest := by
  rw [declaration.eq_def] at read
  simp only [andThen_room, level_room] at read
  cases tokens with
  | nil => exact .statement (statement_sound room [] read)
  | cons first more =>
    dsimp only at read
    split at read
    · rename_i isLet
      obtain ⟨result, last, within, found, read⟩ := Outcome.andThen_eq_ok read
      cases read
      exact .letDeclaration (letRest_sound isLet found)
    · split at read
      · rename_i isType
        obtain ⟨result, last, within, found, read⟩ := Outcome.andThen_eq_ok read
        cases read
        exact typeRest_sound isType found
      · exact .statement (statement_sound room (first :: more) read)
termination_by 4 * tokens.length + 1
decreasing_by all_goals subst_vars; simp only [List.length_cons, List.length_nil]; omega

theorem statement_sound (room : Allowance) (tokens : List Token) {stmt : Stmt}
    {rest : List Token} {shorter : rest.length < tokens.length}
    (read : statement room tokens = .ok stmt rest shorter) : Statement true tokens stmt rest := by
  rw [statement] at read
  simp only [nested_room] at read
  obtain ⟨inner, -, read⟩ := Outcome.nested_eq_ok read
  cases tokens with
  | nil => exact .expression (expressionStatement_sound read)
  | cons word more =>
    dsimp only at read
    split at read
    · rename_i isFn
      exact functionRest_sound inner word more _ isFn read
    · split at read
      · rename_i isFor
        exact forRest_sound inner word more _ isFor read
      · split at read
        · rename_i isWhile
          exact whileRest_sound inner word more _ isWhile read
        · split at read
          · rename_i isIf
            exact ifRest_sound inner word more _ isIf read
          · split at read
            · rename_i isOpen
              obtain ⟨others, same, closer, isClose, derived⟩ :=
                blockRest_sound inner word.position [] more _ read
              subst same
              exact .block isOpen derived isClose
            · exact .expression (expressionStatement_sound read)
termination_by 4 * tokens.length
decreasing_by all_goals subst_vars; simp only [List.length_cons]; omega

theorem functionRest_sound (room : Allowance) (word : Token) {bound : Nat} (tokens : List Token)
    (within : tokens.length < bound) {stmt : Stmt} {rest : List Token}
    {shorter : rest.length < bound} (isFn : word.kind = .fnWord)
    (read : functionRest room word.position tokens within = .ok stmt rest shorter) :
    Statement true (word :: tokens) stmt rest := by
  rw [functionRest] at read
  simp only [andThen_room, level_room] at read
  obtain ⟨name, second, _, named, read⟩ := Outcome.andThen_eq_ok read
  obtain ⟨rfl, isName⟩ := expect_eq_ok named
  obtain ⟨opener, third, _, opened, read⟩ := Outcome.andThen_eq_ok read
  obtain ⟨rfl, isOpen⟩ := expect_eq_ok opened
  obtain ⟨names, fourth, fewer, listed, read⟩ := Outcome.andThen_eq_ok read
  obtain ⟨returns, fifth, fewest, marked, read⟩ := Outcome.andThen_eq_ok read
  obtain ⟨body, last, _, found, read⟩ := Outcome.andThen_eq_ok read
  cases read
  exact .function isFn isName isOpen (parameters_sound listed) (typeMark_sound marked)
    (statement_sound room fifth found)
termination_by 4 * tokens.length + 2
decreasing_by subst_vars; simp only [List.length_cons]; omega

theorem forRest_sound (room : Allowance) (word : Token) {bound : Nat} (tokens : List Token)
    (within : tokens.length < bound) {stmt : Stmt} {rest : List Token}
    {shorter : rest.length < bound} (isFor : word.kind = .forWord)
    (read : forRest room word.position tokens within = .ok stmt rest shorter) :
    Statement true (word :: tokens) stmt rest := by
  rw [forRest] at read
  simp only [andThen_room, level_room] at read
  obtain ⟨opener, second, _, opened, read⟩ := Outcome.andThen_eq_ok read
  obtain ⟨rfl, isOpen⟩ := expect_eq_ok opened
  obtain ⟨initializer, third, _, first, read⟩ := Outcome.andThen_eq_ok read
  obtain ⟨condition, fourth, _, next, read⟩ := Outcome.andThen_eq_ok read
  obtain ⟨increment, fifth, _, last, read⟩ := Outcome.andThen_eq_ok read
  obtain ⟨body, behind, _, found, read⟩ := Outcome.andThen_eq_ok read
  cases read
  exact .forLoop isFor isOpen (firstClause_sound first) (clause_sound next) (clause_sound last)
    (statement_sound room fifth found)
termination_by 4 * tokens.length + 2
decreasing_by subst_vars; simp only [List.length_cons]; omega

theorem whileRest_sound (room : Allowance) (word : Token) {bound : Nat} (tokens : List Token)
    (within : tokens.length < bound) {stmt : Stmt} {rest : List Token}
    {shorter : rest.length < bound} (isWhile : word.kind = .whileWord)
    (read : whileRest room word.position tokens within = .ok stmt rest shorter) :
    Statement true (word :: tokens) stmt rest := by
  rw [whileRest] at read
  simp only [andThen_room, level_room] at read
  obtain ⟨test, middle, _, tested, read⟩ := Outcome.andThen_eq_ok read
  obtain ⟨body, last, _, found, read⟩ := Outcome.andThen_eq_ok read
  cases read
  exact .whileLoop isWhile (condition_sound tested) (statement_sound room middle found)
termination_by 4 * tokens.length + 2
decreasing_by omega

theorem ifRest_sound (room : Allowance) (word : Token) {bound : Nat} (tokens : List Token)
    (within : tokens.length < bound) {stmt : Stmt} {rest : List Token}
    {shorter : rest.length < bound} (isIf : word.kind = .ifWord)
    (read : ifRest room word.position tokens within = .ok stmt rest shorter) :
    Statement true (word :: tokens) stmt rest := by
  rw [ifRest] at read
  simp only [andThen_room, level_room] at read
  obtain ⟨test, middle, within, tested, read⟩ := Outcome.andThen_eq_ok read
  obtain ⟨yes, behind, fewer, found, read⟩ := Outcome.andThen_eq_ok read
  have inner := statement_sound room middle found
  split at read
  · rename_i missing
    cases read
    exact .conditional isIf (condition_sound tested) inner (skip?_eq_none_iff.mp missing)
  · rename_i second _ skipped
    obtain ⟨other, rfl, isElse⟩ := skip?_eq_some skipped
    obtain ⟨no, last, _, found', read⟩ := Outcome.andThen_eq_ok read
    cases read
    have fewer' : second.length + 1 < middle.length := fewer
    exact .alternative isIf (condition_sound tested) inner isElse (statement_sound room second found')
termination_by 4 * tokens.length + 2
decreasing_by all_goals omega

theorem blockRest_sound (room : Allowance) (position : Position) {bound : Nat}
    (before : List Stmt) (tokens : List Token) (within : tokens.length < bound) {stmt : Stmt}
    {rest : List Token} {shorter : rest.length < bound}
    (read : blockRest room position before tokens within = .ok stmt rest shorter) :
    ∃ others, stmt = .block (before.reverse ++ others) position ∧
      ∃ closer : Token, closer.kind = .rightBrace ∧
        Declarations true tokens others (closer :: rest) := by
  rw [blockRest] at read
  simp only [andThen_room, level_room] at read
  split at read
  · rename_i skipped
    obtain ⟨closer, rfl, isClose⟩ := skip?_eq_some skipped
    cases read
    exact ⟨[], by simp, closer, isClose, .none⟩
  · split at read
    · cases read
    · obtain ⟨first, middle, _, found, read⟩ := Outcome.andThen_eq_ok read
      obtain ⟨others, same, closer, isClose, derived⟩ :=
        blockRest_sound room position _ middle _ read
      exact ⟨first :: others, by simpa using same, closer, isClose,
        .more (declaration_sound room tokens found) derived⟩
termination_by 4 * tokens.length + 2
decreasing_by all_goals omega

end

theorem declarations_sound (room : Allowance) (before : List Stmt) (tokens : List Token)
    {program : Program} {rest : List Token}
    (read : declarations room before tokens = (.ok program, rest)) :
    ∃ others, program.statements = before.reverse ++ others ∧
      Declarations true tokens others [] := by
  rw [declarations_eq] at read
  split at read
  · rename_i empty
    obtain rfl := List.isEmpty_iff.mp empty
    cases read
    exact ⟨[], by simp, .none⟩
  · split at read
    · rename_i stmt middle _ found
      obtain ⟨others, same, derived⟩ := declarations_sound room (stmt :: before) middle read
      exact ⟨stmt :: others, by simpa using same, .more (declaration_sound room tokens found) derived⟩
    · cases read
termination_by tokens.length

end Reading

end YalSyntax
