import YalSyntax.Proofs.Locality.Expression
import YalSyntax.Proofs.Reader.Statement

namespace YalSyntax

theorem Expr.map_asReturn (text : String → String) (place : Position → Position) (value : Expr) :
    value.asReturn.map text place = (value.map text place).asReturn := by
  cases value <;> rfl

namespace Reader

variable (text : String → String) (place : Position → Position)

theorem typeMark_mirrors (tokens : List Token) :
    Mirrors text place (Option.map text) typeMark typeMark tokens := by
  rw [typeMark_eq]
  exact .takeKind (fun _ _ _ _ => .andThen .expect fun _ _ _ => .done rfl) (.done rfl)

theorem binding_mirrors (tokens : List Token) :
    Mirrors text place (Binding.map text place) binding binding tokens := by
  rw [binding_eq]
  exact .andThen .expect fun _ rest _ => .andThen (typeMark_mirrors text place rest) fun _ _ _ =>
    .done rfl

theorem moreParameters_mirrors (before : List Binding) (tokens : List Token) :
    Mirrors text place (List.map (Binding.map text place)) (moreParameters before)
      (moreParameters (before.map (Binding.map text place))) tokens := by
  rw [moreParameters_eq, moreParameters_eq]
  refine .andThen (binding_mirrors text place tokens) fun parameter rest read => ?_
  obtain ⟨shorter, -⟩ := Outcome.answer_eq_ok read
  refine .takeKind (fun comma more split _ => ?_) (.andThen .expect fun _ _ _ => .done (by simp))
  subst split
  exact moreParameters_mirrors (parameter :: before) more
termination_by tokens.length
decreasing_by simp only [List.length_cons] at shorter; omega

theorem parameters_mirrors (tokens : List Token) :
    Mirrors text place (List.map (Binding.map text place)) parameters parameters tokens := by
  rw [parameters_eq]
  exact .takeKind (fun _ _ _ _ => .done rfl) (moreParameters_mirrors text place [] tokens)

theorem initialValue_mirrors (room : Allowance) (tokens : List Token) :
    Mirrors text place (Expr.mapOption text place) (initialValue room) (initialValue room)
      tokens := by
  rw [initialValue_eq]
  refine .takeKind (fun _ rest _ _ => ?_) (.done rfl)
  exact .andThen (expression_mirrors text place room rest) fun _ _ _ => .done rfl

theorem letRest_mirrors (room : Allowance) (position : Position) (tokens : List Token) :
    Mirrors text place (Stmt.map text place) (letRest room position)
      (letRest room (place position)) tokens := by
  rw [letRest_eq, letRest_eq]
  refine .andThen (binding_mirrors text place tokens) fun name rest _ => ?_
  refine .andThen (initialValue_mirrors text place room rest) fun value rest _ => ?_
  exact .andThen .expect fun _ _ _ => .done rfl

theorem typeRest_mirrors (position : Position) (tokens : List Token) :
    Mirrors text place (Stmt.map text place) (typeRest position) (typeRest (place position))
      tokens := by
  rw [typeRest_eq, typeRest_eq]
  exact .andThen .expect fun _ _ _ => .andThen .expect fun _ _ _ => .andThen .expect fun _ _ _ =>
    .andThen .expect fun _ _ _ => .done rfl

theorem expressionAt_mirrors (room : Allowance) {position position' : Position}
    (tokens : List Token) (same : tokens ≠ [] → place position = position') :
    Mirrors text place (Stmt.map text place) (expressionAt room position)
      (expressionAt room position') tokens := by
  refine .andThen (expression_mirrors text place room tokens) fun value rest read => ?_
  obtain ⟨shorter, -⟩ := Outcome.answer_eq_ok read
  obtain rfl := same (List.length_pos_iff.mp (Nat.zero_lt_of_lt shorter))
  refine .branch (fun _ => .done ?_) fun _ => .andThen .expect fun _ _ _ => .done rfl
  exact congrArg (Stmt.expression · _) (value.map_asReturn text place)

theorem expressionStatement_mirrors (room : Allowance) (tokens : List Token) :
    Mirrors text place (Stmt.map text place) (expressionStatement room)
      (expressionStatement room) tokens := by
  cases tokens with
  | nil =>
    have start : Mirrors text place (Stmt.map text place) (expressionAt room .start)
        (expressionAt room .start) [] := expressionAt_mirrors text place room [] (absurd rfl)
    refine start.congr (expressionStatement_eq room []) fun seen begins => ?_
    obtain rfl := List.head?_eq_none_iff.mp begins
    exact expressionStatement_eq room []
  | cons first rest =>
    refine (expressionAt_mirrors text place room (first :: rest) fun _ => rfl).congr
      (expressionStatement_eq room (first :: rest)) fun seen begins => ?_
    obtain ⟨more, rfl⟩ := List.head?_eq_some_iff.mp begins
    exact expressionStatement_eq room _

theorem condition_mirrors (room : Allowance) (tokens : List Token) :
    Mirrors text place (Expr.map text place) (condition room) (condition room) tokens := by
  rw [condition_eq]
  refine .andThen .expect fun _ rest _ => ?_
  refine .andThen (expression_mirrors text place room rest) fun _ _ _ => ?_
  exact .andThen .expect fun _ _ _ => .done rfl

theorem firstClause_mirrors (room : Allowance) (tokens : List Token) :
    Mirrors text place (Stmt.mapOption text place) (firstClause room) (firstClause room) tokens := by
  rw [firstClause_eq]
  refine .takeKind (fun _ _ _ _ => .done rfl) (.takeKind (fun word rest _ _ => ?_) ?_)
  · exact .andThen (letRest_mirrors text place room word.position rest) fun _ _ _ => .done rfl
  · exact .andThen (expressionStatement_mirrors text place room tokens) fun _ _ _ => .done rfl

theorem clause_mirrors (room : Allowance) (close : Token.Kind) (tokens : List Token) :
    Mirrors text place (Expr.mapOption text place) (clause room close) (clause room close)
      tokens := by
  rw [clause_eq]
  refine .takeKind (fun _ _ _ _ => .done rfl) ?_
  exact .andThen (expression_mirrors text place room tokens) fun _ _ _ =>
    .andThen .expect fun _ _ _ => .done rfl

mutual

theorem declaration_mirrors (room : Allowance) (tokens : List Token) :
    Mirrors text place (Stmt.map text place) (declaration room) (declaration room) tokens := by
  rw [declaration_eq]
  exact .takeKind (fun word rest _ _ => letRest_mirrors text place room word.position rest)
    (.takeKind (fun word rest _ _ => typeRest_mirrors text place word.position rest)
      (statement_mirrors room tokens))
termination_by 4 * tokens.length + 1
decreasing_by omega

theorem statement_mirrors (room : Allowance) (tokens : List Token) :
    Mirrors text place (Stmt.map text place) (statement room) (statement room) tokens := by
  rw [statement_eq]
  refine .nested fun room => ?_
  refine .takeKind (fun word rest split _ => functionRest_mirrors room word.position rest) ?_
  refine .takeKind (fun word rest split _ => forRest_mirrors room word.position rest) ?_
  refine .takeKind (fun word rest split _ => whileRest_mirrors room word.position rest) ?_
  refine .takeKind (fun word rest split _ => ifRest_mirrors room word.position rest) ?_
  refine .takeKind (fun word rest split _ => blockRest_mirrors room word.position [] rest) ?_
  exact expressionStatement_mirrors text place room tokens
termination_by 4 * tokens.length
decreasing_by all_goals subst_vars; simp only [List.length_cons]; omega

theorem functionRest_mirrors (room : Allowance) (position : Position) (tokens : List Token) :
    Mirrors text place (Stmt.map text place) (functionRest room position)
      (functionRest room (place position)) tokens := by
  refine .andThen .expect fun name second read => .andThen .expect fun _ third read' => ?_
  obtain ⟨rfl, -⟩ := expect_eq_ok read
  obtain ⟨rfl, -⟩ := expect_eq_ok read'
  refine .andThen (parameters_mirrors text place third) fun names fourth listed => ?_
  refine .andThen (typeMark_mirrors text place fourth) fun mark last marked => ?_
  obtain ⟨shorter, -⟩ := Outcome.answer_eq_ok listed
  obtain ⟨within, -⟩ := Outcome.answer_eq_ok marked
  exact .andThen (statement_mirrors room last) fun _ _ _ => .done rfl
termination_by 4 * tokens.length + 2
decreasing_by subst_vars; simp only [List.length_cons]; omega

theorem forRest_mirrors (room : Allowance) (position : Position) (tokens : List Token) :
    Mirrors text place (Stmt.map text place) (forRest room position)
      (forRest room (place position)) tokens := by
  refine .andThen .expect fun _ second read => ?_
  obtain ⟨rfl, -⟩ := expect_eq_ok read
  refine .andThen (firstClause_mirrors text place room second) fun _ third first => ?_
  refine .andThen (clause_mirrors text place room .semicolon third) fun _ fourth tested => ?_
  refine .andThen (clause_mirrors text place room .rightParen fourth) fun _ last stepped => ?_
  obtain ⟨shorter, -⟩ := Outcome.answer_eq_ok first
  obtain ⟨shorter', -⟩ := Outcome.answer_eq_ok tested
  obtain ⟨within, -⟩ := Outcome.answer_eq_ok stepped
  exact .andThen (statement_mirrors room last) fun _ _ _ => .done rfl
termination_by 4 * tokens.length + 2
decreasing_by subst_vars; simp only [List.length_cons]; omega

theorem whileRest_mirrors (room : Allowance) (position : Position) (tokens : List Token) :
    Mirrors text place (Stmt.map text place) (whileRest room position)
      (whileRest room (place position)) tokens := by
  refine .andThen (condition_mirrors text place room tokens) fun test rest read => ?_
  obtain ⟨shorter, -⟩ := Outcome.answer_eq_ok read
  exact .andThen (statement_mirrors room rest) fun _ _ _ => .done rfl
termination_by 4 * tokens.length + 2
decreasing_by omega

theorem ifRest_mirrors (room : Allowance) (position : Position) (tokens : List Token) :
    Mirrors text place (Stmt.map text place) (ifRest room position)
      (ifRest room (place position)) tokens := by
  refine .andThen (condition_mirrors text place room tokens) fun test middle read => ?_
  obtain ⟨shorter, -⟩ := Outcome.answer_eq_ok read
  refine .andThen (statement_mirrors room middle) fun yes rest read' => ?_
  obtain ⟨fewer, -⟩ := Outcome.answer_eq_ok read'
  refine .takeKind (fun other more split _ => ?_) (.done rfl)
  subst split
  exact .andThen (statement_mirrors room more) fun _ _ _ => .done rfl
termination_by 4 * tokens.length + 2
decreasing_by all_goals subst_vars; (try simp only [List.length_cons] at *); omega

theorem blockRest_mirrors (room : Allowance) (position : Position) (before : List Stmt)
    (tokens : List Token) :
    Mirrors text place (Stmt.map text place) (blockRest room position before)
      (blockRest room (place position) (before.map (Stmt.map text place))) tokens := by
  rw [blockRest_eq, blockRest_eq]
  refine .takeKind (fun _ _ _ _ => .done ?_) (.branch (fun _ => .fail rfl) fun _ => ?_)
  · rw [Stmt.map, Stmt.mapList_eq_map, List.map_reverse]
  · refine .andThen (declaration_mirrors room tokens) fun stmt rest read => ?_
    obtain ⟨shorter, -⟩ := Outcome.answer_eq_ok read
    exact blockRest_mirrors room position (stmt :: before) rest
termination_by 4 * tokens.length + 2
decreasing_by all_goals omega

end

theorem declarations_mirrors (room : Allowance) (before : List Stmt) (tokens : List Token) :
    Mirrors text place (Program.map text place) (declarations room before)
      (declarations room (before.map (Stmt.map text place))) tokens := by
  rw [declarations_eq, declarations_eq]
  refine .branch (fun _ => .done ?_) fun _ => ?_
  · rw [Program.map, Stmt.mapList_eq_map, List.map_reverse]
  · refine .andThen (declaration_mirrors text place room tokens) fun stmt rest read => ?_
    obtain ⟨shorter, -⟩ := Outcome.answer_eq_ok read
    exact declarations_mirrors room (stmt :: before) rest
termination_by tokens.length

end Reader

end YalSyntax
