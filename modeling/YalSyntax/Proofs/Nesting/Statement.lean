import YalSyntax.Proofs.Nesting.Expression

namespace YalSyntax

namespace Counting

open Reading

theorem initialValue_counts (tokens : List Token) :
    Counts (initialValue · tokens) (initialValue · tokens) := by
  refine .of_eq (fun _ => initialValue.eq_def ..) (fun _ => initialValue.eq_def ..) ?_
  cases skip? .equal tokens with
  | none => exact .level _
  | some behind => exact .andThen (expression_counts behind.1) fun _ _ _ => .level _

theorem letRest_counts (position : Position) (tokens : List Token) :
    Counts (letRest · position tokens) (letRest · position tokens) := by
  refine .of_eq (fun _ => letRest.eq_def ..) (fun _ => letRest.eq_def ..) ?_
  refine .andThen (.level _) fun binding rest _ => ?_
  refine .andThen (initialValue_counts rest) fun initializer rest _ => ?_
  exact .andThen (.level _) fun _ _ _ => .level _

theorem expressionStatement_counts (tokens : List Token) :
    Counts (expressionStatement · tokens) (expressionStatement · tokens) := by
  refine .of_eq (fun _ => expressionStatement.eq_def ..) (fun _ => expressionStatement.eq_def ..) ?_
  refine .andThen (expression_counts tokens) fun value rest _ => ?_
  exact .ite (fun _ => .level _) fun _ => .andThen (.level _) fun _ _ _ => .level _

theorem condition_counts (tokens : List Token) :
    Counts (condition · tokens) (condition · tokens) := by
  refine .of_eq (fun _ => condition.eq_def ..) (fun _ => condition.eq_def ..) ?_
  refine .andThen (.level _) fun _ rest _ => .andThen (expression_counts rest) fun _ _ _ => ?_
  exact .andThen (.level _) fun _ _ _ => .level _

theorem firstClause_counts (tokens : List Token) :
    Counts (firstClause · tokens) (firstClause · tokens) := by
  refine .of_eq (fun _ => firstClause.eq_def ..) (fun _ => firstClause.eq_def ..) ?_
  cases skip? .semicolon tokens with
  | some behind => exact .level _
  | none =>
    cases skip? .letWord tokens with
    | some behind => exact .andThen (letRest_counts _ behind.1) fun _ _ _ => .level _
    | none => exact .andThen (expressionStatement_counts tokens) fun _ _ _ => .level _

theorem clause_counts (close : Token.Kind) (tokens : List Token) :
    Counts (clause · close tokens) (clause · close tokens) := by
  refine .of_eq (fun _ => clause.eq_def ..) (fun _ => clause.eq_def ..) ?_
  cases skip? close tokens with
  | some behind => exact .level _
  | none =>
    refine .andThen (expression_counts tokens) fun _ _ _ => ?_
    exact .andThen (.level _) fun _ _ _ => .level _

mutual

theorem declaration_counts (tokens : List Token) :
    Counts (declaration · tokens) (declaration · tokens) := by
  refine .of_eq (fun _ => declaration.eq_def ..) (fun _ => declaration.eq_def ..) ?_
  cases tokens with
  | nil => exact statement_counts []
  | cons first rest =>
    refine .ite (fun _ => ?_) fun _ => .ite (fun _ => ?_) fun _ => ?_
    · exact .andThen (letRest_counts first.position rest) fun _ _ _ => .level _
    · exact .andThen (.level _) fun _ _ _ => .level _
    · exact statement_counts (first :: rest)
termination_by 4 * tokens.length + 1
decreasing_by all_goals subst_vars; simp only [List.length_cons, List.length_nil]; omega

theorem statement_counts (tokens : List Token) :
    Counts (statement · tokens) (statement · tokens) := by
  refine .of_eq (fun _ => statement.eq_def ..) (fun _ => statement.eq_def ..) ?_
  refine .nested tokens ?_
  cases tokens with
  | nil => exact expressionStatement_counts []
  | cons first rest =>
    refine .ite (fun _ => functionRest_counts _ rest _) fun _ => ?_
    refine .ite (fun _ => forRest_counts _ rest _) fun _ => ?_
    refine .ite (fun _ => whileRest_counts _ rest _) fun _ => ?_
    refine .ite (fun _ => ifRest_counts _ rest _) fun _ => ?_
    refine .ite (fun _ => blockRest_counts _ [] rest _) fun _ => ?_
    exact expressionStatement_counts (first :: rest)
termination_by 4 * tokens.length
decreasing_by all_goals subst_vars; simp only [List.length_cons]; omega

theorem functionRest_counts (position : Position) {bound : Nat} (tokens : List Token)
    (within : tokens.length < bound) :
    Counts (functionRest · position tokens within)
      (functionRest · position tokens within) := by
  refine .of_eq (fun _ => functionRest.eq_def ..) (fun _ => functionRest.eq_def ..) ?_
  refine .andThen (.level _) fun name second _ => .andThen (.level _) fun _ third _ => ?_
  refine .andThen (.level _) fun parameters fourth _ => .andThen (.level _) fun mark last _ => ?_
  exact .andThen (statement_counts last) fun _ _ _ => .level _
termination_by 4 * tokens.length + 2
decreasing_by omega

theorem forRest_counts (position : Position) {bound : Nat} (tokens : List Token)
    (within : tokens.length < bound) :
    Counts (forRest · position tokens within) (forRest · position tokens within) := by
  refine .of_eq (fun _ => forRest.eq_def ..) (fun _ => forRest.eq_def ..) ?_
  refine .andThen (.level _) fun _ second _ => .andThen (firstClause_counts second) fun _ third _ => ?_
  refine .andThen (clause_counts .semicolon third) fun _ fourth _ => ?_
  refine .andThen (clause_counts .rightParen fourth) fun _ last _ => ?_
  exact .andThen (statement_counts last) fun _ _ _ => .level _
termination_by 4 * tokens.length + 2
decreasing_by omega

theorem whileRest_counts (position : Position) {bound : Nat} (tokens : List Token)
    (within : tokens.length < bound) :
    Counts (whileRest · position tokens within) (whileRest · position tokens within) := by
  refine .of_eq (fun _ => whileRest.eq_def ..) (fun _ => whileRest.eq_def ..) ?_
  refine .andThen (condition_counts tokens) fun _ last _ => ?_
  exact .andThen (statement_counts last) fun _ _ _ => .level _
termination_by 4 * tokens.length + 2
decreasing_by omega

theorem ifRest_counts (position : Position) {bound : Nat} (tokens : List Token)
    (within : tokens.length < bound) :
    Counts (ifRest · position tokens within) (ifRest · position tokens within) := by
  refine .of_eq (fun _ => ifRest.eq_def ..) (fun _ => ifRest.eq_def ..) ?_
  refine .andThen (condition_counts tokens) fun _ middle _ => ?_
  refine .andThen (statement_counts middle) fun _ rest _ => ?_
  cases skip? .elseWord rest with
  | none => exact .level _
  | some behind => exact .andThen (statement_counts behind.1) fun _ _ _ => .level _
termination_by 4 * tokens.length + 2
decreasing_by all_goals omega

theorem blockRest_counts (position : Position) {bound : Nat} (before : List Stmt)
    (tokens : List Token) (within : tokens.length < bound) :
    Counts (blockRest · position before tokens within)
      (blockRest · position before tokens within) := by
  refine .of_eq (fun _ => blockRest.eq_def ..) (fun _ => blockRest.eq_def ..) ?_
  cases skip? .rightBrace tokens with
  | some behind => exact .level _
  | none =>
    refine .ite (fun _ => .level _) fun _ => ?_
    exact .andThen (declaration_counts tokens) fun stmt rest _ =>
      blockRest_counts position (stmt :: before) rest _
termination_by 4 * tokens.length + 2
decreasing_by all_goals omega

end

theorem program_counts {bound : Nat} (before : List Stmt) (tokens : List Token)
    (within : tokens.length < bound) :
    Counts (program · before tokens within) (program · before tokens within) := by
  refine .of_eq (fun _ => program.eq_def ..) (fun _ => program.eq_def ..) ?_
  refine .ite (fun _ => .level _) fun _ => ?_
  exact .andThen (declaration_counts tokens) fun stmt rest _ =>
    program_counts (stmt :: before) rest _
termination_by tokens.length

end Counting

end YalSyntax
