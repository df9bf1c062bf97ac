import YalSyntax.Proofs.Nesting.Counts

namespace YalSyntax

namespace Counting

open Reading

theorem operations_counts (operator? : Token.Kind → Option Operator) {size : Nat}
    {operand : Counter → (tokens : List Token) → tokens.length ≤ size →
      Counted (Outcome Expr tokens.length)}
    {others : Allowance → (tokens : List Token) → tokens.length ≤ size →
      Outcome Expr tokens.length}
    (counts : ∀ tokens fits, Counts (operand · tokens fits) (others · tokens fits))
    {bound : Nat} (left : Expr) (tokens : List Token) (fits : tokens.length ≤ size)
    (within : tokens.length < bound) :
    Counts (operations operator? operand · left tokens fits within)
      (operations operator? others · left tokens fits within) := by
  refine .of_eq (fun _ => operations.eq_def ..) (fun _ => operations.eq_def ..) ?_
  cases tokens with
  | nil => exact .level _
  | cons sign rest =>
    dsimp only
    cases operator? sign.kind with
    | none => exact .level _
    | some operator =>
      refine .andThen (counts rest _) fun right later shorter => ?_
      exact operations_counts operator? counts _ later _ _
termination_by tokens.length
decreasing_by subst_vars; simp only [List.length_cons]; omega

theorem tierOf_counts (operator? : Token.Kind → Option Operator) {tokens : List Token}
    {operand : Counter → (rest : List Token) → rest.length ≤ tokens.length →
      Counted (Outcome Expr rest.length)}
    {others : Allowance → (rest : List Token) → rest.length ≤ tokens.length →
      Outcome Expr rest.length}
    (counts : ∀ rest fits, Counts (operand · rest fits) (others · rest fits)) :
    Counts (tierOf operator? · tokens operand) (tierOf operator? · tokens others) :=
  .andThen (counts tokens _) fun left rest shorter =>
    operations_counts operator? counts left rest _ shorter

mutual

theorem expression_counts (tokens : List Token) :
    Counts (expression · tokens) (expression · tokens) := by
  refine .of_eq (fun _ => expression.eq_def ..) (fun _ => expression.eq_def ..) ?_
  cases tokens with
  | nil => exact .nested [] (assignment_counts [])
  | cons first rest =>
    refine .nested _ (.ite (fun _ => .ite (fun _ => .level _) fun _ => ?_) fun _ => ?_)
    · exact .andThen (expression_counts rest) fun _ _ _ => .level _
    · exact assignment_counts (first :: rest)
termination_by 16 * tokens.length + 10
decreasing_by all_goals subst_vars; simp only [List.length_cons, List.length_nil]; omega

theorem assignment_counts (tokens : List Token) :
    Counts (assignment · tokens) (assignment · tokens) := by
  refine .of_eq (fun _ => assignment.eq_def ..) (fun _ => assignment.eq_def ..) ?_
  refine .andThen (logicOr_counts tokens) fun target rest shorter => ?_
  cases rest with
  | nil => exact .level _
  | cons equals rest =>
    refine .ite (fun _ => ?_) fun _ => .level _
    cases target with
    | ident name position =>
      exact .nested rest (.andThen (assignment_counts rest) fun _ _ _ => .level _)
    | _ => exact .level _
termination_by 16 * tokens.length + 9
decreasing_by all_goals subst_vars; simp only [List.length_cons] at *; omega

theorem logicOr_counts (tokens : List Token) : Counts (logicOr · tokens) (logicOr · tokens) := by
  refine .of_eq (fun _ => logicOr.eq_def ..) (fun _ => logicOr.eq_def ..) ?_
  exact tierOf_counts _ fun rest _ => logicAnd_counts rest
termination_by 16 * tokens.length + 8
decreasing_by omega

theorem logicAnd_counts (tokens : List Token) : Counts (logicAnd · tokens) (logicAnd · tokens) := by
  refine .of_eq (fun _ => logicAnd.eq_def ..) (fun _ => logicAnd.eq_def ..) ?_
  exact tierOf_counts _ fun rest _ => equality_counts rest
termination_by 16 * tokens.length + 7
decreasing_by omega

theorem equality_counts (tokens : List Token) : Counts (equality · tokens) (equality · tokens) := by
  refine .of_eq (fun _ => equality.eq_def ..) (fun _ => equality.eq_def ..) ?_
  exact tierOf_counts _ fun rest _ => term_counts rest
termination_by 16 * tokens.length + 6
decreasing_by omega

theorem term_counts (tokens : List Token) : Counts (term · tokens) (term · tokens) := by
  refine .of_eq (fun _ => term.eq_def ..) (fun _ => term.eq_def ..) ?_
  exact tierOf_counts _ fun rest _ => factor_counts rest
termination_by 16 * tokens.length + 5
decreasing_by omega

theorem factor_counts (tokens : List Token) : Counts (factor · tokens) (factor · tokens) := by
  refine .of_eq (fun _ => factor.eq_def ..) (fun _ => factor.eq_def ..) ?_
  exact tierOf_counts _ fun rest _ => unary_counts rest
termination_by 16 * tokens.length + 4
decreasing_by omega

theorem unary_counts (tokens : List Token) :
    Counts (unary · tokens) (unary · tokens) := by
  refine .of_eq (fun _ => unary.eq_def ..) (fun _ => unary.eq_def ..) ?_
  cases tokens with
  | nil => exact operand_counts []
  | cons sign rest =>
    dsimp only
    cases UnaryOp.ofKind? sign.kind with
    | none => exact operand_counts (sign :: rest)
    | some operator =>
      exact .nested rest (.andThen (unary_counts rest) fun _ _ _ => .level _)
termination_by 16 * tokens.length + 2
decreasing_by all_goals subst_vars; simp only [List.length_cons, List.length_nil]; omega

theorem operand_counts (tokens : List Token) :
    Counts (operand · tokens) (operand · tokens) := by
  refine .of_eq (fun _ => operand.eq_def ..) (fun _ => operand.eq_def ..) ?_
  refine .andThen (primary_counts tokens) fun value rest shorter => ?_
  cases rest with
  | nil => exact .level _
  | cons sign rest =>
    dsimp only
    cases UnaryOp.step? sign.kind with
    | none => exact .level _
    | some operator => cases value <;> exact .level _
termination_by 16 * tokens.length + 1
decreasing_by omega

theorem primary_counts (tokens : List Token) :
    Counts (primary · tokens) (primary · tokens) := by
  refine .of_eq (fun _ => primary.eq_def ..) (fun _ => primary.eq_def ..) ?_
  cases tokens with
  | nil => exact .level _
  | cons first rest =>
    refine .ite (fun _ => .level _) fun _ => .ite (fun _ => ?_) fun _ => .ite (fun _ => ?_) fun _ =>
      .level _
    · cases skip? .leftParen rest with
      | none => exact .level _
      | some behind =>
        exact .andThen (arguments_counts behind.1) fun _ _ _ => .level _
    · exact .andThen (expression_counts rest) fun _ _ _ =>
        .andThen (.level _) fun _ _ _ => .level _
termination_by 16 * tokens.length
decreasing_by all_goals subst_vars; simp only [List.length_cons]; omega

theorem arguments_counts (tokens : List Token) :
    Counts (arguments · tokens) (arguments · tokens) := by
  refine .of_eq (fun _ => arguments.eq_def ..) (fun _ => arguments.eq_def ..) ?_
  cases skip? .rightParen tokens with
  | none => exact moreArguments_counts [] tokens _
  | some behind => exact .level _
termination_by 16 * tokens.length + 12
decreasing_by omega

theorem moreArguments_counts {bound : Nat} (before : List Expr) (tokens : List Token)
    (within : tokens.length ≤ bound) :
    Counts (moreArguments · before tokens within)
      (moreArguments · before tokens within) := by
  refine .of_eq (fun _ => moreArguments.eq_def ..) (fun _ => moreArguments.eq_def ..) ?_
  refine .andThen (expression_counts tokens) fun value rest shorter => ?_
  cases skip? .comma rest with
  | none => exact .andThen (.level _) fun _ _ _ => .level _
  | some behind => exact moreArguments_counts (value :: before) behind.1 _
termination_by 16 * tokens.length + 11
decreasing_by all_goals omega

end

end Counting

end YalSyntax
