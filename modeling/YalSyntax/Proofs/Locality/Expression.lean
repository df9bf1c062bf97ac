import YalSyntax.Proofs.Locality
import YalSyntax.Proofs.Reader.Expression

namespace YalSyntax

theorem Expr.map_operation (text : String → String) (place : Position → Position)
    (operator : Operator) (left right : Expr) (position : Position) :
    (operation operator left right position).map text place =
      operation operator (left.map text place) (right.map text place) (place position) := by
  cases operator <;> rfl

namespace Reader

variable (text : String → String) (place : Position → Position)

mutual

theorem expression_mirrors (room : Allowance) (tokens : List Token) :
    Mirrors text place (Expr.map text place) (expression room) (expression room) tokens := by
  rw [expression_eq]
  refine .nested fun room => .takeKind (fun word rest split _ => ?_) (assignment_mirrors room tokens)
  subst split
  refine .branch (fun _ => .done rfl) fun _ => ?_
  exact .andThen (expression_mirrors room rest) fun _ _ _ => .done rfl
termination_by 16 * tokens.length + 10
decreasing_by all_goals subst_vars; (try simp only [List.length_cons]); omega

theorem assignment_mirrors (room : Allowance) (tokens : List Token) :
    Mirrors text place (Expr.map text place) (assignment room) (assignment room) tokens := by
  rw [assignment_eq]
  refine .andThen (tier_mirrors room 1 tokens) fun target rest read => ?_
  obtain ⟨shorter, -⟩ := Outcome.answer_eq_ok read
  cases target with
  | ident name position =>
    refine .takeKind (fun sign more split _ => ?_) (.done rfl)
    subst split
    exact .nested fun room => .andThen (assignment_mirrors room more) fun _ _ _ => .done rfl
  | _ => exact .refuse (fun _ => rfl) (.done rfl)
termination_by 16 * tokens.length + 9
decreasing_by all_goals subst_vars; simp only [List.length_cons, unaryStrength] at *; omega

theorem tier_mirrors (room : Allowance) (strength : Nat) (tokens : List Token) :
    Mirrors text place (Expr.map text place) (tier room strength) (tier room strength) tokens := by
  rw [tier_eq]
  split
  · refine .andThen (tier_mirrors room (strength + 1) tokens) fun left rest read => ?_
    obtain ⟨shorter, -⟩ := Outcome.answer_eq_ok read
    exact chain_mirrors room strength left rest
  · exact unary_mirrors room tokens
termination_by 16 * tokens.length + 3 + (unaryStrength - strength)
decreasing_by all_goals omega

theorem chain_mirrors (room : Allowance) (strength : Nat) (left : Expr) (tokens : List Token) :
    Mirrors text place (Expr.map text place) (chain room strength left)
      (chain room strength (left.map text place)) tokens := by
  rw [chain_eq, chain_eq]
  refine .takeIf (fun operator sign more split _ => ?_) (.done rfl)
  subst split
  refine .andThen (tier_mirrors room (strength + 1) more) fun right rest read => ?_
  obtain ⟨shorter, -⟩ := Outcome.answer_eq_ok read
  have further := chain_mirrors room strength (.operation operator left right sign.position) rest
  rwa [Expr.map_operation] at further
termination_by 16 * tokens.length
decreasing_by all_goals subst_vars; simp only [List.length_cons, unaryStrength]; omega

theorem unary_mirrors (room : Allowance) (tokens : List Token) :
    Mirrors text place (Expr.map text place) (unary room) (unary room) tokens := by
  rw [unary_eq]
  refine .takeIf (fun operator sign more split _ => ?_) (operand_mirrors room tokens)
  subst split
  exact .nested fun room => .andThen (unary_mirrors room more) fun _ _ _ => .done rfl
termination_by 16 * tokens.length + 2
decreasing_by all_goals subst_vars; (try simp only [List.length_cons]); omega

theorem operand_mirrors (room : Allowance) (tokens : List Token) :
    Mirrors text place (Expr.map text place) (operand room) (operand room) tokens := by
  rw [operand_eq]
  refine .andThen (primary_mirrors room tokens) fun value rest _ => ?_
  cases value with
  | ident name position => exact .takeIf (fun _ _ _ _ _ => .done rfl) (.done rfl)
  | _ => exact .refuse (fun _ => rfl) (.done rfl)
termination_by 16 * tokens.length + 1
decreasing_by omega

theorem primary_mirrors (room : Allowance) (tokens : List Token) :
    Mirrors text place (Expr.map text place) (primary room) (primary room) tokens := by
  rw [primary_eq]
  refine .takeIf (fun _ token _ _ _ => .done rfl) (.takeKind (fun name behind split _ => ?_)
    (.takeKind (fun opener behind split _ => ?_) (.fail rfl)))
  · subst split
    refine .takeKind (fun opener rest split _ => ?_) (.done rfl)
    subst split
    exact .andThen (arguments_mirrors room rest) fun values _ _ =>
      .done (congrArg (Expr.call _ · _) (Expr.mapList_eq_map text place values))
  · subst split
    exact .andThen (expression_mirrors room behind) fun _ _ _ =>
      .andThen .expect fun _ _ _ => .done rfl
termination_by 16 * tokens.length
decreasing_by all_goals subst_vars; simp only [List.length_cons]; omega

theorem arguments_mirrors (room : Allowance) (tokens : List Token) :
    Mirrors text place (List.map (Expr.map text place)) (arguments room) (arguments room)
      tokens := by
  rw [arguments_eq]
  exact .takeKind (fun _ _ _ _ => .done rfl) (moreArguments_mirrors room [] tokens)
termination_by 16 * tokens.length + 12
decreasing_by omega

theorem moreArguments_mirrors (room : Allowance) (before : List Expr) (tokens : List Token) :
    Mirrors text place (List.map (Expr.map text place)) (moreArguments room before)
      (moreArguments room (before.map (Expr.map text place))) tokens := by
  rw [moreArguments_eq, moreArguments_eq]
  refine .andThen (expression_mirrors room tokens) fun value rest read => ?_
  obtain ⟨shorter, -⟩ := Outcome.answer_eq_ok read
  refine .takeKind (fun comma more split _ => ?_) (.andThen .expect fun _ _ _ => .done (by simp))
  subst split
  exact moreArguments_mirrors room (value :: before) more
termination_by 16 * tokens.length + 11
decreasing_by all_goals subst_vars; simp only [List.length_cons] at *; omega

end

end Reader

end YalSyntax
