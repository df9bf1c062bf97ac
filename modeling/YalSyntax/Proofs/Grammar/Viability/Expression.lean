import YalSyntax.Proofs.Grammar.Soundness.Expression
import YalSyntax.Proofs.Grammar.Viability
import YalSyntax.Proofs.Reader.Expression

namespace YalSyntax

open Grammar Phrase

namespace Grammar

def someName : Token := ⟨.identifier, "x", .start⟩

theorem Operation.of_unary {strength : Nat} {tokens rest : List Token} {value : Expr}
    (weak : strength ≤ unaryStrength) (inner : Unary tokens value rest) :
    Operation strength tokens value rest := by
  by_cases strongest : strength = unaryStrength
  · subst strongest
    exact .unary inner
  · exact .stronger (by omega) (of_unary (by omega) inner)
termination_by unaryStrength - strength

theorem Primary.some_name (rest : List Token) :
    Primary (someName :: rest) (.ident "x" .start) rest := .ident rfl

theorem Unary.some_name (rest : List Token) : Unary (someName :: rest) (.ident "x" .start) rest :=
  .operand (.primary (.some_name rest))

theorem Operation.some_name {strength : Nat} (weak : strength ≤ unaryStrength) (rest : List Token) :
    Operation strength (someName :: rest) (.ident "x" .start) rest := .of_unary weak (.some_name rest)

theorem Assignment.some_name (rest : List Token) :
    Assignment (someName :: rest) (.ident "x" .start) rest := .operation (.some_name (by decide) rest)

theorem Expression.some_name (rest : List Token) :
    Expression (someName :: rest) (.ident "x" .start) rest := .assignment (.some_name rest)

theorem viable_of_name {α : Type} {rule : List Token → α → List Token → Prop} {value : α}
    (single : ∀ rest, rule (someName :: rest) value rest) : (Phrase.of rule).Viable [] :=
  .of_tokens [someName] (by decide) fun rest => ⟨value, single rest⟩

theorem viable_expression : (Phrase.of Expression).Viable [] := viable_of_name .some_name

/-- The signs and operands of one strength behind the first operand. -/
inductive Links (strength : Nat) : Phrase
  | none {tokens : List Token} : Links strength tokens tokens
  | more {sign : Token} {tokens middle rest : List Token} {operator : Operator} {right : Expr}
      (isSign : operator.kind = sign.kind) (binds : sign.kind.strength = strength)
      (operand : Operation (strength + 1) tokens right middle) (others : Links strength middle rest) :
      Links strength (sign :: tokens) rest

theorem viable_links (strength : Nat) : (Links strength).Viable [] :=
  .of_tokens [] nofun fun _ => .none

theorem Operation.of_links {strength : Nat} {tokens middle rest : List Token} {left : Expr}
    (first : Operation strength tokens left middle) (links : Links strength middle rest) :
    Phrase.of (Operation strength) tokens rest := by
  induction links generalizing left with
  | none => exact ⟨left, first⟩
  | more isSign binds operand _ further => exact further (.chain first isSign binds operand)

def ArgumentsEnd : Phrase := fun tokens rest =>
  Phrase.token .rightParen tokens rest ∨
    ∃ comma more, tokens = comma :: more ∧ comma.kind = .comma ∧ Phrase.of MoreArguments more rest

theorem MoreArguments.of_end {tokens middle rest : List Token}
    (first : Phrase.of Expression tokens middle) (ends : ArgumentsEnd middle rest) :
    Phrase.of MoreArguments tokens rest := by
  obtain ⟨value, first⟩ := first
  rcases ends with ⟨closer, rfl, isClose⟩ | ⟨comma, more, rfl, isComma, values, others⟩
  · exact ⟨_, .last first isClose⟩
  · exact ⟨_, .more first isComma others⟩

theorem viable_argumentsEnd : ArgumentsEnd.Viable [] :=
  (Viable.token (by decide : Token.Kind.rightParen ≠ .finish)).imp .inl

end Grammar

namespace Reader

theorem endsValue_of_head {rest others : List Token}
    (ends : endsValue (rest.head?.map (·.kind)) = true) (same : others.head? = rest.head?) :
    EndsValue others := by
  rw [← same, ← valueless_eq] at ends
  exact Reading.valueless_eq_true_iff.mp ends

mutual

theorem expression_follows (room : Allowance) (tokens : List Token) :
    Follows (Phrase.of Expression) (expression room) tokens := by
  rw [expression_eq]
  refine .nested fun room => .takeKind (fun word rest split isReturn => ?_) fun _ => ?_
  · subst split
    have value : ∀ {tokens rest}, Phrase.of Expression tokens rest →
        (Phrase.of Expression).after [word] tokens rest :=
      fun ⟨_, inner⟩ => ⟨_, .returned isReturn inner⟩
    refine .branch (fun ends => .done (fun others same => ?_) (viable_expression.imp value)) fun _ => ?_
    · exact ⟨_, .valueless isReturn (endsValue_of_head ends same)⟩
    · exact (expression_follows room rest).andThen_done.imp value
  · exact (assignment_follows room tokens).imp fun ⟨_, inner⟩ => ⟨_, .assignment inner⟩
termination_by 16 * tokens.length + 10
decreasing_by all_goals subst_vars; (try simp only [List.length_cons]); omega

theorem assignment_follows (room : Allowance) (tokens : List Token) :
    Follows (Phrase.of Assignment) (assignment room) tokens := by
  rw [assignment_eq]
  have operation : ∀ {tokens rest}, Phrase.of (Operation 1) tokens rest →
      Phrase.of Assignment tokens rest := fun ⟨_, inner⟩ => ⟨_, .operation inner⟩
  refine .andThen_cases (tier_follows room 1 tokens (by decide)) (.imp · operation)
    fun target used rest read split stays viable => ?_
  have complete : Follows ((Phrase.of Assignment).after used) (done target) rest :=
    .done (fun others same => operation (stays others same))
      (Viable.after_iff.mpr (by simpa using viable.imp operation))
  cases target with
  | ident name position =>
    obtain ⟨shorter, read⟩ := Outcome.answer_eq_ok read
    have operand := Reading.tier_sound room 1 tokens (by decide) read
    obtain ⟨token, same, isName, rfl, rfl⟩ := operand.of_ident rfl
    obtain rfl : used = [token] := List.append_cancel_right (split.symm.trans same)
    refine .takeKind (fun sign more split' isEqual => ?_) fun _ => complete
    have fewer : more.length < rest.length := by simp [split']
    exact .nested fun room => (assignment_follows room more).andThen_done.imp
      fun ⟨_, inner⟩ => ⟨_, .assign isName isEqual inner⟩
  | _ =>
    exact .refuse (fun sign rest => ⟨sign, rfl, rfl⟩)
      (Viable.after_iff.mpr (by simpa using viable.imp operation)) complete
termination_by 16 * tokens.length + 9
decreasing_by all_goals (try simp only [unaryStrength]); omega

theorem tier_follows (room : Allowance) (strength : Nat) (tokens : List Token)
    (weak : strength ≤ unaryStrength) :
    Follows (Phrase.of (Operation strength)) (tier room strength) tokens := by
  rw [tier_eq]
  split
  · rename_i weaker
    refine (Follows.andThen (tier_follows room (strength + 1) tokens weaker)
      (fun left rest read => ?_) (viable_links strength)).imp ?_
    · obtain ⟨shorter, -⟩ := Outcome.answer_eq_ok read
      exact chain_follows room strength left rest weaker
    · rintro tokens rest ⟨middle, ⟨left, first⟩, links⟩
      exact Operation.of_links (.stronger weaker first) links
  · obtain rfl : strength = unaryStrength := by omega
    exact (unary_follows room tokens).imp fun ⟨_, inner⟩ => ⟨_, .unary inner⟩
termination_by 16 * tokens.length + 3 + (unaryStrength - strength)
decreasing_by all_goals omega

theorem chain_follows (room : Allowance) (strength : Nat) (left : Expr) (tokens : List Token)
    (weak : strength < unaryStrength) :
    Follows (Links strength) (chain room strength left) tokens := by
  rw [chain_eq]
  refine .takeIf (fun operator sign more split isOperator => ?_) fun _ => .done_of fun _ => .none
  subst split
  obtain ⟨binds, isSign⟩ := Operator.ofStrength?_eq_some_iff.mp isOperator
  refine (Follows.andThen (tier_follows room (strength + 1) more weak)
    (fun right rest read => ?_) (viable_links strength)).imp ?_
  · obtain ⟨shorter, -⟩ := Outcome.answer_eq_ok read
    exact chain_follows room strength _ rest weak
  · rintro tokens rest ⟨middle, ⟨right, operand⟩, links⟩
    exact Links.more isSign binds operand links
termination_by 16 * tokens.length
decreasing_by all_goals subst_vars; simp only [List.length_cons, unaryStrength]; omega

theorem unary_follows (room : Allowance) (tokens : List Token) :
    Follows (Phrase.of Unary) (unary room) tokens := by
  rw [unary_eq]
  refine .takeIf (fun operator sign more split isOperator => ?_) fun _ => ?_
  · subst split
    exact .nested fun room => (unary_follows room more).andThen_done.imp
      fun ⟨_, inner⟩ => ⟨_, .prefixed (UnaryOp.ofKind?_eq_some_iff.mp isOperator) inner⟩
  · exact (operand_follows room tokens).imp fun ⟨_, inner⟩ => ⟨_, .operand inner⟩
termination_by 16 * tokens.length + 2
decreasing_by all_goals subst_vars; (try simp only [List.length_cons]); omega

theorem operand_follows (room : Allowance) (tokens : List Token) :
    Follows (Phrase.of Operand) (operand room) tokens := by
  rw [operand_eq]
  have primary : ∀ {tokens rest}, Phrase.of Primary tokens rest → Phrase.of Operand tokens rest :=
    fun ⟨_, inner⟩ => ⟨_, .primary inner⟩
  refine .andThen_cases (primary_follows room tokens) (.imp · primary)
    fun value used rest read split stays viable => ?_
  have complete : Follows ((Phrase.of Operand).after used) (done value) rest :=
    .done (fun others same => primary (stays others same))
      (Viable.after_iff.mpr (by simpa using viable.imp primary))
  cases value with
  | ident name position =>
    obtain ⟨shorter, read⟩ := Outcome.answer_eq_ok read
    obtain ⟨token, same, isName, rfl, rfl⟩ := (Reading.primary_sound room tokens read).of_ident
    obtain rfl : used = [token] := List.append_cancel_right (split.symm.trans same)
    refine .takeIf (fun operator sign more split' isStep => ?_) fun _ => complete
    obtain ⟨isSign, steps⟩ := UnaryOp.step?_eq_some_iff.mp isStep
    exact .done_of fun _ => ⟨_, .suffixed isName isSign steps⟩
  | _ =>
    exact .refuse (fun sign rest => ⟨sign, rfl, rfl, rfl⟩)
      (Viable.after_iff.mpr (by simpa using viable.imp primary)) complete
termination_by 16 * tokens.length + 1
decreasing_by omega

theorem primary_follows (room : Allowance) (tokens : List Token) :
    Follows (Phrase.of Primary) (primary room) tokens := by
  rw [primary_eq]
  refine .takeIf (fun _ token rest _ isLiteral => ?_) fun _ =>
    .takeKind (fun name behind split isName => ?_) fun _ =>
    .takeKind (fun opener behind split isOpen => ?_) fun _ => .fail rfl (viable_of_name .some_name)
  · exact .done_of fun _ => ⟨_, .literal (Option.guard_eq_some_iff.mp isLiteral).2⟩
  · subst split
    refine .takeKind (fun opener rest split isOpen => ?_) fun _ => .done_of fun _ => ⟨_, .ident isName⟩
    subst split
    exact (arguments_follows room rest).andThen_done.imp
      fun ⟨_, inner⟩ => ⟨_, .call isName isOpen inner⟩
  · subst split
    refine (Follows.andThen (expression_follows room behind)
      (fun inner rest _ => (Follows.expect (by decide)).andThen_done)
      (.token (by decide : Token.Kind.rightParen ≠ .finish))).imp ?_
    rintro tokens rest ⟨middle, ⟨value, inner⟩, closer, rfl, isClose⟩
    exact ⟨_, .grouping isOpen inner isClose⟩
termination_by 16 * tokens.length
decreasing_by all_goals subst_vars; simp only [List.length_cons]; omega

theorem arguments_follows (room : Allowance) (tokens : List Token) :
    Follows (Phrase.of Arguments) (arguments room) tokens := by
  rw [arguments_eq]
  refine .takeKind (fun closer rest _ isClose => .done_of fun _ => ⟨_, .empty isClose⟩) fun _ => ?_
  exact (moreArguments_follows room [] tokens).imp fun ⟨_, inner⟩ => ⟨_, .listed inner⟩
termination_by 16 * tokens.length + 12
decreasing_by omega

theorem moreArguments_follows (room : Allowance) (before : List Expr) (tokens : List Token) :
    Follows (Phrase.of MoreArguments) (moreArguments room before) tokens := by
  rw [moreArguments_eq]
  refine (Follows.andThen (expression_follows room tokens) (fun value rest read => ?_)
    viable_argumentsEnd).imp fun ⟨_, first, ends⟩ => MoreArguments.of_end first ends
  obtain ⟨shorter, -⟩ := Outcome.answer_eq_ok read
  refine .takeKind (fun comma more split isComma => ?_) fun _ => ?_
  · subst split
    exact (moreArguments_follows room (value :: before) more).imp
      fun inner => .inr ⟨comma, _, rfl, isComma, inner⟩
  · exact (Follows.expect (by decide)).andThen_done.imp .inl
termination_by 16 * tokens.length + 11
decreasing_by all_goals subst_vars; (try simp only [List.length_cons] at *); omega

end

end Reader

end YalSyntax
