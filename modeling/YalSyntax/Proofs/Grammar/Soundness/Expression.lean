import YalSyntax.Proofs.Grammar
import YalSyntax.Proofs.Outcome
import YalSyntax.Proofs.Tiers

namespace YalSyntax

theorem UnaryOp.step?_eq_some_iff {kind : Token.Kind} {operator : UnaryOp} :
    step? kind = some operator ↔
      operator.kind = kind ∧ (operator = .increment ∨ operator = .decrement) := by
  constructor
  · intro found
    cases kind <;> cases found <;> simp [UnaryOp.kind]
  · intro known
    obtain ⟨rfl, rfl | rfl⟩ := known <;> rfl

namespace Grammar

/-- The tokens before `rest` are the one name of a variable. -/
def IsName (tokens : List Token) (text : String) (position : Position) (rest : List Token) : Prop :=
  ∃ name, tokens = name :: rest ∧ name.kind = .identifier ∧ name.text = text ∧
    name.position = position

theorem Primary.of_ident {tokens rest : List Token} {text : String} {position : Position}
    (derived : Primary tokens (.ident text position) rest) : IsName tokens text position rest := by
  cases derived with
  | @ident name _ isName => exact ⟨name, rfl, isName, rfl, rfl⟩

theorem Unary.of_ident {tokens rest : List Token} {text : String} {position : Position}
    (derived : Unary tokens (.ident text position) rest) : IsName tokens text position rest := by
  cases derived with
  | operand inner =>
    cases inner with
    | primary inner => exact inner.of_ident

theorem Operation.of_ident {text : String} {position : Position} :
    ∀ {strength : Nat} {tokens rest : List Token} {value : Expr},
      Operation strength tokens value rest → value = .ident text position →
        IsName tokens text position rest
  | _, _, _, _, @Operation.chain _ _ _ _ _ _ _ operator _ _ _ _, same => by
    cases operator <;> cases same
  | _, _, _, _, .stronger _ inner, same => inner.of_ident same
  | _, _, _, _, .unary inner, same => by subst same; exact inner.of_ident

end Grammar

namespace Reading

open Grammar Nesting

theorem nextIs_eq_true_iff {kind : Token.Kind} {tokens : List Token} :
    nextIs kind tokens = true ↔ ∃ next more, tokens = next :: more ∧ next.kind = kind := by
  cases tokens <;> simp [nextIs]

theorem valueless_eq_true_iff {tokens : List Token} : valueless tokens = true ↔ EndsValue tokens := by
  cases tokens <;> simp [valueless, nextIs, EndsValue]

mutual

theorem expression_sound (room : Allowance) (tokens : List Token) {value : Expr}
    {rest : List Token} {shorter : rest.length < tokens.length}
    (read : expression room tokens = .ok value rest shorter) : Expression tokens value rest := by
  rw [expression] at read
  simp only [andThen_room, level_room, nested_room] at read
  obtain ⟨inner, -, read⟩ := Outcome.nested_eq_ok read
  cases tokens with
  | nil => exact .assignment (assignment_sound inner [] read)
  | cons word more =>
    dsimp only at read
    split at read
    · rename_i isReturn
      split at read
      · rename_i ends
        cases read
        exact .valueless isReturn (valueless_eq_true_iff.mp ends)
      · obtain ⟨result, middle, within, found, read⟩ := Outcome.andThen_eq_ok read
        cases read
        exact .returned isReturn (expression_sound inner more found)
    · exact .assignment (assignment_sound inner (word :: more) read)
termination_by 16 * tokens.length + 10
decreasing_by all_goals subst_vars; simp only [List.length_cons, List.length_nil]; omega

theorem assignment_sound (room : Allowance) (tokens : List Token) {value : Expr}
    {rest : List Token} {shorter : rest.length < tokens.length}
    (read : assignment room tokens = .ok value rest shorter) : Assignment tokens value rest := by
  rw [assignment] at read
  simp only [andThen_room, level_room, nested_room] at read
  obtain ⟨target, middle, within, found, read⟩ := Outcome.andThen_eq_ok read
  have operation := tier_sound room 1 tokens (by decide) found
  split at read
  · cases read
    exact .operation operation
  · rename_i sign more _
    split at read
    · rename_i isEqual
      split at read
      · rename_i name position _
        obtain ⟨inner, -, read⟩ := Outcome.nested_eq_ok read
        obtain ⟨result, last, within, assigned, read⟩ := Outcome.andThen_eq_ok read
        cases read
        obtain ⟨token, same, isName, rfl, rfl⟩ := operation.of_ident rfl
        subst same
        exact .assign isName isEqual (assignment_sound inner more assigned)
      · cases read
    · cases read
      exact .operation operation
termination_by 16 * tokens.length + 9
decreasing_by all_goals subst_vars; simp only [List.length_cons, unaryStrength]; omega

theorem tier_sound (room : Allowance) (strength : Nat) (tokens : List Token) {value : Expr}
    {rest : List Token} {shorter : rest.length < tokens.length} (weak : strength ≤ unaryStrength)
    (read : tier room strength tokens = .ok value rest shorter) :
    Operation strength tokens value rest := by
  rw [tier_eq] at read
  simp only [andThen_room] at read
  split at read
  · rename_i weak
    obtain ⟨left, middle, within, found, read⟩ := Outcome.andThen_eq_ok read
    exact chain_sound room strength left middle within weak read
      (.stronger weak (tier_sound room (strength + 1) tokens weak found))
  · have strongest : strength = unaryStrength := by omega
    subst strongest
    exact .unary (unary_sound room tokens read)
termination_by 16 * tokens.length + 3 + (unaryStrength - strength)
decreasing_by all_goals omega

theorem chain_sound (room : Allowance) (strength : Nat) {bound : Nat} (left : Expr)
    (tokens : List Token) (within : tokens.length < bound) {start : List Token} {value : Expr}
    {rest : List Token} {shorter : rest.length < bound} (weak : strength < unaryStrength)
    (read : chain room strength left tokens within = .ok value rest shorter)
    (before : Operation strength start left tokens) : Operation strength start value rest := by
  rw [chain_eq] at read
  simp only [andThen_room, level_room] at read
  split at read
  · cases read
    exact before
  · rename_i sign more _
    split at read
    · cases read
      exact before
    · rename_i operator isOperator
      obtain ⟨binds, isSign⟩ := Operator.ofStrength?_eq_some_iff.mp isOperator
      obtain ⟨right, middle, within, found, read⟩ := Outcome.andThen_eq_ok read
      exact chain_sound room strength _ middle _ weak read
        (.chain before isSign binds (tier_sound room (strength + 1) more weak found))
termination_by 16 * tokens.length
decreasing_by all_goals subst_vars; simp only [List.length_cons, unaryStrength]; omega

theorem unary_sound (room : Allowance) (tokens : List Token) {value : Expr}
    {rest : List Token} {shorter : rest.length < tokens.length}
    (read : unary room tokens = .ok value rest shorter) : Unary tokens value rest := by
  rw [unary.eq_def] at read
  simp only [andThen_room, level_room, nested_room] at read
  cases tokens with
  | nil => exact .operand (operand_sound room [] read)
  | cons sign more =>
    dsimp only at read
    split at read
    · exact .operand (operand_sound room (sign :: more) read)
    · rename_i operator isOperator
      obtain ⟨inner, -, read⟩ := Outcome.nested_eq_ok read
      obtain ⟨result, middle, within, found, read⟩ := Outcome.andThen_eq_ok read
      cases read
      exact .prefixed (UnaryOp.ofKind?_eq_some_iff.mp isOperator) (unary_sound inner more found)
termination_by 16 * tokens.length + 2
decreasing_by all_goals subst_vars; simp only [List.length_cons, List.length_nil]; omega

theorem operand_sound (room : Allowance) (tokens : List Token) {value : Expr}
    {rest : List Token} {shorter : rest.length < tokens.length}
    (read : operand room tokens = .ok value rest shorter) : Operand tokens value rest := by
  rw [operand] at read
  simp only [andThen_room, level_room] at read
  obtain ⟨result, middle, within, found, read⟩ := Outcome.andThen_eq_ok read
  have inner := primary_sound room tokens found
  split at read
  · cases read
    exact .primary inner
  · rename_i sign more _
    split at read
    · cases read
      exact .primary inner
    · rename_i operator isStep
      obtain ⟨isSign, steps⟩ := UnaryOp.step?_eq_some_iff.mp isStep
      split at read
      · cases read
        obtain ⟨name, same, isName, rfl, rfl⟩ := inner.of_ident
        subst same
        exact .suffixed isName isSign steps
      · cases read
termination_by 16 * tokens.length + 1
decreasing_by omega

theorem primary_sound (room : Allowance) (tokens : List Token) {value : Expr}
    {rest : List Token} {shorter : rest.length < tokens.length}
    (read : primary room tokens = .ok value rest shorter) : Primary tokens value rest := by
  rw [primary.eq_def] at read
  simp only [andThen_room, level_room] at read
  cases tokens with
  | nil => cases read
  | cons first more =>
    dsimp only at read
    split at read
    · rename_i isLiteral
      cases read
      exact .literal isLiteral
    · split at read
      · rename_i isName
        split at read
        · cases read
          exact .ident isName
        · rename_i behind fewer skipped
          obtain ⟨opener, same, isOpen⟩ := skip?_eq_some skipped
          obtain ⟨values, middle, within, found, read⟩ := Outcome.andThen_eq_ok read
          cases read
          subst same
          exact .call isName isOpen (arguments_sound room behind found)
      · split at read
        · rename_i isOpen
          obtain ⟨inner, middle, within, found, read⟩ := Outcome.andThen_eq_ok read
          obtain ⟨closer, last, within, closed, read⟩ := Outcome.andThen_eq_ok read
          obtain ⟨same, isClose⟩ := expect_eq_ok closed
          cases read
          subst same
          exact .grouping isOpen (expression_sound room more found) isClose
        · cases read
termination_by 16 * tokens.length
decreasing_by all_goals subst_vars; simp only [List.length_cons]; omega

theorem arguments_sound (room : Allowance) (tokens : List Token) {values : List Expr}
    {rest : List Token} {shorter : rest.length < tokens.length}
    (read : arguments room tokens = .ok values rest shorter) : Arguments tokens values rest := by
  rw [arguments] at read
  simp only [level_room] at read
  split at read
  · rename_i skipped
    obtain ⟨closer, rfl, isClose⟩ := skip?_eq_some skipped
    cases read
    exact .empty isClose
  · obtain ⟨others, same, inner⟩ := moreArguments_sound room [] tokens _ read
    subst same
    exact .listed inner
termination_by 16 * tokens.length + 12
decreasing_by omega

theorem moreArguments_sound (room : Allowance) {bound : Nat} (before : List Expr)
    (tokens : List Token) (within : tokens.length ≤ bound) {values : List Expr}
    {rest : List Token} {shorter : rest.length < bound}
    (read : moreArguments room before tokens within = .ok values rest shorter) :
    ∃ others, values = before.reverse ++ others ∧ MoreArguments tokens others rest := by
  rw [moreArguments] at read
  simp only [andThen_room, level_room] at read
  obtain ⟨value, middle, fewer, found, read⟩ := Outcome.andThen_eq_ok read
  have inner := expression_sound room tokens found
  split at read
  · rename_i behind fewest skipped
    obtain ⟨comma, rfl, isComma⟩ := skip?_eq_some skipped
    have fewer' : behind.length + 1 < tokens.length := fewer
    obtain ⟨others, rfl, derived⟩ := moreArguments_sound room _ behind _ read
    exact ⟨value :: others, by simp, .more inner isComma derived⟩
  · obtain ⟨closer, last, _, closed, read⟩ := Outcome.andThen_eq_ok read
    obtain ⟨rfl, isClose⟩ := expect_eq_ok closed
    cases read
    exact ⟨[value], by simp, .last inner isClose⟩
termination_by 16 * tokens.length + 11
decreasing_by all_goals omega

end

end Reading

end YalSyntax
