import Mathlib
import YalSyntax.Proofs.Grammar.Surroundings
import YalSyntax.Proofs.Grammar.Viability.Expression
import YalSyntax.Proofs.Juxtaposition
import YalSyntax.Proofs.Shape

namespace YalSyntax

open Grammar Reading

namespace Grammar

theorem Expression.isReturn_iff {first : Token} {tokens rest : List Token} {value : Expr}
    (derived : Expression (first :: tokens) value rest) :
    value.IsReturn ↔ first.kind = .returnWord := by
  cases derived with
  | valueless isReturn => exact ⟨fun _ => isReturn, fun _ => trivial⟩
  | returned isReturn => exact ⟨fun _ => isReturn, fun _ => trivial⟩
  | assignment inner =>
    refine ⟨fun returns => absurd returns inner.not_isReturn, fun isReturn => ?_⟩
    obtain ⟨_, _, same, opens⟩ := inner.starts
    cases same
    rw [isReturn] at opens
    cases opens

end Grammar

namespace Expr

theorem asReturn_of_isReturn {value : Expr} (returns : value.IsReturn) :
    value.asReturn = value := by
  cases value <;> first | rfl | cases returns

theorem asReturn_of_not_isReturn {value : Expr} (plain : ¬ value.IsReturn) :
    value.asReturn = .returned (some value) value.position := by
  refine asReturn_of_ne fun result position same => plain ?_
  rw [same]
  exact trivial

end Expr

/-- An expression that ends at a `}`, and its place in a program. -/
structure TailAt (before used : List Token) (first closer : Token) (behind : List Token)
    (value : Expr) (context : Program.Context) : Prop where
  isClose : closer.kind = .rightBrace
  expression : Expression (first :: used ++ closer :: behind) value (closer :: behind)
  around : ProgramAround true (first :: used ++ closer :: behind) (closer :: behind)
    (before ++ (first :: used ++ closer :: behind)) context

namespace TailAt

variable {before used behind : List Token} {first closer semicolon word : Token} {value : Expr}
  {context : Program.Context}

theorem moves (tail : TailAt before used first closer behind value context) {other : List Token}
    (ends : EndsValue other) : Expression (first :: used ++ other) value other := by
  obtain ⟨taken, same, moves⟩ := tail.expression.moves
  rw [← List.append_cancel_right same] at moves
  exact moves other fun _ => ends

theorem starts (tail : TailAt before used first closer behind value context) (more : List Token) :
    StartsWith Token.Kind.opensExpression (first :: used ++ more) := by
  obtain ⟨_, _, same, opens⟩ := tail.expression.starts
  cases same
  exact ⟨first, used ++ more, rfl, opens⟩

theorem comes_closed (tail : TailAt before used first closer behind value context) :
    StatementComes (value.levels + 1) (first :: used ++ closer :: behind)
      (.expression value.asReturn first.position) (closer :: behind) :=
  comes_expression tail.expression.starts
    (expressionStatement_closed tail.expression tail.isClose)

theorem comes_ended (tail : TailAt before used first closer behind value context)
    (isEnd : semicolon.kind = .semicolon) :
    StatementComes (value.levels + 1) (first :: used ++ semicolon :: closer :: behind)
      (.expression value first.position) (closer :: behind) := by
  have ended := tail.moves (forall_head (.inl isEnd) : EndsValue (semicolon :: closer :: behind))
  exact comes_expression ended.starts (expressionStatement_ended ended isEnd)

theorem comes_returned (tail : TailAt before used first closer behind value context)
    (isEnd : semicolon.kind = .semicolon) (isReturn : word.kind = .returnWord) :
    StatementComes (value.levels + 2) (word :: (first :: used ++ semicolon :: closer :: behind))
      (.expression (.returned (some value) word.position) word.position) (closer :: behind) := by
  have ended := tail.moves (forall_head (.inl isEnd) : EndsValue (semicolon :: closer :: behind))
  have returned := Expression.returned isReturn ended
  exact comes_expression returned.starts (expressionStatement_ended returned isEnd)

theorem comes (tail : TailAt before used first closer behind value context) :
    ∃ deepen : Nat → Nat, ∀ {tokens other : List Token} {stmt : Stmt} {depth : Nat},
      content tokens = before ++ other → StartsWith Token.Kind.opensExpression other →
        StatementComes depth other stmt (closer :: behind) →
          ProgramComes (deepen depth) (content tokens) (context.fill stmt).statements := by
  obtain ⟨front, deepen, same, comes⟩ := program_around tail.around
    (tail.expression.starts.imp Token.Kind.opensStatement_of_expression)
  rw [← List.append_cancel_right same] at comes
  refine ⟨deepen, fun holds starts inner => ?_⟩
  rw [holds]
  exact comes _ (starts.imp Token.Kind.opensStatement_of_expression) inner

end TailAt

/-- An expression in the place of a statement ends with a `;`, or else it is returned and a `}`
stands behind it. -/
def EndedOrTail (tokens : List Token) (context : Program.Context) (result : Expr) : Prop :=
  ∃ before first used closer behind value,
    content tokens = before ++ (first :: used ++ closer :: behind) ∧
      (closer.kind = .semicolon ∧ result = value ∧
          Expression (first :: used ++ closer :: behind) value (closer :: behind) ∨
        TailAt before used first closer behind value context ∧ result = value.asReturn)

theorem endedOrTail_of_parseTokens {tokens : List Token} {context : Program.Context} {result : Expr}
    {position : Position}
    (read : parseTokens tokens = .ok (context.fill (.expression result position))) :
    EndedOrTail tokens context result := by
  obtain ⟨start, stop, around, here⟩ := (derives_of_parseTokens read).around_of_fill
  obtain ⟨front, -, holds, -⟩ :=
    program_around around (here.starts.imp Token.Kind.opensStatement_of_expression)
  rw [holds] at around
  rw [EndedOrTail, holds]
  cases here with
  | ended inner isEnd =>
    obtain ⟨used, rfl, -⟩ := inner.moves_closed (by rw [isEnd]; rfl)
    exact ⟨front, _, used, _, _, result, rfl, .inl ⟨isEnd, rfl, inner⟩⟩
  | returning inner isClose =>
    obtain ⟨used, rfl, -⟩ := inner.moves_closed (by rw [isClose]; rfl)
    exact ⟨front, _, used, _, _, _, rfl, .inr ⟨⟨isClose, inner, around⟩, rfl⟩⟩
  | tail allowed inner isClose plain =>
    obtain ⟨used, rfl, -⟩ := inner.moves_closed (by rw [isClose]; rfl)
    exact ⟨front, _, used, _, _, _, rfl,
      .inr ⟨⟨isClose, inner, around⟩, (Expr.asReturn_of_ne plain).symm⟩⟩

/-- An expression that ends a block, in whatever place, is returned. With a `;` behind it, it is
not, and the program is the same but for that; with a `return` before it and a `;` behind it the
program is the same again up to positions, or nested too deep. Behind an expression that begins with
a `return` the `;` changes nothing. Every expression of the program that is a statement without a `;`
is of this kind. -/
theorem tail_is_return {before used behind : List Token} {first closer semicolon word : Token}
    {value : Expr} {context : Program.Context} {program : Program}
    (plain : ∀ token ∈ before ++ first :: used, token.kind ≠ .finish)
    (isEnd : semicolon.kind = .semicolon) (isReturn : word.kind = .returnWord)
    (tail : TailAt before used first closer (content behind) value context)
    (read : parseTokens (before ++ first :: used ++ closer :: behind) = .ok program) :
    let ended := parseTokens (before ++ first :: used ++ semicolon :: closer :: behind)
    let returned := parseTokens (before ++ word :: first :: used ++ semicolon :: closer :: behind)
    (first.kind ≠ .returnWord →
      program = context.fill (.expression (.returned (some value) value.position) first.position) ∧
      ended = .ok (context.fill (.expression value first.position)) ∧
      ((∃ again, returned = .ok again ∧ again.unplaced = program.unplaced) ∨
        ∃ position, returned = .error (.tooDeep position))) ∧
    (first.kind = .returnWord → ended = .ok program) ∧
    ∀ place result position, program = place.fill (.expression result position) →
      EndedOrTail (before ++ first :: used ++ closer :: behind) place result := by
  intro ended returned
  have goesOn : content (closer :: behind) = closer :: content behind :=
    List.takeWhile_cons_of_pos (by simp [tail.isClose])
  have goesOnEnded : content (semicolon :: closer :: behind) =
      semicolon :: closer :: content behind := by
    rw [← goesOn]
    exact List.takeWhile_cons_of_pos (by simp [isEnd])
  have plainReturned : ∀ token ∈ before ++ word :: first :: used, token.kind ≠ .finish := by
    simpa [isReturn, or_imp, forall_and] using plain
  obtain ⟨deepen, comes⟩ := tail.comes
  have asRead := comes (by rw [content_plain_append plain, goesOn, List.append_assoc])
    (tail.starts _) tail.comes_closed
  have asEnded := comes (by rw [content_plain_append plain, goesOnEnded, List.append_assoc])
    (tail.starts _) (tail.comes_ended isEnd)
  have asReturned :=
    comes (by rw [content_plain_append plainReturned, goesOnEnded, List.append_assoc]; rfl)
      ⟨word, _, rfl, by rw [isReturn]; rfl⟩ (tail.comes_returned isEnd isReturn)
  -- With a `;` there are as many levels, and with a `return` as well there may be one more.
  obtain ⟨covered, same⟩ := asRead.of_parseTokens read
  have readEnded : ended = .ok (context.fill (.expression value first.position)) :=
    asEnded.parseTokens.1 covered
  refine ⟨fun other => ?_, fun isReturn => ?_, fun place result position filled => ?_⟩
  · have plain : ¬ value.IsReturn := fun returns => other (tail.expression.isReturn_iff.mp returns)
    rw [Expr.asReturn_of_not_isReturn plain] at same
    refine ⟨same, readEnded, ?_⟩
    rcases Nat.lt_or_ge nestingLimit (deepen (value.levels + 2)) with lack | covered
    · exact .inr (asReturned.parseTokens.2 lack)
    · refine .inl ⟨_, asReturned.parseTokens.1 covered, ?_⟩
      rw [same]
      refine Program.Context.unplaced_fill ?_ context
      rw [Stmt.unplaced_expression, Stmt.unplaced_expression]
      rfl
  · have returns : value.IsReturn := tail.expression.isReturn_iff.mpr isReturn
    rw [Expr.asReturn_of_isReturn returns] at same
    rw [same]
    exact readEnded
  · exact endedOrTail_of_parseTokens (filled ▸ read)

/-- `{ if (a) x }` and `{ if (a) x; }`, where the `x` is not in the block itself but at its end. -/
theorem tail_is_return_conditional :
    let before : List Token := [⟨.leftBrace, "\x7b", ⟨1, 1⟩⟩, ⟨.ifWord, "if", ⟨1, 3⟩⟩,
      ⟨.leftParen, "(", ⟨1, 6⟩⟩, ⟨.identifier, "a", ⟨1, 7⟩⟩, ⟨.rightParen, ")", ⟨1, 8⟩⟩]
    let first : Token := ⟨.identifier, "x", ⟨1, 10⟩⟩
    let closer : Token := ⟨.rightBrace, "\x7d", ⟨1, 12⟩⟩
    let semicolon : Token := ⟨.semicolon, ";", ⟨1, 11⟩⟩
    let word : Token := ⟨.returnWord, "return", ⟨1, 9⟩⟩
    let value : Expr := .ident "x" ⟨1, 10⟩
    let program (result : Expr) : Program := ⟨[.block [.conditional (.ident "a" ⟨1, 7⟩)
      (.expression result ⟨1, 10⟩) none ⟨1, 3⟩] ⟨1, 1⟩]⟩
    parseTokens (before ++ [first] ++ [closer]) = .ok (program (.returned (some value) ⟨1, 10⟩)) ∧
      parseTokens (before ++ [first] ++ [semicolon, closer]) = .ok (program value) ∧
        ((∃ again, parseTokens (before ++ [word, first] ++ [semicolon, closer]) = .ok again ∧
            again.unplaced = (program (.returned (some value) ⟨1, 10⟩)).unplaced) ∨
          ∃ position, parseTokens (before ++ [word, first] ++ [semicolon, closer]) =
            .error (.tooDeep position)) := by
  intro before first closer semicolon word value program
  have read : parseTokens (before ++ [first] ++ [closer]) =
      .ok (program (.returned (some value) ⟨1, 10⟩)) := by cbv
  have ident : ∀ {name : Token} {rest : List Token}, name.kind = .identifier →
      Expression (name :: rest) (.ident name.text name.position) rest := fun isName =>
    .assignment (.operation (.of_unary (by decide) (.operand (.primary (.ident isName)))))
  have tail : TailAt before [] first closer (content []) value
      ⟨[], .block [] (.consequent (.ident "a" ⟨1, 7⟩) .here none ⟨1, 3⟩) [] ⟨1, 1⟩, []⟩ :=
    ⟨rfl, ident rfl, .among .none
      (.block rfl .none
        (.conditional rfl (.parens rfl (ident rfl) rfl) .here (by simp [closer])) .none rfl) .none⟩
  have plain : ∀ token ∈ before ++ [first], token.kind ≠ .finish := by decide
  obtain ⟨plainly, -⟩ :=
    tail_is_return plain (rfl : semicolon.kind = _) (rfl : word.kind = _) tail read
  exact ⟨read, (plainly (by decide)).2⟩

end YalSyntax
