import YalSyntax.Proofs.Grammar.Completeness.Expression

namespace YalSyntax

namespace Grammar

mutual

theorem Expression.moves : ∀ {tokens rest : List Token} {value : Expr},
    Expression tokens value rest → ∃ used, tokens = used ++ rest ∧
      ∀ other, (EndsValue rest → EndsValue other) → Expression (used ++ other) value other
  | _, _, _, .valueless isReturn ends =>
    ⟨[_], rfl, fun _ ends' => .valueless isReturn (ends' ends)⟩
  | _, _, _, .returned isReturn inner => by
    obtain ⟨used, rfl, moves⟩ := inner.moves
    exact ⟨_ :: used, rfl, fun other ends => .returned isReturn (moves other ends)⟩
  | _, _, _, .assignment inner => by
    obtain ⟨used, rfl, moves⟩ := inner.moves
    exact ⟨used, rfl, fun other _ => .assignment (moves other)⟩

theorem Assignment.moves : ∀ {tokens rest : List Token} {value : Expr},
    Assignment tokens value rest →
      ∃ used, tokens = used ++ rest ∧ ∀ other, Assignment (used ++ other) value other
  | _, _, _, .assign isName isEqual inner => by
    obtain ⟨used, rfl, moves⟩ := inner.moves
    exact ⟨_ :: _ :: used, rfl, fun other => .assign isName isEqual (moves other)⟩
  | _, _, _, .operation inner => by
    obtain ⟨used, rfl, moves⟩ := inner.moves
    exact ⟨used, rfl, fun other => .operation (moves other)⟩

theorem Operation.moves : ∀ {strength : Nat} {tokens rest : List Token} {value : Expr},
    Operation strength tokens value rest →
      ∃ used, tokens = used ++ rest ∧ ∀ other, Operation strength (used ++ other) value other
  | _, _, _, _, @Operation.chain _ sign _ _ _ _ _ _ first isSign binds second => by
    obtain ⟨used, rfl, moves⟩ := first.moves
    obtain ⟨behind, rfl, moves'⟩ := second.moves
    refine ⟨used ++ sign :: behind, by simp, fun other => ?_⟩
    rw [List.append_assoc]
    exact .chain (moves _) isSign binds (moves' other)
  | _, _, _, _, .stronger weak inner => by
    obtain ⟨used, rfl, moves⟩ := inner.moves
    exact ⟨used, rfl, fun other => .stronger weak (moves other)⟩
  | _, _, _, _, .unary inner => by
    obtain ⟨used, rfl, moves⟩ := inner.moves
    exact ⟨used, rfl, fun other => .unary (moves other)⟩

theorem Unary.moves : ∀ {tokens rest : List Token} {value : Expr},
    Unary tokens value rest →
      ∃ used, tokens = used ++ rest ∧ ∀ other, Unary (used ++ other) value other
  | _, _, _, .prefixed isSign inner => by
    obtain ⟨used, rfl, moves⟩ := inner.moves
    exact ⟨_ :: used, rfl, fun other => .prefixed isSign (moves other)⟩
  | _, _, _, .operand inner => by
    obtain ⟨used, rfl, moves⟩ := inner.moves
    exact ⟨used, rfl, fun other => .operand (moves other)⟩

theorem Operand.moves : ∀ {tokens rest : List Token} {value : Expr},
    Operand tokens value rest →
      ∃ used, tokens = used ++ rest ∧ ∀ other, Operand (used ++ other) value other
  | _, _, _, .suffixed isName isSign steps =>
    ⟨[_, _], rfl, fun _ => .suffixed isName isSign steps⟩
  | _, _, _, .primary inner => by
    obtain ⟨used, rfl, moves⟩ := inner.moves
    exact ⟨used, rfl, fun other => .primary (moves other)⟩

theorem Primary.moves : ∀ {tokens rest : List Token} {value : Expr},
    Primary tokens value rest →
      ∃ used, tokens = used ++ rest ∧ ∀ other, Primary (used ++ other) value other
  | _, _, _, .literal isLiteral => ⟨[_], rfl, fun _ => .literal isLiteral⟩
  | _, _, _, .ident isName => ⟨[_], rfl, fun _ => .ident isName⟩
  | _, _, _, .call isName isOpen inner => by
    obtain ⟨used, rfl, moves⟩ := inner.moves
    exact ⟨_ :: _ :: used, rfl, fun other => .call isName isOpen (moves other)⟩
  | _, _, _, @Primary.grouping opener closer _ _ _ isOpen inner isClose => by
    obtain ⟨used, rfl, moves⟩ := inner.moves
    refine ⟨opener :: (used ++ [closer]), by simp, fun other => ?_⟩
    have inner := moves (closer :: other) id
    simpa using Primary.grouping isOpen inner isClose

theorem Arguments.moves : ∀ {tokens rest : List Token} {values : List Expr},
    Arguments tokens values rest →
      ∃ used, tokens = used ++ rest ∧ ∀ other, Arguments (used ++ other) values other
  | _, _, _, .empty isClose => ⟨[_], rfl, fun _ => .empty isClose⟩
  | _, _, _, .listed inner => by
    obtain ⟨used, rfl, moves⟩ := inner.moves
    exact ⟨used, rfl, fun other => .listed (moves other)⟩

theorem MoreArguments.moves : ∀ {tokens rest : List Token} {values : List Expr},
    MoreArguments tokens values rest →
      ∃ used, tokens = used ++ rest ∧ ∀ other, MoreArguments (used ++ other) values other
  | _, _, _, @MoreArguments.last closer _ _ _ inner isClose => by
    obtain ⟨used, rfl, moves⟩ := inner.moves
    refine ⟨used ++ [closer], by simp, fun other => ?_⟩
    rw [List.append_assoc]
    exact .last (moves (closer :: other) id) isClose
  | _, _, _, @MoreArguments.more comma _ _ _ _ _ inner isComma others => by
    obtain ⟨used, rfl, moves⟩ := inner.moves
    obtain ⟨behind, rfl, moves'⟩ := others.moves
    refine ⟨used ++ comma :: behind, by simp, fun other => ?_⟩
    rw [List.append_assoc]
    exact .more (moves (comma :: (behind ++ other)) id) isComma (moves' other)

end

theorem Expression.moves_closed {first closer : Token} {tokens rest : List Token} {value : Expr}
    (derived : Expression (first :: tokens) value (closer :: rest))
    (closes : closer.kind.closesExpression) :
    ∃ used, tokens = used ++ closer :: rest ∧ ∀ other,
      (EndsValue (closer :: rest) → EndsValue other) →
        Expression (first :: (used ++ other)) value other := by
  have opens : first.kind ≠ closer.kind := Reading.not_closed derived.starts closes first rfl
  obtain ⟨used, same, moves⟩ := derived.moves
  cases used with
  | nil =>
    cases same
    exact absurd rfl opens
  | cons next used =>
    cases same
    exact ⟨used, rfl, moves⟩

theorem TypeMark.moves {tokens rest : List Token} {type? : Option String}
    (derived : TypeMark tokens type? rest) :
    ∃ used, tokens = used ++ rest ∧ ∀ other, TypeMark (used ++ other) type? other := by
  cases derived with
  | absent => exact ⟨[], rfl, fun _ => .absent⟩
  | present isColon isName => exact ⟨[_, _], rfl, fun _ => .present isColon isName⟩

theorem Bound.moves {tokens rest : List Token} {name : Binding} (derived : Bound tokens name rest) :
    ∃ used, tokens = used ++ rest ∧ ∀ other, Bound (used ++ other) name other := by
  cases derived with
  | name isName mark =>
    obtain ⟨used, rfl, moves⟩ := mark.moves
    exact ⟨_ :: used, rfl, fun other => .name isName (moves other)⟩

theorem MoreParameters.moves {tokens rest : List Token} {names : List Binding}
    (derived : MoreParameters tokens names rest) :
    ∃ used, tokens = used ++ rest ∧ ∀ other, MoreParameters (used ++ other) names other := by
  induction derived with
  | @last closer _ _ _ inner isClose =>
    obtain ⟨used, rfl, moves⟩ := inner.moves
    refine ⟨used ++ [closer], by simp, fun other => ?_⟩
    rw [List.append_assoc]
    exact .last (moves (closer :: other)) isClose
  | @more comma _ _ _ _ _ inner isComma _ further =>
    obtain ⟨used, rfl, moves⟩ := inner.moves
    obtain ⟨behind, rfl, moves'⟩ := further
    refine ⟨used ++ comma :: behind, by simp, fun other => ?_⟩
    rw [List.append_assoc]
    exact .more (moves (comma :: (behind ++ other))) isComma (moves' other)

theorem Parameters.moves {tokens rest : List Token} {names : List Binding}
    (derived : Parameters tokens names rest) :
    ∃ used, tokens = used ++ rest ∧ ∀ other, Parameters (used ++ other) names other := by
  cases derived with
  | empty isClose => exact ⟨[_], rfl, fun _ => .empty isClose⟩
  | listed inner =>
    obtain ⟨used, rfl, moves⟩ := inner.moves
    exact ⟨used, rfl, fun other => .listed (moves other)⟩

theorem InitialValue.moves {tokens rest : List Token} {value : Option Expr}
    (derived : InitialValue tokens value rest) :
    ∃ used, tokens = used ++ rest ∧ ∀ other, InitialValue (used ++ other) value other := by
  cases derived with
  | absent isEnd => exact ⟨[_], rfl, fun _ => .absent isEnd⟩
  | @present sign semicolon _ _ _ isEqual inner isEnd =>
    obtain ⟨used, rfl, moves⟩ := inner.moves
    refine ⟨sign :: (used ++ [semicolon]), by simp, fun other => ?_⟩
    have inner := moves (semicolon :: other) id
    simpa using InitialValue.present isEqual inner isEnd

theorem LetDeclaration.moves {tokens rest : List Token} {stmt : Stmt}
    (derived : LetDeclaration tokens stmt rest) : ∃ used, tokens = used ++ rest ∧ used ≠ [] ∧
      ∀ other, LetDeclaration (used ++ other) stmt other := by
  cases derived with
  | @declare word _ _ _ _ _ isLet bound initial =>
    obtain ⟨used, rfl, moves⟩ := bound.moves
    obtain ⟨behind, rfl, moves'⟩ := initial.moves
    refine ⟨word :: (used ++ behind), by simp, List.cons_ne_nil _ _, fun other => ?_⟩
    have bound := moves (behind ++ other)
    simpa using LetDeclaration.declare isLet bound (moves' other)

theorem Clause.moves {close : Token.Kind} {tokens rest : List Token} {value : Option Expr}
    (derived : Clause close tokens value rest) :
    ∃ used, tokens = used ++ rest ∧ ∀ other, Clause close (used ++ other) value other := by
  cases derived with
  | absent isClose => exact ⟨[_], rfl, fun _ => .absent isClose⟩
  | @present closer _ _ _ inner isClose =>
    obtain ⟨used, rfl, moves⟩ := inner.moves
    refine ⟨used ++ [closer], by simp, fun other => ?_⟩
    rw [List.append_assoc]
    exact .present (moves (closer :: other) id) isClose

theorem Condition.moves {tokens rest : List Token} {value : Expr}
    (derived : Condition tokens value rest) :
    ∃ used, tokens = used ++ rest ∧ ∀ other, Condition (used ++ other) value other := by
  cases derived with
  | @parens opener closer _ _ _ isOpen inner isClose =>
    obtain ⟨used, rfl, moves⟩ := inner.moves
    refine ⟨opener :: (used ++ [closer]), by simp, fun other => ?_⟩
    have inner := moves (closer :: other) id
    simpa using Condition.parens isOpen inner isClose

end Grammar

end YalSyntax
