import YalSyntax.Proofs.Rendering
import YalSyntax.Proofs.Grammar.Opening

namespace YalSyntax

open Grammar

/-- The tokens begin with tokens of these kinds and texts and leave `rest` behind them. -/
def Spells : List Token → List (Token.Kind × String) → List Token → Prop
  | tokens, [], rest => tokens = rest
  | tokens, (kind, text) :: words, rest =>
    ∃ first more, tokens = first :: more ∧ first.kind = kind ∧ first.text = text ∧
      Spells more words rest

namespace Spells

theorem of_map {tokens : List Token} {words : List (Token.Kind × String)}
    (same : tokens.map Token.spelled = words) : Spells tokens words [] := by
  subst same
  induction tokens with
  | nil => rfl
  | cons first more further => exact ⟨first, more, rfl, rfl, rfl, further⟩

theorem cons {tokens rest : List Token} {kind : Token.Kind} {text : String}
    {words : List (Token.Kind × String)} (spells : Spells tokens ((kind, text) :: words) rest) :
    ∃ first more, tokens = first :: more ∧ first.kind = kind ∧ first.text = text ∧
      Spells more words rest :=
  spells

theorem single {tokens rest : List Token} {kind : Token.Kind} {text : String}
    (spells : Spells tokens [(kind, text)] rest) :
    ∃ first, tokens = first :: rest ∧ first.kind = kind ∧ first.text = text := by
  obtain ⟨first, more, rfl, isKind, isText, rfl⟩ := spells
  exact ⟨first, rfl, isKind, isText⟩

theorem append {front words : List (Token.Kind × String)} {tokens rest : List Token}
    (spells : Spells tokens (front ++ words) rest) :
    ∃ middle, Spells tokens front middle ∧ Spells middle words rest := by
  induction front generalizing tokens with
  | nil => exact ⟨tokens, rfl, spells⟩
  | cons word front further =>
    obtain ⟨first, more, rfl, isKind, isText, others⟩ := spells
    obtain ⟨middle, before, after⟩ := further others
    exact ⟨middle, ⟨first, more, rfl, isKind, isText, before⟩, after⟩

end Spells

namespace Expr

def unplaced (value : Expr) : Expr := value.map id fun _ => .start

theorem unplaced_operation (operator : Operator) (left right : Expr) (position : Position) :
    (operation operator left right position).unplaced =
      operation operator left.unplaced right.unplaced .start := by
  cases operator <;> rfl

theorem unplaced_call (name : String) (arguments : List Expr) (position : Position) :
    (call name arguments position).unplaced = call name (arguments.map unplaced) .start := by
  simp only [unplaced, map, mapList_eq_map, id]
  rfl

theorem written_operation (operator : Operator) (left right : Expr) (position : Position) :
    ∃ text, (operation operator left right position).written =
      left.written ++ (operator.kind, text) :: right.written := by
  cases operator <;> exact ⟨_, by rw [operation, written]; rfl⟩

end Expr

theorem endsValue_of_same {closer other : Token} {kind : Token.Kind} {rest behind : List Token}
    (isKind : closer.kind = kind) (isKind' : other.kind = kind) :
    EndsValue (closer :: rest) → EndsValue (other :: behind) := by
  intro ends next ahead
  obtain rfl := Option.some.inj ahead
  rw [isKind', ← isKind]
  exact ends closer rfl

theorem listed_cons {item : List (Token.Kind × String)} {others : List (List (Token.Kind × String))}
    (some : others ≠ []) : listed (item :: others) = item ++ (.comma, ",") :: listed others := by
  cases others with
  | nil => exact absurd rfl some
  | cons => rfl

theorem Grammar.MoreArguments.written_ne_nil {tokens rest : List Token} {values : List Expr}
    (derived : MoreArguments tokens values rest) : Expr.writtenEach values ≠ [] := by
  cases derived <;> simp [Expr.writtenEach]

mutual

theorem expression_again : ∀ {tokens rest : List Token} {value : Expr},
    Expression tokens value rest → ∀ {copy behind : List Token},
      Spells copy value.written behind → (EndsValue rest → EndsValue behind) →
      ∃ again : Expr, again.unplaced = value.unplaced ∧ Expression copy again behind
  | _, _, _, .valueless isReturn ends, copy, behind, spells, keeps => by
    obtain ⟨word, rfl, isKind, -⟩ := spells.single
    exact ⟨.returned none word.position, rfl, .valueless isKind (keeps ends)⟩
  | _, _, _, .returned isReturn inner, copy, behind, spells, keeps => by
    obtain ⟨word, others, rfl, isKind, -, spelled⟩ := spells.cons
    obtain ⟨again, same, derived⟩ := expression_again inner spelled keeps
    refine ⟨.returned (some again) word.position, ?_, .returned isKind derived⟩
    simpa [Expr.unplaced, Expr.map, Expr.mapOption] using same
  | _, _, _, .assignment inner, copy, behind, spells, keeps => by
    obtain ⟨again, same, derived⟩ := assignment_again inner spells
    exact ⟨again, same, .assignment derived⟩

theorem assignment_again : ∀ {tokens rest : List Token} {value : Expr},
    Assignment tokens value rest → ∀ {copy behind : List Token}, Spells copy value.written behind →
      ∃ again : Expr, again.unplaced = value.unplaced ∧ Assignment copy again behind
  | _, _, _, .assign isName isEqual inner, copy, behind, spells => by
    obtain ⟨name, others, rfl, isKind, isText, spelled⟩ := spells.cons
    obtain ⟨sign, others, rfl, isSign, -, spelled⟩ := spelled.cons
    obtain ⟨again, same, derived⟩ := assignment_again inner spelled
    refine ⟨.assign name.text again name.position, ?_, .assign isKind isSign derived⟩
    simpa [Expr.unplaced, Expr.map, isText] using same
  | _, _, _, .operation inner, copy, behind, spells => by
    obtain ⟨again, same, derived⟩ := operation_again inner spells
    exact ⟨again, same, .operation derived⟩

theorem operation_again : ∀ {strength : Nat} {tokens rest : List Token} {value : Expr},
    Operation strength tokens value rest → ∀ {copy behind : List Token},
      Spells copy value.written behind →
      ∃ again : Expr, again.unplaced = value.unplaced ∧ Operation strength copy again behind
  | _, _, _, _, @Operation.chain _ sign _ _ _ left right operator first isSign binds second,
      copy, behind, spells => by
    obtain ⟨text, whole⟩ := Expr.written_operation operator left right sign.position
    rw [whole] at spells
    obtain ⟨middle, spelled, spelled'⟩ := spells.append
    obtain ⟨sign', others, rfl, isKind, -, spelled'⟩ := spelled'.cons
    obtain ⟨again, same, derived⟩ := operation_again first spelled
    obtain ⟨again', same', derived'⟩ := operation_again second spelled'
    have binds' : sign'.kind.strength = sign.kind.strength := by rw [isKind, isSign]
    refine ⟨.operation operator again again' sign'.position, ?_,
      .chain derived isKind.symm (binds'.trans binds) derived'⟩
    rw [Expr.unplaced_operation, Expr.unplaced_operation, same, same']
  | _, _, _, _, .stronger weak inner, copy, behind, spells => by
    obtain ⟨again, same, derived⟩ := operation_again inner spells
    exact ⟨again, same, .stronger weak derived⟩
  | _, _, _, _, .unary inner, copy, behind, spells => by
    obtain ⟨again, same, derived⟩ := unary_again inner spells
    exact ⟨again, same, .unary derived⟩

theorem unary_again : ∀ {tokens rest : List Token} {value : Expr},
    Unary tokens value rest → ∀ {copy behind : List Token}, Spells copy value.written behind →
      ∃ again : Expr, again.unplaced = value.unplaced ∧ Unary copy again behind
  | _, _, _, @Unary.prefixed _ _ _ operator _ isSign inner, copy, behind, spells => by
    obtain ⟨sign, others, rfl, isKind, -, spelled⟩ := spells.cons
    obtain ⟨again, same, derived⟩ := unary_again inner spelled
    refine ⟨.prefixed operator again sign.position, ?_, .prefixed isKind.symm derived⟩
    simpa [Expr.unplaced, Expr.map] using same
  | _, _, _, .operand inner, copy, behind, spells => by
    obtain ⟨again, same, derived⟩ := operand_again inner spells
    exact ⟨again, same, .operand derived⟩

theorem operand_again : ∀ {tokens rest : List Token} {value : Expr},
    Operand tokens value rest → ∀ {copy behind : List Token}, Spells copy value.written behind →
      ∃ again : Expr, again.unplaced = value.unplaced ∧ Operand copy again behind
  | _, _, _, .suffixed isName isSign steps, copy, behind, spells => by
    obtain ⟨name, others, rfl, isKind, isText, spelled⟩ := spells.cons
    obtain ⟨sign, rfl, isKind', -⟩ := spelled.single
    refine ⟨_, ?_, .suffixed isKind isKind'.symm steps⟩
    simp [Expr.unplaced, Expr.map, isText]
  | _, _, _, .primary inner, copy, behind, spells => by
    obtain ⟨again, same, derived⟩ := primary_again inner spells
    exact ⟨again, same, .primary derived⟩

theorem primary_again : ∀ {tokens rest : List Token} {value : Expr},
    Primary tokens value rest → ∀ {copy behind : List Token}, Spells copy value.written behind →
      ∃ again : Expr, again.unplaced = value.unplaced ∧ Primary copy again behind
  | _, _, _, .literal isLiteral, copy, behind, spells => by
    obtain ⟨first, rfl, isKind, isText⟩ := spells.single
    refine ⟨.literal first, ?_, .literal (by rw [isKind]; exact isLiteral)⟩
    simp [Expr.unplaced, Expr.map, Token.map, isKind, isText]
  | _, _, _, .ident isName, copy, behind, spells => by
    obtain ⟨name, rfl, isKind, isText⟩ := spells.single
    refine ⟨.ident name.text name.position, ?_, .ident isKind⟩
    simp [Expr.unplaced, Expr.map, isText]
  | _, _, _, .call isName isOpen inner, copy, behind, spells => by
    obtain ⟨name, others, rfl, isKind, isText, spelled⟩ := spells.cons
    obtain ⟨opener, others, rfl, isKind', -, spelled⟩ := spelled.cons
    obtain ⟨again, same, derived⟩ := arguments_again inner spelled
    refine ⟨.call name.text again name.position, ?_, .call isKind isKind' derived⟩
    rw [Expr.unplaced_call, Expr.unplaced_call, same, isText]
  | _, _, _, .grouping isOpen inner isClose, copy, behind, spells => by
    obtain ⟨opener, others, rfl, isKind, -, spelled⟩ := spells.cons
    obtain ⟨middle, spelled, spelled'⟩ := spelled.append
    obtain ⟨closer, rfl, isKind', -⟩ := spelled'.single
    obtain ⟨again, same, derived⟩ :=
      expression_again inner spelled (endsValue_of_same isClose isKind')
    refine ⟨.grouping again opener.position, ?_, .grouping isKind derived isKind'⟩
    simpa [Expr.unplaced, Expr.map] using same

theorem arguments_again : ∀ {tokens rest : List Token} {values : List Expr},
    Arguments tokens values rest → ∀ {copy behind : List Token},
      Spells copy (listed (Expr.writtenEach values)) behind →
      ∃ again : List Expr, again.map Expr.unplaced = values.map Expr.unplaced ∧
        Arguments copy again behind
  | _, _, _, .empty isClose, copy, behind, spells => by
    obtain ⟨closer, rfl, isKind, -⟩ := spells.single
    exact ⟨[], rfl, .empty isKind⟩
  | _, _, _, .listed inner, copy, behind, spells => by
    obtain ⟨again, same, derived⟩ := moreArguments_again inner spells
    exact ⟨again, same, .listed derived⟩

theorem moreArguments_again : ∀ {tokens rest : List Token} {values : List Expr},
    MoreArguments tokens values rest → ∀ {copy behind : List Token},
      Spells copy (listed (Expr.writtenEach values)) behind →
      ∃ again : List Expr, again.map Expr.unplaced = values.map Expr.unplaced ∧
        MoreArguments copy again behind
  | _, _, _, .last inner isClose, copy, behind, spells => by
    obtain ⟨middle, spelled, spelled'⟩ := spells.append
    obtain ⟨closer, rfl, isKind, -⟩ := spelled'.single
    obtain ⟨again, same, derived⟩ :=
      expression_again inner spelled (endsValue_of_same isClose isKind)
    exact ⟨[again], by simp [same], .last derived isKind⟩
  | _, _, _, .more inner isComma others, copy, behind, spells => by
    rw [Expr.writtenEach, listed_cons others.written_ne_nil] at spells
    obtain ⟨middle, spelled, spelled'⟩ := spells.append
    obtain ⟨comma, back, rfl, isKind, -, spelled'⟩ := spelled'.cons
    obtain ⟨again, same, derived⟩ :=
      expression_again inner spelled (endsValue_of_same isComma isKind)
    obtain ⟨again', same', derived'⟩ := moreArguments_again others spelled'
    exact ⟨again :: again', by simp [same, same'], .more derived isKind derived'⟩

end

end YalSyntax
