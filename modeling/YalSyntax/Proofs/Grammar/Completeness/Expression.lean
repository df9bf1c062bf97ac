import YalSyntax.Proofs.Grammar.Opening
import YalSyntax.Proofs.Grammar.Soundness.Expression
import YalSyntax.Proofs.Levels

namespace YalSyntax

namespace Token.Kind

def closesExpression : Kind → Bool
  | semicolon | rightParen | comma | rightBrace => true
  | _ => false

/-- A token of this kind does not continue an operation of a strength. -/
def Stops (strength : Nat) (kind : Kind) : Prop :=
  kind ≠ leftParen ∧ UnaryOp.step? kind = none ∧ kind.strength < strength

theorem Stops.mono {strength stronger : Nat} {kind : Kind} (stops : kind.Stops strength)
    (le : strength ≤ stronger) : kind.Stops stronger :=
  ⟨stops.1, stops.2.1, Nat.lt_of_lt_of_le stops.2.2 le⟩

theorem stops_of_closes {kind : Kind} (closes : kind.closesExpression) : kind.Stops 1 := by
  cases kind <;> first | exact ⟨by decide, rfl, by decide⟩ | cases closes

theorem ne_equal_of_closes {kind : Kind} (closes : kind.closesExpression) : kind ≠ equal := by
  intro same
  subst same
  cases closes

theorem ne_of_opens_of_closes {kind close : Kind} (opens : kind.opensExpression)
    (closes : close.closesExpression) : kind ≠ close := by
  intro same
  subst same
  cases kind <;> first | exact absurd opens (by decide) | exact absurd closes (by decide)

theorem stops_of_operator (operator : Operator) :
    operator.kind.Stops (operator.kind.strength + 1) := by
  rcases operator with operator | operator <;>
    cases operator <;> exact ⟨by decide, rfl, by decide⟩

end Token.Kind

namespace Grammar

def Closes (rest : List Token) : Prop := ∀ next ∈ rest.head?, next.kind.closesExpression

def Stops (strength : Nat) (rest : List Token) : Prop :=
  ∀ next ∈ rest.head?, next.kind.Stops strength

theorem Closes.of_kind {closer : Token} {rest : List Token} {kind : Token.Kind}
    (isClose : closer.kind = kind) (closes : kind.closesExpression) : Closes (closer :: rest) := by
  simpa [Closes, isClose] using closes

theorem Closes.stops {rest : List Token} (closes : Closes rest) : Stops 1 rest :=
  fun next isNext => Token.Kind.stops_of_closes (closes next isNext)

theorem Stops.mono {strength stronger : Nat} {rest : List Token} (stops : Stops strength rest)
    (le : strength ≤ stronger) : Stops stronger rest :=
  fun next isNext => (stops next isNext).mono le

theorem Stops.of_kind {strength : Nat} {sign : Token} {rest : List Token} {kind : Token.Kind}
    (isSign : kind = sign.kind) (stops : kind.Stops strength) : Stops strength (sign :: rest) := by
  subst isSign
  simpa [Stops] using stops

end Grammar

namespace Reading

open Grammar Nesting Outcome

theorem chain_of_stops {room : Allowance} {strength bound : Nat} {value : Expr}
    {rest : List Token} {within : rest.length < bound} (stops : Stops strength rest) :
    chain room strength value rest within = .ok value rest within := by
  rw [chain_eq]
  simp only [andThen_room, level_room]
  cases rest with
  | nil => rfl
  | cons next more =>
    have weak : next.kind.strength ≠ strength := Nat.ne_of_lt (stops next rfl).2.2
    have noOperator : Operator.ofStrength? strength next.kind = none := by
      simp [Operator.ofStrength?, weak]
    simp [noOperator]

theorem comes_tier_of_unary {room : Allowance} {tokens rest : List Token} {value : Expr}
    {enough : Prop} (comes : (unary room tokens).Comes enough value rest) {strength : Nat}
    (stops : Stops strength rest) : (tier room strength tokens).Comes enough value rest := by
  rw [tier_eq]
  simp only [andThen_room]
  split
  · have inner := comes_tier_of_unary comes (stops.mono (Nat.le_succ _))
    refine (inner.andThen True fun within => ?_).congr (and_iff_left trivial)
    rw [chain_of_stops stops]
    exact Comes.ok
  · exact comes
termination_by unaryStrength - strength

theorem forall_head {property : Token → Prop} {first : Token} {rest : List Token}
    (holds : property first) : ∀ next ∈ (first :: rest).head?, property next := by
  simpa using holds

theorem not_closed {tokens : List Token} (starts : StartsWith Token.Kind.opensExpression tokens)
    {close : Token.Kind} (closes : close.closesExpression) :
    ∀ next ∈ tokens.head?, next.kind ≠ close := by
  obtain ⟨first, more, rfl, opens⟩ := starts
  exact forall_head (Token.Kind.ne_of_opens_of_closes opens closes)

theorem not_valueless {tokens rest : List Token} {value : Expr}
    (derived : Expression tokens value rest) : ¬ valueless tokens = true := by
  obtain ⟨first, more, rfl, opens⟩ := derived.starts
  rw [valueless_eq_true_iff]
  intro ends
  rcases ends first rfl with same | same
  · exact Token.Kind.ne_of_opens_of_closes opens rfl same
  · exact Token.Kind.ne_of_opens_of_closes opens rfl same

theorem comes_operand_of_primary {room : Allowance} {tokens rest : List Token} {value : Expr}
    {enough : Prop} (comes : (primary room tokens).Comes enough value rest) {strength : Nat}
    (stops : Stops strength rest) : (operand room tokens).Comes enough value rest := by
  rw [operand]
  simp only [andThen_room, level_room]
  refine (comes.andThen True fun within => ?_).congr (and_iff_left trivial)
  cases rest with
  | nil => exact Comes.ok
  | cons next more =>
    simp only [(stops next rfl).2.1]
    exact Comes.ok

theorem comes_primary_of_name (room : Allowance) {name : Token} {rest : List Token}
    (isName : name.kind = .identifier) (notCall : ∀ next ∈ rest.head?, next.kind ≠ .leftParen) :
    (primary room (name :: rest)).Comes True (.ident name.text name.position) rest := by
  rw [primary.eq_def]
  simp only [andThen_room, level_room, isName, skip?_eq_none_iff.mpr notCall]
  exact Comes.ok

theorem comes_tier_of_name (room : Allowance) {name : Token} {rest : List Token} {strength : Nat}
    (isName : name.kind = .identifier) (stops : Stops strength rest) :
    (tier room strength (name :: rest)).Comes True (.ident name.text name.position) rest := by
  refine comes_tier_of_unary ?_ stops
  rw [unary.eq_def]
  simp only [isName, UnaryOp.ofKind?]
  exact comes_operand_of_primary
    (comes_primary_of_name room isName fun next isNext => (stops next isNext).1) stops

mutual

theorem expression_complete : ∀ {tokens rest : List Token} {value : Expr},
    Expression tokens value rest → Closes rest → ∀ room : Allowance,
      (expression room tokens).Comes (room.Covers (value.levels + 1)) value rest
  | _, _, _, .valueless isReturn ends, _, room => by
    rw [expression]
    simp only [andThen_room, level_room, nested_room]
    apply Comes.nested
    intro inner
    rw [if_pos isReturn, if_pos (valueless_eq_true_iff.mpr ends)]
    exact Comes.ok.congr (by simp [Expr.levels, Expr.levelsOption])
  | _, _, _, .returned isReturn inner, closes, room => by
    have comes := expression_complete inner closes
    rw [expression]
    simp only [andThen_room, level_room, nested_room]
    apply Comes.nested
    intro room
    rw [if_pos isReturn, if_neg (not_valueless inner)]
    exact (comes room).andThen_ok
  | _, _, _, .assignment inner, closes, room => by
    have comes := assignment_complete inner closes
    obtain ⟨first, more, rfl, opens⟩ := inner.starts
    have notReturn : first.kind ≠ .returnWord := by
      intro same
      rw [same] at opens
      cases opens
    rw [expression]
    simp only [andThen_room, level_room, nested_room]
    apply Comes.nested
    intro room
    rw [if_neg notReturn]
    exact comes room

theorem assignment_complete : ∀ {tokens rest : List Token} {value : Expr},
    Assignment tokens value rest → Closes rest → ∀ room : Allowance,
      (assignment room tokens).Comes (room.Covers value.levels) value rest
  | _, _, _, @Assignment.assign name sign tokens _ value isName isEqual inner, closes,
      room => by
    have comes := assignment_complete inner closes
    have stops : Stops 1 (sign :: tokens) :=
      Stops.of_kind isEqual.symm ⟨by decide, rfl, by decide⟩
    have target := comes_tier_of_name room isName stops
    rw [assignment]
    simp only [andThen_room, level_room, nested_room]
    refine (target.andThen (room.Covers (value.levels + 1)) fun within => ?_).congr
      (and_iff_right trivial)
    dsimp only
    rw [if_pos isEqual]
    apply Comes.nested
    intro room
    exact (comes room).andThen_ok
  | _, rest, _, .operation inner, closes, room => by
    have continues := operation_complete inner (closes.stops.mono (by decide)) room
    have comes := continues.comes fun _ => chain_of_stops closes.stops
    rw [assignment]
    simp only [andThen_room, level_room, nested_room]
    refine (comes.andThen True fun within => ?_).congr (and_iff_left trivial)
    cases rest with
    | nil => exact Comes.ok
    | cons next more =>
      dsimp only
      rw [if_neg (Token.Kind.ne_equal_of_closes (closes next rfl))]
      exact Comes.ok

theorem operation_complete : ∀ {strength : Nat} {tokens rest : List Token} {value : Expr},
    Operation strength tokens value rest → Stops (strength + 1) rest → ∀ room : Allowance,
      (tier room strength tokens).Continues (room.Covers value.levels) rest
        (fun within => chain room strength value rest within)
  | strength, tokens, rest, _,
      @Operation.chain _ sign _ middle _ left right operator first isSign binds second,
      stops, room => by
    have before := operation_complete first
      (Stops.of_kind isSign (by rw [← binds, ← isSign]; exact Token.Kind.stops_of_operator operator))
      room
    have after := operation_complete second (stops.mono (Nat.le_succ _)) room
    have behind := after.comes fun _ => chain_of_stops stops
    have isOperator : Operator.ofStrength? strength sign.kind = some operator :=
      Operator.ofStrength?_eq_some_iff.mpr ⟨binds, isSign⟩
    rw [Expr.levels_operation, Allowance.covers_max]
    constructor
    · intro covers
      obtain ⟨coversLeft, coversRight⟩ := covers
      obtain ⟨within, same⟩ := before.reads coversLeft
      obtain ⟨shorter, found⟩ := behind.reads coversRight
      refine ⟨by simp at within; omega, ?_⟩
      rw [same, chain_eq]
      simp only [andThen_room, isOperator, found, andThen_ok]
    · intro lack
      by_cases coversLeft : room.Covers left.levels
      · obtain ⟨within, same⟩ := before.reads coversLeft
        rw [same, chain_eq]
        simp only [andThen_room, isOperator]
        exact (behind.fails fun coversRight => lack ⟨coversLeft, coversRight⟩).andThen _
      · exact before.fails coversLeft
  | strength, tokens, rest, value, .stronger weak inner, stops, room => by
    have comes := (operation_complete inner (stops.mono (Nat.le_succ _)) room).comes
      fun _ => chain_of_stops stops
    rw [tier_eq, if_pos weak]
    simp only [andThen_room]
    constructor
    · intro covers
      obtain ⟨within, found⟩ := comes.reads covers
      exact ⟨within, by rw [found, andThen_ok]⟩
    · intro lack
      exact (comes.fails lack).andThen _
  | _, tokens, rest, value, .unary inner, stops, room => by
    have strongest : Stops unaryStrength rest := fun next isNext =>
      ⟨(stops next isNext).1, (stops next isNext).2.1, next.kind.strength_lt_unary⟩
    have comes := unary_complete inner strongest room
    rw [tier_eq, if_neg (Nat.lt_irrefl _)]
    constructor
    · intro covers
      obtain ⟨within, found⟩ := comes.reads covers
      exact ⟨within, by rw [found, chain_of_stops strongest]⟩
    · exact comes.fails

theorem unary_complete : ∀ {tokens rest : List Token} {value : Expr},
    Unary tokens value rest → Stops unaryStrength rest → ∀ room : Allowance,
      (unary room tokens).Comes (room.Covers value.levels) value rest
  | _, _, _, .prefixed isSign inner, stops, room => by
    have comes := unary_complete inner stops
    rw [unary.eq_def]
    simp only [andThen_room, level_room, nested_room, UnaryOp.ofKind?_eq_some_iff.mpr isSign]
    apply Comes.nested
    intro room
    exact (comes room).andThen_ok
  | _, _, _, .operand inner, stops, room => by
    have comes := operand_complete inner stops room
    obtain ⟨first, more, rfl, opens⟩ := inner.starts
    rw [unary.eq_def]
    simp only [Token.Kind.unary_of_opensOperand opens]
    exact comes

theorem operand_complete : ∀ {tokens rest : List Token} {value : Expr},
    Operand tokens value rest → Stops unaryStrength rest → ∀ room : Allowance,
      (operand room tokens).Comes (room.Covers value.levels) value rest
  | _, _, _, @Operand.suffixed name sign rest operator isName isSign steps, stops, room => by
    have isStep := UnaryOp.step?_eq_some_iff.mpr ⟨isSign, steps⟩
    have notCall : sign.kind ≠ .leftParen := by
      rw [← isSign]
      cases operator <;> decide
    have comes := comes_primary_of_name room isName (@forall_head _ sign rest notCall)
    rw [operand]
    simp only [andThen_room, level_room]
    refine (comes.andThen True fun within => ?_).congr (by simp [Expr.levels])
    simp only [isStep]
    exact Comes.ok
  | _, _, _, .primary inner, stops, room =>
    comes_operand_of_primary (primary_complete inner stops room) stops

theorem primary_complete : ∀ {tokens rest : List Token} {value : Expr},
    Primary tokens value rest → Stops unaryStrength rest → ∀ room : Allowance,
      (primary room tokens).Comes (room.Covers value.levels) value rest
  | _, _, _, .literal isLiteral, stops, room => by
    rw [primary.eq_def]
    simp only [andThen_room, level_room, isLiteral, ite_true]
    exact Comes.ok.congr (by simp [Expr.levels])
  | _, _, _, .ident isName, stops, room =>
    (comes_primary_of_name room isName fun next isNext => (stops next isNext).1).congr
      (by simp [Expr.levels])
  | _, _, _, .call isName isOpen inner, stops, room => by
    have comes := arguments_complete inner room
    rw [primary.eq_def]
    simp only [andThen_room, level_room, isName, skip?_of_kind isOpen]
    exact comes.andThen_ok
  | _, _, _, .grouping isOpen inner isClose, stops, room => by
    have comes := expression_complete inner (Closes.of_kind isClose rfl) room
    rw [primary.eq_def]
    simp only [andThen_room, level_room, isOpen]
    refine (comes.andThen True fun within => ?_).congr (and_iff_left trivial)
    rw [expect_of_kind isClose]
    exact Comes.ok

theorem arguments_complete : ∀ {tokens rest : List Token} {values : List Expr},
    Arguments tokens values rest → ∀ room : Allowance,
      (arguments room tokens).Comes (room.Covers (Expr.levelsList values)) values rest
  | _, _, _, .empty isClose, room => by
    rw [arguments, skip?_of_kind isClose]
    exact Comes.ok.congr (by simp [Expr.levelsList])
  | _, _, _, .listed inner, room => by
    have comes := moreArguments_complete inner room [] (Nat.le_refl _)
    rw [arguments, skip?_eq_none_iff.mpr (not_closed inner.starts rfl)]
    exact comes

theorem moreArguments_complete : ∀ {tokens rest : List Token} {values : List Expr},
    MoreArguments tokens values rest →
      ∀ (room : Allowance) (before : List Expr) {bound : Nat} (within : tokens.length ≤ bound),
        (moreArguments room before tokens within).Comes (room.Covers (Expr.levelsList values))
          (before.reverse ++ values) rest
  | _, _, _, .last inner isClose, room, before, _, within => by
    have comes := expression_complete inner (Closes.of_kind isClose rfl) room
    rw [moreArguments]
    simp only [andThen_room, level_room]
    refine (comes.andThen True fun within => ?_).congr (by simp [Expr.levelsList])
    rw [skip?_eq_none_iff.mpr (forall_head (by simp [isClose])), expect_of_kind isClose]
    simpa using Comes.ok
  | _, _, _, @MoreArguments.more _ _ _ _ value values inner isComma others, room, before, _,
      within => by
    have comes := expression_complete inner (Closes.of_kind isComma rfl) room
    have more := moreArguments_complete others room
    rw [moreArguments]
    simp only [andThen_room, level_room]
    refine (comes.andThen (room.Covers (Expr.levelsList values)) fun within => ?_).congr
      (by simp [Expr.levelsList])
    rw [skip?_of_kind isComma]
    simpa using more (value :: before) _

end

end Reading

end YalSyntax
