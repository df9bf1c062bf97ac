import YalSyntax.Proofs.Grammar.Replacement
import YalSyntax.Proofs.Grammar.Soundness.Statement

namespace YalSyntax

namespace Grammar

theorem LetDeclaration.entered {tokens rest : List Token} {stmt : Stmt}
    (derived : LetDeclaration tokens stmt rest) : stmt.entered = stmt.levels := by
  cases derived with
  | declare _ _ _ => rfl

/-- To a statement before it `other` looks as `rest` does: a `}` ends an expression in both, and no
`else` comes up. -/
structure Replaces (rest other : List Token) : Prop where
  closes : StartsWith (· = .rightBrace) rest → StartsWith (· = .rightBrace) other
  noElse : (∀ next ∈ rest.head?, next.kind ≠ .elseWord) →
    ∀ next ∈ other.head?, next.kind ≠ .elseWord

namespace Replaces

theorem refl (rest : List Token) : Replaces rest rest := ⟨id, id⟩

theorem cons (first : Token) (rest other : List Token) :
    Replaces (first :: rest) (first :: other) := by
  refine ⟨?_, id⟩
  rintro ⟨_, _, same, isClose⟩
  cases same
  exact ⟨first, other, rfl, isClose⟩

theorem append {rest other : List Token} (replaces : Replaces rest other) (used : List Token) :
    Replaces (used ++ rest) (used ++ other) := by
  cases used with
  | nil => exact replaces
  | cons first used => exact cons first _ _

end Replaces

theorem StartsWith.replace {property : Token.Kind → Bool} {used rest : List Token}
    (starts : StartsWith property (used ++ rest)) (nonempty : used ≠ []) (other : List Token) :
    StartsWith property (used ++ other) := by
  obtain ⟨first, used, rfl⟩ := List.exists_cons_of_ne_nil nonempty
  obtain ⟨_, _, same, holds⟩ := starts
  cases same
  exact ⟨first, used ++ other, rfl, holds⟩

theorem Statement.entered {implicit : Bool} {tokens rest : List Token} {stmt : Stmt}
    (derived : Statement implicit tokens stmt rest) : stmt.entered = stmt.levels + 1 := by
  cases derived with
  | expression inner => cases inner <;> rfl
  | _ => rfl

end Grammar

namespace Reading

open Grammar Nesting Outcome

theorem typeMark_complete {tokens rest : List Token} {type? : Option String}
    (derived : TypeMark tokens type? rest) (behind : ∀ next ∈ rest.head?, next.kind ≠ .colon) :
    (typeMark tokens).Comes True type? rest := by
  unfold typeMark
  cases derived with
  | absent =>
    rw [skip?_eq_none_iff.mpr behind]
    exact Comes.ok
  | present isColon isName =>
    simp only [skip?_of_kind isColon, expect_of_kind isName]
    exact Comes.ok

theorem binding_complete {tokens rest : List Token} {name : Binding}
    (derived : Bound tokens name rest) (behind : ∀ next ∈ rest.head?, next.kind ≠ .colon) :
    (binding tokens).Comes True name rest := by
  unfold binding
  cases derived with
  | name isName mark =>
    rw [expect_of_kind isName]
    exact (typeMark_complete mark behind).andThen_ok

theorem moreParameters_complete {tokens rest : List Token} {names : List Binding}
    (derived : MoreParameters tokens names rest) (before : List Binding) {bound : Nat}
    (within : tokens.length ≤ bound) :
    (moreParameters before tokens within).Comes True (before.reverse ++ names) rest := by
  induction derived generalizing before bound with
  | last inner isClose =>
    have comes := binding_complete inner (forall_head (by simp [isClose]))
    rw [moreParameters]
    refine (comes.andThen True fun within => ?_).congr (and_iff_left trivial)
    rw [skip?_eq_none_iff.mpr (forall_head (by simp [isClose])), expect_of_kind isClose]
    simpa using Comes.ok
  | @more _ _ _ _ parameter _ inner isComma _ further =>
    have comes := binding_complete inner (forall_head (by simp [isComma]))
    rw [moreParameters]
    refine (comes.andThen True fun within => ?_).congr (and_iff_left trivial)
    rw [skip?_of_kind isComma]
    simpa using further (parameter :: before) _

theorem parameters_complete {tokens rest : List Token} {names : List Binding}
    (derived : Parameters tokens names rest) : (parameters tokens).Comes True names rest := by
  unfold parameters
  cases derived with
  | empty isClose =>
    rw [skip?_of_kind isClose]
    exact Comes.ok
  | listed inner =>
    have notClosed : ∀ next ∈ tokens.head?, next.kind ≠ .rightParen := by
      obtain ⟨first, more, rfl, isName⟩ := inner.starts
      refine forall_head fun same => ?_
      simp [same] at isName
    rw [skip?_eq_none_iff.mpr notClosed]
    exact moreParameters_complete inner [] _

theorem initialValue_complete {tokens rest : List Token} {value : Option Expr}
    (derived : InitialValue tokens value rest) :
    ∃ semicolon : Token, semicolon.kind = .semicolon ∧ ∀ room : Allowance,
      (initialValue room tokens).Comes (room.Covers (Expr.levelsOption value)) value
        (semicolon :: rest) := by
  cases derived with
  | @absent semicolon _ isEnd =>
    refine ⟨semicolon, isEnd, fun room => ?_⟩
    unfold initialValue
    simp only [andThen_room, level_room]
    rw [skip?_eq_none_iff.mpr (forall_head (by simp [isEnd]))]
    exact Comes.ok.congr (by simp [Expr.levelsOption])
  | @present _ semicolon _ _ _ isEqual inner isEnd =>
    refine ⟨semicolon, isEnd, fun room => ?_⟩
    unfold initialValue
    simp only [andThen_room, level_room]
    rw [skip?_of_kind isEqual]
    exact (expression_complete inner (Closes.of_kind isEnd rfl) room).andThen_ok

theorem letRest_complete {tokens rest : List Token} {stmt : Stmt}
    (derived : LetDeclaration tokens stmt rest) :
    ∃ word more, tokens = word :: more ∧ word.kind = .letWord ∧
      ∀ room : Allowance,
        (letRest room word.position more).Comes (room.Covers stmt.levels) stmt rest := by
  cases derived with
  | @declare word _ middle _ _ initializer isLet bound initial =>
    have behind : ∀ next ∈ middle.head?, next.kind ≠ .colon := by
      cases initial with
      | absent isEnd => exact forall_head (by simp [isEnd])
      | present isEqual _ _ => exact forall_head (by simp [isEqual])
    obtain ⟨semicolon, isEnd, comes⟩ := initialValue_complete initial
    refine ⟨word, _, rfl, isLet, fun room => ?_⟩
    unfold letRest
    simp only [andThen_room, level_room]
    refine ((binding_complete bound behind).andThen (room.Covers (Expr.levelsOption initializer))
      fun within => ?_).congr (by simp [Stmt.levels, Binding.levels])
    refine ((comes room).andThen True fun within => ?_).congr (and_iff_left trivial)
    rw [expect_of_kind isEnd]
    exact Comes.ok

theorem expressionStatement_ended {first semicolon : Token} {tokens rest : List Token}
    {value : Expr} (derived : Expression (first :: tokens) value (semicolon :: rest))
    (isEnd : semicolon.kind = .semicolon) (room : Allowance) :
    (expressionStatement room (first :: tokens)).Comes (room.Covers (value.levels + 1))
      (.expression value first.position) rest := by
  have comes := expression_complete derived (Closes.of_kind isEnd rfl) room
  unfold expressionStatement
  simp only [andThen_room, level_room]
  refine (comes.andThen True fun within => ?_).congr (and_iff_left trivial)
  simp only [nextIs, isEnd, expect_of_kind isEnd]
  exact Comes.ok

theorem expressionStatement_closed {first closer : Token} {tokens rest : List Token}
    {value : Expr} (derived : Expression (first :: tokens) value (closer :: rest))
    (isClose : closer.kind = .rightBrace) (room : Allowance) :
    (expressionStatement room (first :: tokens)).Comes (room.Covers (value.levels + 1))
      (.expression value.asReturn first.position) (closer :: rest) := by
  have comes := expression_complete derived (Closes.of_kind isClose rfl) room
  unfold expressionStatement
  simp only [andThen_room, level_room]
  refine (comes.andThen True fun within => ?_).congr (and_iff_left trivial)
  simp only [nextIs, isClose]
  exact Comes.ok

theorem expressionStatement_moved {first closer : Token} {tokens rest : List Token} {value : Expr}
    (derived : Expression (first :: tokens) value (closer :: rest))
    (isClose : closer.kind = .rightBrace) :
    ∃ used, first :: tokens = used ++ closer :: rest ∧ used ≠ [] ∧ ∀ other,
      Replaces (closer :: rest) other → ∀ room : Allowance,
        (expressionStatement room (used ++ other)).Comes (room.Covers (value.levels + 1))
          (.expression value.asReturn first.position) other := by
  obtain ⟨used, rfl, moves⟩ := derived.moves_closed (by rw [isClose]; rfl)
  refine ⟨first :: used, rfl, List.cons_ne_nil _ _, fun other replaces room => ?_⟩
  obtain ⟨closer', behind, rfl, isClose'⟩ := replaces.closes ⟨closer, rest, rfl, by simp [isClose]⟩
  have isClose' : closer'.kind = .rightBrace := by simpa using isClose'
  have again := moves (closer' :: behind) fun _ => forall_head (.inr isClose')
  exact expressionStatement_closed again isClose' room

theorem expressionStatement_complete {implicit : Bool} {tokens rest : List Token} {stmt : Stmt}
    (derived : ExpressionStatement implicit tokens stmt rest) :
    ∃ used depth, tokens = used ++ rest ∧ used ≠ [] ∧ Measures implicit depth stmt.levels ∧
      ∀ other, Replaces rest other → ∀ room : Allowance,
        (expressionStatement room (used ++ other)).Comes (room.Covers depth) stmt other := by
  cases derived with
  | @ended first semicolon _ _ value inner isEnd =>
    obtain ⟨used, rfl, moves⟩ := inner.moves_closed (by rw [isEnd]; rfl)
    refine ⟨first :: (used ++ [semicolon]), value.levels + 1, by simp, List.cons_ne_nil _ _, .refl,
      fun other _ room => ?_⟩
    rw [List.cons_append, List.append_assoc]
    exact expressionStatement_ended (moves (semicolon :: other) id) isEnd room
  | @returning _ _ _ _ value position inner isClose =>
    obtain ⟨used, same, nonempty, comes⟩ := expressionStatement_moved inner isClose
    exact ⟨used, (Expr.returned value position).levels + 1, same, nonempty, .refl, comes⟩
  | @tail first _ _ _ value allowed inner isClose plain =>
    obtain ⟨used, same, nonempty, comes⟩ := expressionStatement_moved inner isClose
    rw [Expr.asReturn_of_ne plain] at comes
    exact ⟨used, value.levels + 1, same, nonempty, ⟨by simp [allowed], Nat.le_refl _⟩, comes⟩

theorem condition_complete {tokens rest : List Token} {value : Expr}
    (derived : Condition tokens value rest) (room : Allowance) :
    (condition room tokens).Comes (room.Covers (value.levels + 1)) value rest := by
  cases derived with
  | parens isOpen inner isClose =>
    have comes := expression_complete inner (Closes.of_kind isClose rfl) room
    unfold condition
    simp only [andThen_room, level_room, expect_of_kind isOpen, andThen_ok]
    refine (comes.andThen True fun within => ?_).congr (and_iff_left trivial)
    rw [expect_of_kind isClose]
    exact Comes.ok

theorem clause_complete {close : Token.Kind} {tokens rest : List Token} {value : Option Expr}
    (derived : Clause close tokens value rest) (closes : close.closesExpression)
    (room : Allowance) :
    (clause room close tokens).Comes (room.Covers (Expr.levelsOption value)) value rest := by
  unfold clause
  simp only [andThen_room, level_room]
  cases derived with
  | absent isClose =>
    rw [skip?_of_kind isClose]
    exact Comes.ok.congr (by simp [Expr.levelsOption])
  | present inner isClose =>
    have comes := expression_complete inner (Closes.of_kind isClose closes) room
    rw [skip?_eq_none_iff.mpr (not_closed inner.starts closes)]
    refine (comes.andThen True fun within => ?_).congr (and_iff_left trivial)
    rw [expect_of_kind isClose]
    exact Comes.ok

theorem firstClause_complete {implicit : Bool} {tokens rest : List Token} {first : Option Stmt}
    (derived : FirstClause implicit tokens first rest) :
    ∃ used depth, tokens = used ++ rest ∧ Measures implicit depth (Stmt.levelsFirst first) ∧
      ∀ other, Replaces rest other → ∀ room : Allowance,
        (firstClause room (used ++ other)).Comes (room.Covers depth) first other := by
  cases derived with
  | @absent semicolon _ isEnd =>
    refine ⟨[semicolon], 0, rfl, .refl, fun other _ room => ?_⟩
    unfold firstClause
    simp only [andThen_room, level_room]
    rw [List.singleton_append, skip?_of_kind isEnd]
    exact Comes.ok.congr (by simp)
  | @declaration _ _ stmt inner =>
    obtain ⟨used, rfl, -, moves⟩ := inner.moves
    refine ⟨used, stmt.levels, rfl, .refl, fun other _ room => ?_⟩
    obtain ⟨word, more, same, isLet, comes⟩ := letRest_complete (moves other)
    unfold firstClause
    simp only [andThen_room, level_room]
    rw [same, skip?_eq_none_iff.mpr (forall_head (by simp [isLet])), skip?_of_kind isLet]
    exact (comes room).andThen_ok
  | expression inner =>
    obtain ⟨used, depth, rfl, nonempty, measures, comes⟩ := expressionStatement_complete inner
    refine ⟨used, depth, rfl, measures, fun other replaces room => ?_⟩
    have starts := inner.starts.replace nonempty other
    have notLet : ∀ next ∈ (used ++ other).head?, next.kind ≠ .letWord := by
      obtain ⟨word, more, same, opens⟩ := starts
      rw [same]
      refine forall_head fun isLet => ?_
      rw [isLet] at opens
      cases opens
    unfold firstClause
    simp only [andThen_room, level_room]
    rw [skip?_eq_none_iff.mpr (not_closed starts rfl), skip?_eq_none_iff.mpr notLet]
    exact (comes other replaces room).andThen_ok

theorem not_colon {tokens : List Token} (starts : StartsWith Token.Kind.opensStatement tokens) :
    ∀ next ∈ tokens.head?, next.kind ≠ .colon := by
  obtain ⟨first, more, rfl, opens⟩ := starts
  refine forall_head fun same => ?_
  rw [same] at opens
  cases opens

theorem statement_of_expression {room : Allowance} {first : Token} {more : List Token}
    (opens : first.kind.opensExpression) :
    statement room (first :: more) =
      .nested room (first :: more) fun room => expressionStatement room (first :: more) := by
  have differs : ∀ word : Token.Kind, word.opensExpression = false → first.kind ≠ word := by
    intro word closed same
    subst same
    rw [closed] at opens
    cases opens
  rw [statement]
  simp only [nested_room, if_neg (differs .fnWord rfl), if_neg (differs .forWord rfl),
    if_neg (differs .whileWord rfl), if_neg (differs .ifWord rfl),
    if_neg (differs .leftBrace rfl)]

theorem declaration_of_statement {room : Allowance} {tokens : List Token}
    (starts : StartsWith Token.Kind.opensStatement tokens) :
    declaration room tokens = statement room tokens := by
  obtain ⟨first, more, rfl, opens⟩ := starts
  have differs : ∀ word : Token.Kind, word.opensStatement = false → first.kind ≠ word := by
    intro word closed same
    subst same
    rw [closed] at opens
    cases opens
  rw [declaration.eq_def]
  simp only [andThen_room, level_room]
  rw [if_neg (differs .letWord rfl), if_neg (differs .typeWord rfl)]

/-- The tokens are read as `stmt`, if `depth` levels may be opened within its own. -/
def StatementComes (depth : Nat) (tokens : List Token) (stmt : Stmt) (rest : List Token) : Prop :=
  ∀ room : Allowance, (statement room tokens).Comes (room.Covers (depth + 1)) stmt rest

def DeclarationComes (depth : Nat) (tokens : List Token) (stmt : Stmt) (rest : List Token) : Prop :=
  ∀ room : Allowance, (declaration room tokens).Comes (room.Covers depth) stmt rest

def BlockComes (rest : List Token) (depth : Nat) (tokens : List Token) (body : List Stmt) : Prop :=
  ∀ (room : Allowance) (position : Position) (before : List Stmt) {bound : Nat}
    (within : tokens.length < bound),
    (blockRest room position before tokens within).Comes (room.Covers depth)
      (.block (before.reverse ++ body) position) rest

def ProgramComes (depth : Nat) (tokens : List Token) (body : List Stmt) : Prop :=
  ∀ (room : Allowance) (before : List Stmt),
    (room.Covers depth → declarations room before tokens = (.ok ⟨before.reverse ++ body⟩, [])) ∧
    (¬ room.Covers depth → ∃ left, declarations room before tokens = (.error .tooDeep, left))

/-- A reading of a list of statements that takes one more in front. -/
def Gathers (comes : Nat → List Token → List Stmt → Prop) : Prop :=
  ∀ {depth others : Nat} {tokens middle : List Token} {stmt : Stmt} {body : List Stmt},
    StartsWith Token.Kind.opensDeclaration tokens → DeclarationComes depth tokens stmt middle →
      comes others middle body → comes (max depth others) tokens (stmt :: body)

section

variable {word opener closer : Token} {tokens middle behind rest : List Token} {depth : Nat}
  {condition : Expr} {body : Stmt}

theorem comes_function {name : Token} {parameters : List Binding} {returns : Option String}
    (isFn : word.kind = .fnWord) (isName : name.kind = .identifier)
    (isOpen : opener.kind = .leftParen) (listed : Parameters tokens parameters middle)
    (mark : TypeMark middle returns behind) (starts : StartsWith Token.Kind.opensStatement behind)
    (comes : StatementComes depth behind body rest) :
    StatementComes (depth + 1) (word :: name :: opener :: tokens)
      (.function name.text parameters returns body word.position) rest := by
  intro room
  rw [statement]
  simp only [nested_room]
  apply Comes.nested
  intro room
  simp only [isFn, ↓reduceIte]
  rw [functionRest]
  simp only [andThen_room, level_room, expect_of_kind isName, expect_of_kind isOpen, andThen_ok]
  refine ((parameters_complete listed).andThen (room.Covers (depth + 1)) fun _ => ?_).congr
    (and_iff_right trivial)
  refine ((typeMark_complete mark (not_colon starts)).andThen (room.Covers (depth + 1))
    fun _ => ?_).congr (and_iff_right trivial)
  exact (comes room).andThen_ok

theorem comes_forLoop {initializer : Option Stmt} {condition increment : Option Expr} {head : Nat}
    (isFor : word.kind = .forWord) (isOpen : opener.kind = .leftParen)
    (first : ∀ room : Allowance, (firstClause room tokens).Comes (room.Covers head) initializer middle)
    {third : List Token} (next : Clause .semicolon middle condition third)
    (last : Clause .rightParen third increment behind)
    (comes : StatementComes depth behind body rest) :
    StatementComes (max head (max (Expr.levelsOption condition) (max (Expr.levelsOption increment)
      (depth + 1)))) (word :: opener :: tokens)
      (.forLoop initializer condition increment body word.position) rest := by
  intro room
  rw [statement]
  simp only [nested_room]
  apply Comes.nested
  intro room
  simp only [isFor, reduceCtorEq, ↓reduceIte]
  rw [forRest]
  simp only [andThen_room, level_room, expect_of_kind isOpen, andThen_ok, Allowance.covers_max]
  refine (first room).andThen _ fun _ => ?_
  refine (clause_complete next rfl room).andThen _ fun _ => ?_
  refine (clause_complete last rfl room).andThen _ fun _ => ?_
  exact (comes room).andThen_ok

theorem comes_whileLoop (isWhile : word.kind = .whileWord) (test : Condition tokens condition behind)
    (comes : StatementComes depth behind body rest) :
    StatementComes (max (condition.levels + 1) (depth + 1)) (word :: tokens)
      (.whileLoop condition body word.position) rest := by
  intro room
  rw [statement]
  simp only [nested_room]
  apply Comes.nested
  intro room
  simp only [isWhile, reduceCtorEq, ↓reduceIte]
  rw [whileRest, Allowance.covers_max]
  simp only [andThen_room, level_room]
  refine (condition_complete test room).andThen _ fun _ => ?_
  exact (comes room).andThen_ok

theorem comes_conditional (isIf : word.kind = .ifWord) (test : Condition tokens condition behind)
    (comes : StatementComes depth behind body rest)
    (nearest : ∀ next ∈ rest.head?, next.kind ≠ .elseWord) :
    StatementComes (max (condition.levels + 1) (depth + 1)) (word :: tokens)
      (.conditional condition body none word.position) rest := by
  intro room
  rw [statement]
  simp only [nested_room]
  apply Comes.nested
  intro room
  simp only [isIf, reduceCtorEq, ↓reduceIte]
  rw [ifRest, Allowance.covers_max]
  simp only [andThen_room, level_room]
  refine (condition_complete test room).andThen _ fun _ => ?_
  refine ((comes room).andThen True fun _ => ?_).congr (and_iff_left trivial)
  rw [skip?_eq_none_iff.mpr nearest]
  exact Comes.ok

theorem comes_alternative {other : Token} {no : Stmt} {depth' : Nat} (isIf : word.kind = .ifWord)
    (test : Condition tokens condition behind)
    (comes : StatementComes depth behind body (other :: middle))
    (isElse : other.kind = .elseWord) (comesOther : StatementComes depth' middle no rest) :
    StatementComes (max (condition.levels + 1) (max (depth + 1) (depth' + 1))) (word :: tokens)
      (.conditional condition body (some no) word.position) rest := by
  intro room
  rw [statement]
  simp only [nested_room]
  apply Comes.nested
  intro room
  simp only [isIf, reduceCtorEq, ↓reduceIte]
  rw [ifRest, Allowance.covers_max, Allowance.covers_max]
  simp only [andThen_room, level_room]
  refine (condition_complete test room).andThen _ fun _ => ?_
  refine (comes room).andThen _ fun _ => ?_
  simp only [skip?_of_kind isElse]
  exact (comesOther room).andThen_ok

theorem comes_block {body : List Stmt} (isOpen : opener.kind = .leftBrace)
    (comes : BlockComes rest depth tokens body) :
    StatementComes depth (opener :: tokens) (.block body opener.position) rest := by
  intro room
  rw [statement]
  simp only [nested_room]
  apply Comes.nested
  intro room
  simp only [isOpen, reduceCtorEq, ↓reduceIte]
  exact comes room _ [] _

theorem comes_expression {stmt : Stmt} (starts : StartsWith Token.Kind.opensExpression tokens)
    (comes : ∀ room : Allowance,
      (expressionStatement room tokens).Comes (room.Covers depth) stmt rest) :
    StatementComes depth tokens stmt rest := by
  intro room
  obtain ⟨first, more, rfl, opens⟩ := starts
  rw [statement_of_expression opens]
  exact Comes.nested comes

theorem comes_statement {stmt : Stmt} (starts : StartsWith Token.Kind.opensStatement tokens)
    (comes : StatementComes depth tokens stmt rest) :
    DeclarationComes (depth + 1) tokens stmt rest := by
  intro room
  rw [declaration_of_statement starts]
  exact comes room

theorem comes_closed (isClose : closer.kind = .rightBrace) :
    BlockComes rest 0 (closer :: rest) [] := by
  intro room position before _ within
  rw [blockRest, skip?_of_kind isClose]
  simpa using Comes.ok

theorem comes_finished : ProgramComes 0 [] [] := by
  refine fun room before => ⟨fun _ => ?_, fun lack => absurd room.covers_zero lack⟩
  rw [declarations_eq]
  simp

end

theorem gathers_block (rest : List Token) : Gathers (BlockComes rest) := by
  intro depth others tokens middle stmt body starts comes comesOthers room position before _ within
  obtain ⟨word, more, rfl, opens⟩ := starts
  have notClosed : word.kind ≠ .rightBrace := by
    intro closed
    rw [closed] at opens
    cases opens
  rw [blockRest, skip?_eq_none_iff.mpr (forall_head notClosed), Allowance.covers_max]
  refine (comes room).andThen _ fun _ => ?_
  simpa using comesOthers room position (stmt :: before) _

theorem gathers_program : Gathers ProgramComes := by
  intro depth others tokens middle stmt body starts comes comesOthers room before
  have nonempty : ¬ tokens.isEmpty = true := by
    obtain ⟨word, more, rfl, -⟩ := starts
    exact Bool.false_ne_true
  rw [declarations_eq, if_neg nonempty, Allowance.covers_max]
  by_cases covered : room.Covers depth
  · obtain ⟨shorter, found⟩ := (comes room).reads covered
    simpa [found, covered] using comesOthers room (stmt :: before)
  · obtain ⟨left, found⟩ := (comes room).fails covered
    simp [found, covered]

mutual

theorem statement_complete {implicit : Bool} : ∀ {tokens rest : List Token} {stmt : Stmt},
    Statement implicit tokens stmt rest →
      ∃ used depth, tokens = used ++ rest ∧ used ≠ [] ∧ Measures implicit depth stmt.levels ∧
        ∀ other, Replaces rest other → StatementComes depth (used ++ other) stmt other
  | _, _, _, @Statement.function _ word name opener _ _ _ _ _ _ _ isFn isName isOpen listed mark
      inner => by
    obtain ⟨used, depth, rfl, nonempty, measures, comes⟩ := statement_complete inner
    obtain ⟨type, rfl, returns⟩ := mark.moves
    obtain ⟨names, rfl, parameters⟩ := listed.moves
    refine ⟨word :: name :: opener :: (names ++ (type ++ used)), depth + 1, by simp,
      List.cons_ne_nil _ _, ?_, fun other replaces => ?_⟩
    · rw [Stmt.levels_function listed.uninitialized]
      exact measures.succ
    have starts := inner.starts.replace nonempty other
    have whole := comes_function isFn isName isOpen (parameters _) (returns _) starts
      (comes other replaces)
    simpa using whole
  | _, _, _, @Statement.forLoop _ word opener _ _ _ _ _ _ _ _ _ isFor isOpen first next last
      inner => by
    obtain ⟨used, depth, rfl, -, measures, comes⟩ := statement_complete inner
    obtain ⟨third, rfl, increment⟩ := last.moves
    obtain ⟨second, rfl, condition⟩ := next.moves
    obtain ⟨start, head, rfl, measures', initializer⟩ := firstClause_complete first
    refine ⟨word :: opener :: (start ++ (second ++ (third ++ used))), _, by simp,
      List.cons_ne_nil _ _, measures'.join (.join .refl (.join .refl measures.succ)),
      fun other replaces => ?_⟩
    have behind := ((replaces.append used).append third).append second
    have whole := comes_forLoop isFor isOpen (initializer _ behind) (condition _) (increment _)
      (comes other replaces)
    simpa using whole
  | _, _, _, @Statement.whileLoop _ word _ _ _ _ _ isWhile test inner => by
    obtain ⟨used, depth, rfl, -, measures, comes⟩ := statement_complete inner
    obtain ⟨between, rfl, condition⟩ := test.moves
    refine ⟨word :: (between ++ used), _, by simp, List.cons_ne_nil _ _,
      .join .refl measures.succ, fun other replaces => ?_⟩
    simpa using comes_whileLoop isWhile (condition _) (comes other replaces)
  | _, _, _, @Statement.conditional _ word _ _ _ value _ isIf test inner nearest => by
    obtain ⟨used, depth, rfl, -, measures, comes⟩ := statement_complete inner
    obtain ⟨between, rfl, condition⟩ := test.moves
    refine ⟨word :: (between ++ used), max (value.levels + 1) (depth + 1), by simp,
      List.cons_ne_nil _ _, ?_, fun other replaces => ?_⟩
    · rw [Stmt.levels, Stmt.levelsElse, Nat.max_zero]
      exact .join .refl measures.succ
    · have behind := comes other replaces
      simpa using comes_conditional isIf (condition _) behind (replaces.noElse nearest)
  | _, _, _, @Statement.alternative _ word alternative _ _ _ _ _ _ _ isIf test inner isElse
      second => by
    obtain ⟨used', depth', rfl, -, measures', comes'⟩ := statement_complete second
    obtain ⟨used, depth, rfl, -, measures, comes⟩ := statement_complete inner
    obtain ⟨between, rfl, condition⟩ := test.moves
    refine ⟨word :: (between ++ (used ++ alternative :: used')), _, by simp,
      List.cons_ne_nil _ _, .join .refl (.join measures.succ measures'.succ),
      fun other replaces => ?_⟩
    have first := comes (alternative :: (used' ++ other)) (.cons _ _ _)
    simpa using comes_alternative isIf (condition _) first isElse (comes' other replaces)
  | _, _, _, @Statement.block _ opener closer _ rest _ isOpen inner isClose => by
    obtain ⟨used, depth, rfl, measures, comes⟩ := declarations_complete inner
    refine ⟨opener :: (used ++ [closer]), depth, by simp, List.cons_ne_nil _ _, measures,
      fun other _ => ?_⟩
    have body := comes (closer :: other) (gathers_block other) (.cons closer rest other)
      (comes_closed isClose)
    simpa using comes_block isOpen body
  | _, _, _, .expression inner => by
    obtain ⟨used, depth, rfl, nonempty, measures, comes⟩ := expressionStatement_complete inner
    refine ⟨used, depth, rfl, nonempty, measures, fun other replaces => ?_⟩
    exact comes_expression (inner.starts.replace nonempty other) (comes other replaces)

theorem declaration_complete {implicit : Bool} : ∀ {tokens rest : List Token} {stmt : Stmt},
    Declaration implicit tokens stmt rest →
      ∃ used depth, tokens = used ++ rest ∧ used ≠ [] ∧ Measures implicit depth stmt.entered ∧
        ∀ other, Replaces rest other → DeclarationComes depth (used ++ other) stmt other
  | _, _, stmt, .letDeclaration inner => by
    obtain ⟨used, rfl, nonempty, moves⟩ := inner.moves
    refine ⟨used, stmt.levels, rfl, nonempty, by rw [inner.entered]; exact .refl,
      fun other _ room => ?_⟩
    obtain ⟨word, more, same, isLet, comes⟩ := letRest_complete (moves other)
    rw [same, declaration.eq_def]
    simp only [andThen_room, level_room, isLet, ↓reduceIte]
    exact (comes room).andThen_ok
  | _, _, _, .typeDef isType isName isEqual isUnderlying isEnd => by
    refine ⟨[_, _, _, _, _], 0, rfl, List.cons_ne_nil _ _, .refl, fun other _ room => ?_⟩
    rw [declaration.eq_def]
    simp only [andThen_room, level_room, List.cons_append, isType, reduceCtorEq, ↓reduceIte]
    unfold typeRest
    simp only [List.nil_append, expect_of_kind isName, expect_of_kind isEqual,
      expect_of_kind isUnderlying, expect_of_kind isEnd, andThen_ok]
    exact Comes.ok.congr (by simp)
  | _, _, _, .statement inner => by
    obtain ⟨used, depth, rfl, nonempty, measures, comes⟩ := statement_complete inner
    refine ⟨used, depth + 1, rfl, nonempty, by rw [inner.entered]; exact measures.succ,
      fun other replaces => ?_⟩
    exact comes_statement (inner.starts.replace nonempty other) (comes other replaces)

theorem declarations_complete {implicit : Bool} : ∀ {tokens rest : List Token} {body : List Stmt},
    Declarations implicit tokens body rest →
      ∃ used depth, tokens = used ++ rest ∧ Measures implicit depth (Stmt.levelsList body) ∧
        ∀ {comes : Nat → List Token → List Stmt → Prop} {others : Nat} {more : List Stmt} other,
          Gathers comes → Replaces rest other → comes others other more →
            comes (max depth others) (used ++ other) (body ++ more)
  | _, _, _, .none => by
    refine ⟨[], 0, rfl, .refl, fun _ _ _ behind => ?_⟩
    simpa using behind
  | _, _, _, .more first second => by
    obtain ⟨behind, others, rfl, measures', comes'⟩ := declarations_complete second
    obtain ⟨used, depth, rfl, nonempty, measures, comes⟩ := declaration_complete first
    refine ⟨used ++ behind, max depth others, by simp, ?_, fun other gathers replaces last => ?_⟩
    · rw [Stmt.levelsList_cons]
      exact measures.join measures'
    · have starts := first.starts.replace nonempty (behind ++ other)
      have whole := gathers starts (comes _ (replaces.append behind))
        (comes' other gathers replaces last)
      simpa [Nat.max_assoc] using whole

end

theorem program_complete {implicit : Bool} {tokens : List Token} {body : List Stmt}
    (derived : Declarations implicit tokens body []) :
    ∃ depth, Measures implicit depth (Stmt.levelsList body) ∧ ProgramComes depth tokens body := by
  obtain ⟨used, depth, rfl, measures, comes⟩ := declarations_complete derived
  have whole := comes [] gathers_program (.refl []) comes_finished
  exact ⟨depth, measures, by simpa using whole⟩

end Reading

end YalSyntax
