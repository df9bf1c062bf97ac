import YalSyntax.Proofs.Rendering.Expression

namespace YalSyntax

open Grammar

def Binding.unplaced (binding : Binding) : Binding := binding.map id fun _ => .start

theorem Binding.unplaced_initialized {binding other : Binding} {initializer value : Option Expr}
    (same : binding.unplaced = other.unplaced)
    (same' : initializer.map Expr.unplaced = value.map Expr.unplaced) (position place : Position) :
    ({ binding with initializer, position } : Binding).unplaced =
      ({ other with initializer := value, position := place } : Binding).unplaced := by
  obtain ⟨names, types, -, -⟩ := Binding.mk.inj same
  refine Binding.mk.injEq .. |>.mpr ⟨names, types, ?_, rfl⟩
  cases initializer <;> cases value <;> simp_all [Expr.mapOption, Expr.unplaced]

namespace Stmt

def unplaced (stmt : Stmt) : Stmt := stmt.map id fun _ => .start

theorem unplaced_expression (value : Expr) (position : Position) :
    (expression value position).unplaced = expression value.unplaced .start := rfl

theorem unplaced_block (body : List Stmt) (position : Position) :
    (block body position).unplaced = block (body.map unplaced) .start := by
  simp only [unplaced, map, mapList_eq_map]
  rfl

theorem unplaced_conditional (condition : Expr) (yes : Stmt) (no : Option Stmt)
    (position : Position) : (conditional condition yes no position).unplaced =
      conditional condition.unplaced yes.unplaced (no.map unplaced) .start := by
  cases no <;> rfl

theorem unplaced_whileLoop (condition : Expr) (body : Stmt) (position : Position) :
    (whileLoop condition body position).unplaced =
      whileLoop condition.unplaced body.unplaced .start := rfl

theorem unplaced_forLoop (initializer : Option Stmt) (condition increment : Option Expr)
    (body : Stmt) (position : Position) :
    (forLoop initializer condition increment body position).unplaced =
      forLoop (initializer.map unplaced) (condition.map Expr.unplaced)
        (increment.map Expr.unplaced) body.unplaced .start := by
  cases initializer <;> cases condition <;> cases increment <;> rfl

theorem unplaced_function (name : String) (parameters : List Binding) (returns : Option String)
    (body : Stmt) (position : Position) :
    (function name parameters returns body position).unplaced =
      function name (parameters.map Binding.unplaced) returns body.unplaced .start := by
  simp only [unplaced, map, id, Option.map_id]
  rfl

end Stmt

theorem typeMark_again {tokens rest copy behind : List Token} {type? : Option String}
    (derived : TypeMark tokens type? rest) (spells : Spells copy (writtenType type?) behind) :
    TypeMark copy type? behind := by
  cases derived with
  | absent =>
    obtain rfl := spells
    exact .absent
  | present isColon isName =>
    obtain ⟨colon, others, rfl, isKind, -, spelled⟩ := spells.cons
    obtain ⟨name, rfl, isKind', isText⟩ := spelled.single
    rw [← isText]
    exact .present isKind isKind'

theorem bound_again {tokens rest copy behind : List Token} {name : Binding}
    (derived : Bound tokens name rest) (spells : Spells copy name.written behind) :
    ∃ again : Binding, again.unplaced = name.unplaced ∧ Bound copy again behind := by
  cases derived with
  | name isName mark =>
    obtain ⟨name, others, rfl, isKind, isText, spelled⟩ := spells.cons
    rw [writtenInitial, List.append_nil] at spelled
    have mark' := typeMark_again mark spelled
    refine ⟨_, ?_, .name isKind mark'⟩
    simp [Binding.unplaced, Binding.map, isText]

theorem Grammar.MoreParameters.written_ne_nil {tokens rest : List Token} {parameters : List Binding}
    (derived : MoreParameters tokens parameters rest) : parameters.map Binding.written ≠ [] := by
  cases derived <;> simp

theorem moreParameters_again {tokens rest copy behind : List Token} {parameters : List Binding}
    (derived : MoreParameters tokens parameters rest)
    (spells : Spells copy (listed (parameters.map Binding.written)) behind) :
    ∃ again : List Binding, again.map Binding.unplaced = parameters.map Binding.unplaced ∧
      MoreParameters copy again behind := by
  induction derived generalizing copy with
  | last inner isClose =>
    obtain ⟨middle, spelled, spelled'⟩ := spells.append
    obtain ⟨closer, rfl, isKind, -⟩ := spelled'.single
    obtain ⟨again, same, derived⟩ := bound_again inner spelled
    exact ⟨[again], by simp [same], .last derived isKind⟩
  | more inner isComma others further =>
    rw [List.map_cons, listed_cons others.written_ne_nil] at spells
    obtain ⟨middle, spelled, spelled'⟩ := spells.append
    obtain ⟨comma, back, rfl, isKind, -, spelled'⟩ := spelled'.cons
    obtain ⟨again, same, derived⟩ := bound_again inner spelled
    obtain ⟨again', same', derived'⟩ := further spelled'
    exact ⟨again :: again', by simp [same, same'], .more derived isKind derived'⟩

theorem parameters_again {tokens rest copy behind : List Token} {parameters : List Binding}
    (derived : Parameters tokens parameters rest)
    (spells : Spells copy (listed (parameters.map Binding.written)) behind) :
    ∃ again : List Binding, again.map Binding.unplaced = parameters.map Binding.unplaced ∧
      Parameters copy again behind := by
  cases derived with
  | empty isClose =>
    obtain ⟨closer, rfl, isKind, -⟩ := spells.single
    exact ⟨[], rfl, .empty isKind⟩
  | listed inner =>
    obtain ⟨again, same, derived⟩ := moreParameters_again inner spells
    exact ⟨again, same, .listed derived⟩

theorem initialValue_again {tokens rest copy behind : List Token} {value : Option Expr}
    (derived : InitialValue tokens value rest)
    (spells : Spells copy (writtenInitial value ++ [(.semicolon, ";")]) behind) :
    ∃ again : Option Expr, again.map Expr.unplaced = value.map Expr.unplaced ∧
      InitialValue copy again behind := by
  cases derived with
  | absent isEnd =>
    obtain ⟨semicolon, rfl, isKind, -⟩ := spells.single
    exact ⟨none, rfl, .absent isKind⟩
  | present isEqual inner isEnd =>
    obtain ⟨sign, others, rfl, isKind, -, spelled⟩ := spells.cons
    obtain ⟨middle, spelled, spelled'⟩ := spelled.append
    obtain ⟨semicolon, rfl, isKind', -⟩ := spelled'.single
    obtain ⟨again, same, derived⟩ :=
      expression_again inner spelled (endsValue_of_same isEnd isKind')
    exact ⟨some again, congrArg some same, .present isKind derived isKind'⟩

theorem letDeclaration_again {tokens rest copy behind : List Token} {stmt : Stmt}
    (derived : LetDeclaration tokens stmt rest) (spells : Spells copy stmt.written behind) :
    ∃ again : Stmt, again.unplaced = stmt.unplaced ∧ LetDeclaration copy again behind := by
  cases derived with
  | declare isLet bound initial =>
    obtain ⟨word, others, rfl, isKind, -, spelled⟩ := spells.cons
    rw [Binding.written_initialized bound.uninitialized, List.append_assoc] at spelled
    obtain ⟨middle, spelled, spelled'⟩ := spelled.append
    obtain ⟨name, same, bound'⟩ := bound_again bound spelled
    obtain ⟨initializer, same', initial'⟩ := initialValue_again initial spelled'
    exact ⟨.declare { name with initializer, position := word.position },
      congrArg Stmt.declare (Binding.unplaced_initialized same same' _ _),
      .declare isKind bound' initial'⟩

theorem endsValue_semicolon {semicolon : Token} {behind : List Token}
    (isEnd : semicolon.kind = .semicolon) : EndsValue (semicolon :: behind) := by
  intro next ahead
  obtain rfl := Option.some.inj ahead
  exact .inl isEnd

theorem ended_again {tokens rest copy behind : List Token} {value : Expr}
    (derived : Expression tokens value rest)
    (spells : Spells copy (value.written ++ [(.semicolon, ";")]) behind) :
    ∃ (again : Expr) (position : Position), again.unplaced = value.unplaced ∧
      ExpressionStatement false copy (.expression again position) behind := by
  obtain ⟨middle, spelled, spelled'⟩ := spells.append
  obtain ⟨semicolon, rfl, isEnd, -⟩ := spelled'.single
  obtain ⟨again, same, derived⟩ :=
    expression_again derived spelled fun _ => endsValue_semicolon isEnd
  obtain ⟨first, more, rfl, -⟩ := derived.starts
  exact ⟨again, first.position, same, .ended derived isEnd⟩

theorem expressionStatement_again {implicit : Bool} {tokens rest copy behind : List Token}
    {stmt : Stmt} (derived : ExpressionStatement implicit tokens stmt rest)
    (spells : Spells copy stmt.written behind) :
    ∃ again : Stmt, again.unplaced = stmt.unplaced ∧
      ExpressionStatement false copy again behind := by
  cases derived with
  | ended inner isEnd =>
    obtain ⟨again, position, same, derived⟩ := ended_again inner spells
    exact ⟨_, by rw [Stmt.unplaced_expression, Stmt.unplaced_expression, same], derived⟩
  | returning inner isClose =>
    obtain ⟨again, position, same, derived⟩ := ended_again inner spells
    exact ⟨_, by rw [Stmt.unplaced_expression, Stmt.unplaced_expression, same], derived⟩
  | @tail first closer _ _ value allowed inner isClose plain =>
    -- the source has no token for the `return` that is written
    have explicit : Expression (⟨.returnWord, "return", value.position⟩ :: first :: _)
        (.returned (some value) value.position) _ := .returned rfl inner
    obtain ⟨again, position, same, derived⟩ := ended_again explicit spells
    exact ⟨_, by rw [Stmt.unplaced_expression, Stmt.unplaced_expression, same], derived⟩

theorem firstClause_again {implicit : Bool} {tokens rest copy behind : List Token}
    {stmt : Option Stmt} (derived : FirstClause implicit tokens stmt rest)
    (spells : Spells copy (Stmt.writtenFirst stmt) behind) :
    ∃ again : Option Stmt, again.map Stmt.unplaced = stmt.map Stmt.unplaced ∧
      FirstClause false copy again behind := by
  cases derived with
  | absent isEnd =>
    obtain ⟨semicolon, rfl, isKind, -⟩ := spells.single
    exact ⟨none, rfl, .absent isKind⟩
  | declaration inner =>
    obtain ⟨again, same, derived⟩ := letDeclaration_again inner spells
    exact ⟨some again, congrArg some same, .declaration derived⟩
  | expression inner =>
    obtain ⟨again, same, derived⟩ := expressionStatement_again inner spells
    exact ⟨some again, congrArg some same, .expression derived⟩

theorem clause_again {close : Token.Kind} {text : String} {words : List (Token.Kind × String)}
    {tokens rest copy behind : List Token} {value : Option Expr}
    (derived : Clause close tokens value rest)
    (spells : Spells copy (Expr.writtenOption value ++ (close, text) :: words) behind) :
    ∃ (again : Option Expr) (middle : List Token),
      again.map Expr.unplaced = value.map Expr.unplaced ∧ Clause close copy again middle ∧
        Spells middle words behind := by
  obtain ⟨middle, spelled, spelled'⟩ := spells.append
  obtain ⟨closer, others, rfl, isKind, -, spelled'⟩ := spelled'.cons
  cases derived with
  | absent isClose =>
    obtain rfl := spelled
    exact ⟨none, others, rfl, .absent isKind, spelled'⟩
  | present inner isClose =>
    obtain ⟨again, same, derived⟩ :=
      expression_again inner spelled (endsValue_of_same isClose isKind)
    exact ⟨some again, others, congrArg some same, .present derived isKind, spelled'⟩

theorem condition_again {tokens rest copy behind : List Token} {value : Expr}
    (derived : Condition tokens value rest) (spells : Spells copy (writtenCondition value) behind) :
    ∃ again : Expr, again.unplaced = value.unplaced ∧ Condition copy again behind := by
  cases derived with
  | parens isOpen inner isClose =>
    obtain ⟨opener, others, rfl, isKind, -, spelled⟩ := spells.cons
    obtain ⟨middle, spelled, spelled'⟩ := spelled.append
    obtain ⟨closer, rfl, isKind', -⟩ := spelled'.single
    obtain ⟨again, same, derived⟩ :=
      expression_again inner spelled (endsValue_of_same isClose isKind')
    exact ⟨again, same, .parens isKind derived isKind'⟩

def NoElse (tokens : List Token) : Prop := ∀ next ∈ tokens.head?, next.kind ≠ .elseWord

theorem noElse_of_kind {first : Token} {kind : Token.Kind} (more : List Token)
    (isKind : first.kind = kind) (other : kind ≠ .elseWord) : NoElse (first :: more) := by
  intro next ahead
  obtain rfl := Option.some.inj ahead
  rwa [isKind]

theorem Grammar.Declaration.noElse {implicit : Bool} {tokens rest : List Token} {stmt : Stmt}
    (derived : Declaration implicit tokens stmt rest) : NoElse tokens := by
  obtain ⟨first, more, rfl, opens⟩ := derived.starts
  refine noElse_of_kind more rfl fun isElse => ?_
  rw [isElse] at opens
  exact absurd opens (by decide)

mutual

theorem declaration_again : ∀ {implicit : Bool} {tokens rest : List Token} {stmt : Stmt},
    Declaration implicit tokens stmt rest → ∀ {copy behind : List Token},
      Spells copy stmt.written behind → (NoElse rest → NoElse behind) →
      ∃ again : Stmt, again.unplaced = stmt.unplaced ∧ Declaration false copy again behind
  | _, _, _, _, .letDeclaration inner, copy, behind, spells, _ => by
    obtain ⟨again, same, derived⟩ := letDeclaration_again inner spells
    exact ⟨again, same, .letDeclaration derived⟩
  | _, _, _, _, .typeDef _ _ _ _ _, copy, behind, spells, _ => by
    obtain ⟨word, others, rfl, isType, -, spelled⟩ := spells.cons
    obtain ⟨name, others, rfl, isName, isText, spelled⟩ := spelled.cons
    obtain ⟨sign, others, rfl, isEqual, -, spelled⟩ := spelled.cons
    obtain ⟨underlying, others, rfl, isUnderlying, isText', spelled⟩ := spelled.cons
    obtain ⟨semicolon, rfl, isEnd, -⟩ := spelled.single
    refine ⟨_, ?_, .typeDef isType isName isEqual isUnderlying isEnd⟩
    rw [isText, isText']
    rfl
  | _, _, _, _, .statement inner, copy, behind, spells, keeps => by
    obtain ⟨again, same, derived⟩ := statement_again inner spells keeps
    exact ⟨again, same, .statement derived⟩

theorem statement_again : ∀ {implicit : Bool} {tokens rest : List Token} {stmt : Stmt},
    Statement implicit tokens stmt rest → ∀ {copy behind : List Token},
      Spells copy stmt.written behind → (NoElse rest → NoElse behind) →
      ∃ again : Stmt, again.unplaced = stmt.unplaced ∧ Statement false copy again behind
  | _, _, _, _, .function _ _ _ listed mark inner, copy, behind, spells, keeps => by
    obtain ⟨word, others, rfl, isFn, -, spelled⟩ := spells.cons
    obtain ⟨name, others, rfl, isName, isText, spelled⟩ := spelled.cons
    obtain ⟨opener, others, rfl, isOpen, -, spelled⟩ := spelled.cons
    obtain ⟨middle, spelled, spelled'⟩ := spelled.append
    obtain ⟨next, marked, spelled'⟩ := spelled'.append
    obtain ⟨parameters, sameParameters, listed'⟩ := parameters_again listed spelled
    have mark' := typeMark_again mark marked
    obtain ⟨body, sameBody, derived⟩ := statement_again inner spelled' keeps
    refine ⟨_, ?_, .function isFn isName isOpen listed' mark' derived⟩
    rw [Stmt.unplaced_function, Stmt.unplaced_function, sameParameters, sameBody, isText]
  | _, _, _, _, .forLoop _ _ first next last inner, copy, behind, spells, keeps => by
    obtain ⟨word, others, rfl, isFor, -, spelled⟩ := spells.cons
    obtain ⟨opener, others, rfl, isOpen, -, spelled⟩ := spelled.cons
    obtain ⟨middle, spelled, spelled'⟩ := spelled.append
    obtain ⟨initializer, sameFirst, first'⟩ := firstClause_again first spelled
    obtain ⟨condition, middle, sameNext, next', spelled⟩ := clause_again next spelled'
    obtain ⟨increment, middle, sameLast, last', spelled⟩ := clause_again last spelled
    obtain ⟨body, sameBody, derived⟩ := statement_again inner spelled keeps
    refine ⟨_, ?_, .forLoop isFor isOpen first' next' last' derived⟩
    rw [Stmt.unplaced_forLoop, Stmt.unplaced_forLoop, sameFirst, sameNext, sameLast, sameBody]
  | _, _, _, _, .whileLoop _ test inner, copy, behind, spells, keeps => by
    obtain ⟨word, others, rfl, isWhile, -, spelled⟩ := spells.cons
    obtain ⟨middle, spelled, spelled'⟩ := spelled.append
    obtain ⟨condition, sameTest, test'⟩ := condition_again test spelled
    obtain ⟨body, sameBody, derived⟩ := statement_again inner spelled' keeps
    refine ⟨_, ?_, .whileLoop isWhile test' derived⟩
    rw [Stmt.unplaced_whileLoop, Stmt.unplaced_whileLoop, sameTest, sameBody]
  | _, _, _, _, .conditional _ test inner nearest, copy, behind, spells, keeps => by
    obtain ⟨word, others, rfl, isIf, -, whole⟩ := spells.cons
    obtain ⟨middle, spelled, branch⟩ := whole.append
    obtain ⟨next, spelled', none⟩ := branch.append
    obtain rfl : next = behind := none
    obtain ⟨condition, sameTest, test'⟩ := condition_again test spelled
    obtain ⟨yes, sameYes, derived⟩ := statement_again inner spelled' keeps
    refine ⟨_, ?_, .conditional isIf test' derived (keeps nearest)⟩
    rw [Stmt.unplaced_conditional, Stmt.unplaced_conditional, sameTest, sameYes]
  | _, _, _, _, .alternative _ test inner isElse second, copy, behind, spells, keeps => by
    obtain ⟨word, others, rfl, isIf, -, spelled⟩ := spells.cons
    obtain ⟨middle, spelled, spelled'⟩ := spelled.append
    obtain ⟨next, spelled', spelled''⟩ := spelled'.append
    obtain ⟨other, others, rfl, isElse', -, spelled''⟩ := spelled''.cons
    obtain ⟨condition, sameTest, test'⟩ := condition_again test spelled
    obtain ⟨yes, sameYes, derived⟩ :=
      statement_again inner spelled' fun none => absurd isElse (none _ rfl)
    obtain ⟨no, sameNo, derived'⟩ := statement_again second spelled'' keeps
    refine ⟨_, ?_, .alternative isIf test' derived isElse' derived'⟩
    rw [Stmt.unplaced_conditional, Stmt.unplaced_conditional, sameTest, sameYes]
    exact congrArg (fun no => Stmt.conditional _ _ (some no) _) sameNo
  | _, _, _, _, .block _ inner isClose, copy, behind, spells, keeps => by
    obtain ⟨opener, others, rfl, isOpen, -, spelled⟩ := spells.cons
    obtain ⟨middle, spelled, spelled'⟩ := spelled.append
    obtain ⟨closer, rfl, isClose', -⟩ := spelled'.single
    obtain ⟨body, same, derived⟩ :=
      declarations_again inner spelled fun _ => noElse_of_kind _ isClose' (by decide)
    refine ⟨_, ?_, .block isOpen derived isClose'⟩
    rw [Stmt.unplaced_block, Stmt.unplaced_block, same]
  | _, _, _, _, .expression inner, copy, behind, spells, _ => by
    obtain ⟨again, same, derived⟩ := expressionStatement_again inner spells
    exact ⟨again, same, .expression derived⟩

theorem declarations_again : ∀ {implicit : Bool} {tokens rest : List Token} {stmts : List Stmt},
    Declarations implicit tokens stmts rest → ∀ {copy behind : List Token},
      Spells copy (Stmt.writtenList stmts) behind → (NoElse rest → NoElse behind) →
      ∃ again : List Stmt, again.map Stmt.unplaced = stmts.map Stmt.unplaced ∧
        Declarations false copy again behind
  | _, _, _, _, .none, copy, behind, spells, _ => by
    obtain rfl := spells
    exact ⟨[], rfl, .none⟩
  | _, _, _, _, @Declarations.more _ _ between _ _ _ first second, copy, behind, spells, keeps => by
    obtain ⟨middle, spelled, spelled'⟩ := spells.append
    obtain ⟨others, same', derived'⟩ := declarations_again second spelled' keeps
    -- what stands behind the first one is the next one, or what stands behind all of them
    have keeps' : NoElse between → NoElse middle := by
      cases derived' with
      | none =>
        cases second with
        | none => exact keeps
        | more => cases same'
      | more next => exact fun _ => next.noElse
    obtain ⟨again, same, derived⟩ := declaration_again first spelled keeps'
    exact ⟨again :: others, by rw [List.map_cons, List.map_cons, same, same'],
      .more derived derived'⟩

end

/-- Tokens that are spelled like a derived program derive it again, without a `return` left out. -/
theorem derives_again {implicit : Bool} {tokens copy : List Token} {program : Program}
    (derived : Derives implicit tokens program)
    (spells : copy.map Token.spelled = program.written) :
    ∃ again : Program, again.unplaced = program.unplaced ∧ Derives false copy again := by
  obtain ⟨stmts, same, derived⟩ := declarations_again derived (.of_map spells) id
  refine ⟨⟨stmts⟩, ?_, derived⟩
  rw [Program.unplaced, Program.unplaced, Program.map, Program.map, Stmt.mapList_eq_map,
    Stmt.mapList_eq_map]
  exact congrArg Program.mk same

end YalSyntax
