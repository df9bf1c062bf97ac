import Mathlib
import YalSyntax.Proofs.Grammar.Exactness
import YalSyntax.Proofs.Rendering.Statement

namespace YalSyntax

/-- A statement in which one statement is left out. -/
inductive Stmt.Context
  | here
  | function (name : String) (parameters : List Binding) (returns : Option String) (inner : Context)
      (position : Position)
  | forLoop (initializer : Option Stmt) (condition increment : Option Expr) (inner : Context)
      (position : Position)
  | whileLoop (condition : Expr) (inner : Context) (position : Position)
  | consequent (condition : Expr) (inner : Context) (no : Option Stmt) (position : Position)
  | alternative (condition : Expr) (yes : Stmt) (inner : Context) (position : Position)
  | block (before : List Stmt) (inner : Context) (behind : List Stmt) (position : Position)

def Stmt.Context.fill : Context → Stmt → Stmt
  | here, stmt => stmt
  | function name parameters returns inner position, stmt =>
    .function name parameters returns (inner.fill stmt) position
  | forLoop initializer condition increment inner position, stmt =>
    .forLoop initializer condition increment (inner.fill stmt) position
  | whileLoop condition inner position, stmt => .whileLoop condition (inner.fill stmt) position
  | consequent condition inner no position, stmt =>
    .conditional condition (inner.fill stmt) no position
  | alternative condition yes inner position, stmt =>
    .conditional condition yes (some (inner.fill stmt)) position
  | block before inner behind position, stmt =>
    .block (before ++ inner.fill stmt :: behind) position

structure Program.Context where
  before : List Stmt
  inner : Stmt.Context
  behind : List Stmt

def Program.Context.fill (context : Context) (stmt : Stmt) : Program :=
  ⟨context.before ++ context.inner.fill stmt :: context.behind⟩

theorem Stmt.Context.unplaced_fill {first second : Stmt} (same : first.unplaced = second.unplaced)
    (context : Context) : (context.fill first).unplaced = (context.fill second).unplaced := by
  induction context with
  | here => exact same
  | function _ _ _ _ _ further => simp only [fill, unplaced_function, further]
  | forLoop _ _ _ _ _ further => simp only [fill, unplaced_forLoop, further]
  | whileLoop _ _ _ further => simp only [fill, unplaced_whileLoop, further]
  | consequent _ _ _ _ further => simp only [fill, unplaced_conditional, further]
  | alternative _ _ _ _ further => simp only [fill, unplaced_conditional, Option.map_some, further]
  | block _ _ _ _ further =>
    simp only [fill, unplaced_block, List.map_append, List.map_cons, further]

theorem Program.Context.unplaced_fill {first second : Stmt}
    (same : first.unplaced = second.unplaced) (context : Context) :
    (context.fill first).unplaced = (context.fill second).unplaced := by
  have inner := context.inner.unplaced_fill same
  unfold Stmt.unplaced at inner
  simp only [fill, unplaced, map, Stmt.mapList_eq_map, List.map_append, List.map_cons, inner]

namespace Grammar

/-- The tokens are those of a statement, but for one within it, which starts at `start` and leaves
`stop`. -/
inductive StatementAround (implicit : Bool) (start stop : List Token) :
    List Token → Stmt.Context → List Token → Prop
  | here : StatementAround implicit start stop start .here stop
  | function {word name opener : Token} {tokens middle behind rest : List Token}
      {parameters : List Binding} {returns : Option String} {context : Stmt.Context}
      (isFn : word.kind = .fnWord) (isName : name.kind = .identifier)
      (isOpen : opener.kind = .leftParen) (listed : Parameters tokens parameters middle)
      (mark : TypeMark middle returns behind)
      (around : StatementAround implicit start stop behind context rest) :
      StatementAround implicit start stop (word :: name :: opener :: tokens)
        (.function name.text parameters returns context word.position) rest
  | forLoop {word opener : Token} {tokens second third behind rest : List Token}
      {initializer : Option Stmt} {condition increment : Option Expr} {context : Stmt.Context}
      (isFor : word.kind = .forWord) (isOpen : opener.kind = .leftParen)
      (first : FirstClause implicit tokens initializer second)
      (next : Clause .semicolon second condition third)
      (last : Clause .rightParen third increment behind)
      (around : StatementAround implicit start stop behind context rest) :
      StatementAround implicit start stop (word :: opener :: tokens)
        (.forLoop initializer condition increment context word.position) rest
  | whileLoop {word : Token} {tokens behind rest : List Token} {condition : Expr}
      {context : Stmt.Context} (isWhile : word.kind = .whileWord)
      (test : Condition tokens condition behind)
      (around : StatementAround implicit start stop behind context rest) :
      StatementAround implicit start stop (word :: tokens)
        (.whileLoop condition context word.position) rest
  | conditional {word : Token} {tokens behind rest : List Token} {condition : Expr}
      {context : Stmt.Context} (isIf : word.kind = .ifWord)
      (test : Condition tokens condition behind)
      (around : StatementAround implicit start stop behind context rest)
      (nearest : ∀ next ∈ rest.head?, next.kind ≠ .elseWord) :
      StatementAround implicit start stop (word :: tokens)
        (.consequent condition context none word.position) rest
  | consequent {word other : Token} {tokens behind middle rest : List Token} {condition : Expr}
      {context : Stmt.Context} {no : Stmt} (isIf : word.kind = .ifWord)
      (test : Condition tokens condition behind)
      (around : StatementAround implicit start stop behind context (other :: middle))
      (isElse : other.kind = .elseWord) (second : Statement implicit middle no rest) :
      StatementAround implicit start stop (word :: tokens)
        (.consequent condition context (some no) word.position) rest
  | alternative {word other : Token} {tokens behind middle rest : List Token} {condition : Expr}
      {yes : Stmt} {context : Stmt.Context} (isIf : word.kind = .ifWord)
      (test : Condition tokens condition behind)
      (inner : Statement implicit behind yes (other :: middle)) (isElse : other.kind = .elseWord)
      (around : StatementAround implicit start stop middle context rest) :
      StatementAround implicit start stop (word :: tokens)
        (.alternative condition yes context word.position) rest
  | block {opener closer : Token} {tokens middle behind rest : List Token}
      {before others : List Stmt} {context : Stmt.Context} (isOpen : opener.kind = .leftBrace)
      (first : Declarations implicit tokens before middle)
      (around : StatementAround implicit start stop middle context behind)
      (last : Declarations implicit behind others (closer :: rest))
      (isClose : closer.kind = .rightBrace) :
      StatementAround implicit start stop (opener :: tokens)
        (.block before context others opener.position) rest

inductive ProgramAround (implicit : Bool) (start stop : List Token) :
    List Token → Program.Context → Prop
  | among {tokens middle behind : List Token} {before others : List Stmt} {context : Stmt.Context}
      (first : Declarations implicit tokens before middle)
      (around : StatementAround implicit start stop middle context behind)
      (last : Declarations implicit behind others []) :
      ProgramAround implicit start stop tokens ⟨before, context, others⟩

section

variable {implicit : Bool} {tokens rest : List Token} {result : Expr} {position : Position}

theorem Declarations.split : ∀ {before others : List Stmt} {stmt : Stmt} {tokens rest : List Token},
    Declarations implicit tokens (before ++ stmt :: others) rest →
      ∃ middle behind, Declarations implicit tokens before middle ∧
        Declaration implicit middle stmt behind ∧ Declarations implicit behind others rest
  | [], _, _, _, _, .more first second => ⟨_, _, .none, first, second⟩
  | _ :: _, _, _, _, _, .more first second => by
    obtain ⟨middle, behind, before, here, others⟩ := second.split
    exact ⟨middle, behind, .more first before, here, others⟩

theorem Declaration.statement_of_fill {context : Stmt.Context}
    (derived : Declaration implicit tokens (context.fill (.expression result position)) rest) :
    Statement implicit tokens (context.fill (.expression result position)) rest := by
  generalize filled : context.fill (.expression result position) = stmt at derived ⊢
  cases derived with
  | statement inner => exact inner
  | letDeclaration inner =>
    cases inner
    cases context <;> cases filled
  | typeDef => cases context <;> cases filled

/-- Wherever a statement holds an expression, its tokens are those around the expression. -/
theorem Statement.around_of_fill {context : Stmt.Context}
    (derived : Statement implicit tokens (context.fill (.expression result position)) rest) :
    ∃ start stop, StatementAround implicit start stop tokens context rest ∧
      ExpressionStatement implicit start (.expression result position) stop := by
  induction context generalizing tokens rest with
  | here =>
    cases derived with
    | expression inner => exact ⟨tokens, rest, .here, inner⟩
  | function name parameters returns context place further =>
    cases derived with
    | expression inner => cases inner
    | function isFn isName isOpen listed mark inner =>
      obtain ⟨start, stop, around, here⟩ := further inner
      exact ⟨start, stop, .function isFn isName isOpen listed mark around, here⟩
  | forLoop initializer condition increment context place further =>
    cases derived with
    | expression inner => cases inner
    | forLoop isFor isOpen first next last inner =>
      obtain ⟨start, stop, around, here⟩ := further inner
      exact ⟨start, stop, .forLoop isFor isOpen first next last around, here⟩
  | whileLoop condition context place further =>
    cases derived with
    | expression inner => cases inner
    | whileLoop isWhile test inner =>
      obtain ⟨start, stop, around, here⟩ := further inner
      exact ⟨start, stop, .whileLoop isWhile test around, here⟩
  | consequent condition context no place further =>
    cases derived with
    | expression inner => cases inner
    | conditional isIf test inner nearest =>
      obtain ⟨start, stop, around, here⟩ := further inner
      exact ⟨start, stop, .conditional isIf test around nearest, here⟩
    | alternative isIf test inner isElse second =>
      obtain ⟨start, stop, around, here⟩ := further inner
      exact ⟨start, stop, .consequent isIf test around isElse second, here⟩
  | alternative condition yes context place further =>
    cases derived with
    | expression inner => cases inner
    | alternative isIf test inner isElse second =>
      obtain ⟨start, stop, around, here⟩ := further second
      exact ⟨start, stop, .alternative isIf test inner isElse around, here⟩
  | block before context others place further =>
    cases derived with
    | expression inner => cases inner
    | block isOpen inner isClose =>
      obtain ⟨middle, behind, first, filled, last⟩ := inner.split
      obtain ⟨start, stop, around, here⟩ := further filled.statement_of_fill
      exact ⟨start, stop, .block isOpen first around last isClose, here⟩

theorem Derives.around_of_fill {context : Program.Context}
    (derived : Derives implicit tokens (context.fill (.expression result position))) :
    ∃ start stop, ProgramAround implicit start stop tokens context ∧
      ExpressionStatement implicit start (.expression result position) stop := by
  obtain ⟨before, inner, others⟩ := context
  obtain ⟨middle, behind, first, filled, last⟩ := Declarations.split derived
  obtain ⟨start, stop, around, here⟩ := filled.statement_of_fill.around_of_fill
  exact ⟨start, stop, .among first around last, here⟩

theorem FirstClause.ended {second third : List Token} {condition : Option Expr}
    (first : FirstClause implicit tokens (some (.expression result position)) second)
    (next : Clause .semicolon second condition third) :
    ∃ semicolon, semicolon.kind = .semicolon ∧ Expression tokens result (semicolon :: second) := by
  have isOpen : ∀ {closer : Token} {more : List Token}, second = closer :: more →
      closer.kind ≠ .rightBrace := by
    rintro closer more rfl isClose
    cases next with
    | absent isEnd => rw [isEnd] at isClose; cases isClose
    | present inner =>
      obtain ⟨_, _, same, opens⟩ := inner.starts
      cases same
      rw [isClose] at opens
      cases opens
  cases first with
  | declaration inner => cases inner
  | expression inner =>
    cases inner with
    | ended inner isEnd => exact ⟨_, isEnd, inner⟩
    | returning inner isClose => exact absurd isClose (isOpen rfl)
    | tail _ inner isClose => exact absurd isClose (isOpen rfl)

end

theorem Replaces.of_starts {rest other : List Token}
    (starts : StartsWith Token.Kind.opensStatement rest)
    (starts' : StartsWith Token.Kind.opensStatement other) : Replaces rest other := by
  obtain ⟨first, more, rfl, opens⟩ := starts
  obtain ⟨next, behind, rfl, opens'⟩ := starts'
  refine ⟨?_, fun _ => Reading.forall_head fun isElse => ?_⟩
  · rintro ⟨_, _, same, isClose⟩
    cases same
    rw [of_decide_eq_true isClose] at opens
    cases opens
  · rw [isElse] at opens'
    cases opens'

end Grammar

namespace Reading

open Grammar

/-- In the place where `start` is another statement may stand that ends where the one left out did:
it is read with its surroundings, which open levels of their own. -/
def Admitted (start stop tokens : List Token) (context : Stmt.Context) (rest : List Token) : Prop :=
  ∃ (front : List Token) (deepen : Nat → Nat), tokens = front ++ start ∧
    ∀ other, StartsWith Token.Kind.opensStatement other →
      StartsWith Token.Kind.opensStatement (front ++ other) ∧
        ∀ {stmt : Stmt} {depth : Nat}, StatementComes depth other stmt stop →
          StatementComes (deepen depth) (front ++ other) (context.fill stmt) rest

theorem starts_cons {word : Token} {kind : Token.Kind} (isKind : word.kind = kind)
    (opens : kind.opensStatement) (more : List Token) :
    StartsWith Token.Kind.opensStatement (word :: more) :=
  ⟨word, more, rfl, by rw [isKind]; exact opens⟩

namespace Admitted

variable {implicit : Bool} {start stop tokens middle behind rest : List Token}
  {word other opener closer : Token} {condition : Expr} {context : Stmt.Context}

theorem here : Admitted start stop start .here stop :=
  ⟨[], id, rfl, fun _ opens => ⟨opens, fun inner => inner⟩⟩

theorem function {name : Token} {parameters : List Binding} {returns : Option String}
    (admitted : Admitted start stop behind context rest) (isFn : word.kind = .fnWord)
    (isName : name.kind = .identifier) (isOpen : opener.kind = .leftParen)
    (listed : Parameters tokens parameters middle) (mark : TypeMark middle returns behind) :
    Admitted start stop (word :: name :: opener :: tokens)
      (.function name.text parameters returns context word.position) rest := by
  obtain ⟨front, deepen, rfl, admits⟩ := admitted
  obtain ⟨type, rfl, returns⟩ := mark.moves
  obtain ⟨names, rfl, parameters⟩ := listed.moves
  refine ⟨word :: name :: opener :: (names ++ (type ++ front)), fun depth => deepen depth + 1,
    by simp, fun other opens => ⟨starts_cons isFn rfl _, fun inner => ?_⟩⟩
  obtain ⟨starts, filled⟩ := admits other opens
  have whole := comes_function isFn isName isOpen (parameters _) (returns _) starts (filled inner)
  simpa [Stmt.Context.fill] using whole

theorem forLoop {second third : List Token} {initializer : Option Stmt}
    {tested stepped : Option Expr} (admitted : Admitted start stop behind context rest)
    (starts : StartsWith Token.Kind.opensStatement start) (isFor : word.kind = .forWord)
    (isOpen : opener.kind = .leftParen) (first : FirstClause implicit tokens initializer second)
    (next : Clause .semicolon second tested third) (last : Clause .rightParen third stepped behind) :
    Admitted start stop (word :: opener :: tokens)
      (.forLoop initializer tested stepped context word.position) rest := by
  obtain ⟨front, deepen, rfl, admits⟩ := admitted
  obtain ⟨third, rfl, increment⟩ := last.moves
  obtain ⟨second, rfl, condition⟩ := next.moves
  obtain ⟨clause, head, rfl, -, initializer⟩ := firstClause_complete first
  refine ⟨word :: opener :: (clause ++ (second ++ (third ++ front))),
    fun depth => max head (max (Expr.levelsOption tested) (max (Expr.levelsOption stepped)
      (deepen depth + 1))),
    by simp, fun other opens => ⟨starts_cons isFor rfl _, fun inner => ?_⟩⟩
  obtain ⟨starts', filled⟩ := admits other opens
  have behind := Replaces.of_starts (admits start starts).1 starts'
  have whole := comes_forLoop isFor isOpen (initializer _ ((behind.append third).append second))
    (condition _) (increment _) (filled inner)
  simpa [Stmt.Context.fill] using whole

theorem whileLoop (admitted : Admitted start stop behind context rest)
    (isWhile : word.kind = .whileWord) (test : Condition tokens condition behind) :
    Admitted start stop (word :: tokens) (.whileLoop condition context word.position) rest := by
  obtain ⟨front, deepen, rfl, admits⟩ := admitted
  obtain ⟨between, rfl, tested⟩ := test.moves
  refine ⟨word :: (between ++ front), fun depth => max (condition.levels + 1) (deepen depth + 1),
    by simp, fun other opens => ⟨starts_cons isWhile rfl _, fun inner => ?_⟩⟩
  have whole := comes_whileLoop isWhile (tested _) ((admits other opens).2 inner)
  simpa [Stmt.Context.fill] using whole

theorem conditional (admitted : Admitted start stop behind context rest)
    (isIf : word.kind = .ifWord) (test : Condition tokens condition behind)
    (nearest : ∀ next ∈ rest.head?, next.kind ≠ .elseWord) :
    Admitted start stop (word :: tokens) (.consequent condition context none word.position)
      rest := by
  obtain ⟨front, deepen, rfl, admits⟩ := admitted
  obtain ⟨between, rfl, tested⟩ := test.moves
  refine ⟨word :: (between ++ front), fun depth => max (condition.levels + 1) (deepen depth + 1),
    by simp, fun other opens => ⟨starts_cons isIf rfl _, fun inner => ?_⟩⟩
  have whole := comes_conditional isIf (tested _) ((admits other opens).2 inner) nearest
  simpa [Stmt.Context.fill] using whole

theorem consequent {no : Stmt} (admitted : Admitted start stop behind context (other :: middle))
    (isIf : word.kind = .ifWord) (test : Condition tokens condition behind)
    (isElse : other.kind = .elseWord) (second : Statement implicit middle no rest) :
    Admitted start stop (word :: tokens) (.consequent condition context (some no) word.position)
      rest := by
  obtain ⟨front, deepen, rfl, admits⟩ := admitted
  obtain ⟨between, rfl, tested⟩ := test.moves
  obtain ⟨used, levels, rfl, -, -, comesOther⟩ := statement_complete second
  refine ⟨word :: (between ++ front),
    fun depth => max (condition.levels + 1) (max (deepen depth + 1) (levels + 1)),
    by simp, fun other opens => ⟨starts_cons isIf rfl _, fun inner => ?_⟩⟩
  have whole := comes_alternative isIf (tested _) ((admits other opens).2 inner) isElse
    (comesOther _ (.refl _))
  simpa [Stmt.Context.fill] using whole

theorem alternative {yes : Stmt} (admitted : Admitted start stop middle context rest)
    (isIf : word.kind = .ifWord) (test : Condition tokens condition behind)
    (first : Statement implicit behind yes (other :: middle)) (isElse : other.kind = .elseWord) :
    Admitted start stop (word :: tokens) (.alternative condition yes context word.position)
      rest := by
  obtain ⟨front, deepen, rfl, admits⟩ := admitted
  obtain ⟨used, levels, rfl, -, -, comesYes⟩ := statement_complete first
  obtain ⟨between, rfl, tested⟩ := test.moves
  refine ⟨word :: (between ++ (used ++ other :: front)),
    fun depth => max (condition.levels + 1) (max (levels + 1) (deepen depth + 1)),
    by simp, fun more opens => ⟨starts_cons isIf rfl _, fun inner => ?_⟩⟩
  have yes := comesYes (other :: (front ++ more)) (.cons _ _ _)
  have whole := comes_alternative isIf (tested _) yes isElse ((admits more opens).2 inner)
  simpa [Stmt.Context.fill] using whole

theorem among {before others : List Stmt} (admitted : Admitted start stop middle context behind)
    (starts : StartsWith Token.Kind.opensStatement start)
    (first : Declarations implicit tokens before middle)
    {comes : Nat → List Token → List Stmt → Prop} (gathers : Gathers comes) {depth : Nat}
    (last : comes depth behind others) :
    ∃ (front : List Token) (deepen : Nat → Nat), tokens = front ++ start ∧
      ∀ other, StartsWith Token.Kind.opensStatement other →
        ∀ {stmt : Stmt} {depth : Nat}, StatementComes depth other stmt stop →
          comes (deepen depth) (front ++ other) (before ++ context.fill stmt :: others) := by
  obtain ⟨front, deepen, rfl, admits⟩ := admitted
  obtain ⟨used, levels, rfl, -, comesBefore⟩ := declarations_complete first
  refine ⟨used ++ front, fun needed => max levels (max (deepen needed + 1) depth), by simp,
    fun other opens stmt needed inner => ?_⟩
  obtain ⟨starts', filled⟩ := admits other opens
  have here := comes_statement starts' (filled inner)
  have rest := gathers (starts'.imp Token.Kind.opensDeclaration_of_statement) here last
  rw [List.append_assoc]
  exact comesBefore _ gathers (.of_starts (admits start starts).1 starts') rest

theorem block {before others : List Stmt} (admitted : Admitted start stop middle context behind)
    (starts : StartsWith Token.Kind.opensStatement start) (isOpen : opener.kind = .leftBrace)
    (first : Declarations implicit tokens before middle)
    (last : Declarations implicit behind others (closer :: rest))
    (isClose : closer.kind = .rightBrace) :
    Admitted start stop (opener :: tokens) (.block before context others opener.position) rest := by
  obtain ⟨used, levels, rfl, -, comesBehind⟩ := declarations_complete last
  have closed :=
    comesBehind (closer :: rest) (gathers_block rest) (.refl _) (comes_closed isClose)
  rw [List.append_nil] at closed
  obtain ⟨front, deepen, rfl, among⟩ := admitted.among starts first (gathers_block rest) closed
  refine ⟨opener :: front, deepen, rfl, fun other opens => ⟨starts_cons isOpen rfl _, ?_⟩⟩
  intro stmt depth inner
  simpa [Stmt.Context.fill] using comes_block isOpen (among other opens inner)

end Admitted

section

variable {implicit : Bool} {start stop tokens rest : List Token}

theorem around_admitted {context : Stmt.Context}
    (around : StatementAround implicit start stop tokens context rest)
    (starts : StartsWith Token.Kind.opensStatement start) :
    Admitted start stop tokens context rest := by
  induction around with
  | here => exact .here
  | function isFn isName isOpen listed mark _ further =>
    exact further.function isFn isName isOpen listed mark
  | forLoop isFor isOpen first next last _ further =>
    exact further.forLoop starts isFor isOpen first next last
  | whileLoop isWhile test _ further => exact further.whileLoop isWhile test
  | conditional isIf test _ nearest further => exact further.conditional isIf test nearest
  | consequent isIf test _ isElse second further =>
    exact further.consequent isIf test isElse second
  | alternative isIf test inner isElse _ further =>
    exact further.alternative isIf test inner isElse
  | block isOpen first _ last isClose further =>
    exact further.block starts isOpen first last isClose

theorem program_around {context : Program.Context}
    (around : ProgramAround implicit start stop tokens context)
    (starts : StartsWith Token.Kind.opensStatement start) :
    ∃ (front : List Token) (deepen : Nat → Nat), tokens = front ++ start ∧
      ∀ other, StartsWith Token.Kind.opensStatement other →
        ∀ {stmt : Stmt} {depth : Nat}, StatementComes depth other stmt stop →
          ProgramComes (deepen depth) (front ++ other) (context.fill stmt).statements := by
  cases around with
  | among first around last =>
    obtain ⟨used, levels, same, -, comesBehind⟩ := declarations_complete last
    have finished := comesBehind [] gathers_program (.refl _) comes_finished
    rw [← same, List.append_nil] at finished
    exact (around_admitted around starts).among starts first gathers_program finished

end

end Reading

end YalSyntax
