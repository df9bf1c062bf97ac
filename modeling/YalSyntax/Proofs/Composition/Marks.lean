import YalSyntax.Proofs.Composition
import YalSyntax.Proofs.Grammar.Exactness

namespace YalSyntax

/-- What a token leaves in a tree. Types are kept without their positions, and so are names here. -/
inductive Mark
  | name (text : String)
  | literal (token : Token)
  | operator (kind : Token.Kind)
  | opens (position : Position)
deriving DecidableEq, Repr

namespace Token

namespace Kind

def isOperator (kind : Kind) : Bool :=
  (BinaryOp.ofKind? kind).isSome || (LogicalOp.ofKind? kind).isSome ||
    (UnaryOp.ofKind? kind).isSome

/-- The kinds that no rule of the grammar takes. -/
def unused : List Kind :=
  [leftBracket, rightBracket, dot, plusEqual, minusEqual, starEqual, slashEqual, caretEqual,
    arrow, leftArrow, fatArrow, switchWord, gotoWord]

/-- The kinds that only give a tree its shape, braces aside. -/
def isSilent : Kind → Bool
  | leftParen | rightParen | comma | colon | semicolon | equal => true
  | ifWord | elseWord | forWord | whileWord | letWord | returnWord | fnWord | typeWord => true
  | _ => false

def isPlain (kind : Kind) : Bool :=
  kind ≠ leftBrace && kind ≠ rightBrace && !unused.contains kind

theorem isPlain_of_silent {kind : Kind} (silent : kind.isSilent) : kind.isPlain := by
  cases kind <;> first | rfl | cases silent

theorem isPlain_of_operator {kind : Kind} (operator : kind.isOperator) : kind.isPlain := by
  cases kind <;> first | rfl | cases operator

theorem isPlain_of_literal {kind : Kind} (literal : kind.isLiteral) : kind.isPlain := by
  cases kind <;> first | rfl | cases literal

theorem not_unused_of_plain {kind : Kind} (plain : kind.isPlain) : kind ∉ unused := by
  intro mem
  simp [isPlain, mem] at plain

end Kind

/-- The mark of a token. Words and plain punctuation have none. -/
def mark? (token : Token) : Option Mark :=
  if token.kind = .identifier then some (.name token.text)
  else if token.kind.isLiteral then some (.literal token)
  else if token.kind.isOperator then some (.operator token.kind)
  else if token.kind = .leftBrace then some (.opens token.position)
  else none

end Token

namespace Expr

mutual

def marks : Expr → List Mark
  | binary left operator right _ => left.marks ++ .operator operator.kind :: right.marks
  | logical left operator right _ => left.marks ++ .operator operator.kind :: right.marks
  | prefixed operator value _ => .operator operator.kind :: value.marks
  | suffixed operator value _ => value.marks ++ [.operator operator.kind]
  | literal token => [.literal token]
  | grouping value _ => value.marks
  | ident name _ => [.name name]
  | assign name value _ => .name name :: value.marks
  | call name values _ => .name name :: marksList values
  | returned value _ => marksOption value

def marksList : List Expr → List Mark
  | [] => []
  | value :: values => value.marks ++ marksList values

def marksOption : Option Expr → List Mark
  | none => []
  | some value => value.marks

end

end Expr

def typeMarks (type? : Option String) : List Mark := type?.toList.map .name

def Binding.marks (binding : Binding) : List Mark :=
  .name binding.name :: (typeMarks binding.type? ++ Expr.marksOption binding.initializer)

namespace Stmt

mutual

def marks : Stmt → List Mark
  | expression value _ => value.marks
  | declare binding => binding.marks
  | typeDef name underlying _ => [.name name, .name underlying]
  | block body position => .opens position :: marksList body
  | conditional condition yes no _ => condition.marks ++ (yes.marks ++ marksOption no)
  | whileLoop condition body _ => condition.marks ++ body.marks
  | forLoop initializer condition increment body _ =>
    marksOption initializer ++
      (Expr.marksOption condition ++ (Expr.marksOption increment ++ body.marks))
  | function name parameters returns body _ =>
    .name name :: (parameters.flatMap Binding.marks ++ (typeMarks returns ++ body.marks))

def marksList : List Stmt → List Mark
  | [] => []
  | stmt :: stmts => stmt.marks ++ marksList stmts

def marksOption : Option Stmt → List Mark
  | none => []
  | some stmt => stmt.marks

end

mutual

/-- How many blocks stand within each other in a statement. -/
def blocks : Stmt → Nat
  | block body _ => blocksList body + 1
  | conditional _ yes no _ => max yes.blocks (blocksOption no)
  | whileLoop _ body _ | function _ _ _ body _ => body.blocks
  | forLoop initializer _ _ body _ => max (blocksOption initializer) body.blocks
  | expression _ _ | declare _ | typeDef _ _ _ => 0

def blocksList : List Stmt → Nat
  | [] => 0
  | stmt :: stmts => max stmt.blocks (blocksList stmts)

def blocksOption : Option Stmt → Nat
  | none => 0
  | some stmt => stmt.blocks

end

end Stmt

def Program.marks (program : Program) : List Mark := Stmt.marksList program.statements

def Program.blocks (program : Program) : Nat := Stmt.blocksList program.statements

def Token.depthAfter (token : Token) (depth : Nat) : Nat :=
  match token.kind with
  | .leftBrace => depth + 1
  | .rightBrace => depth - 1
  | _ => depth

theorem Token.depthAfter_of_plain {token : Token} (plain : token.kind.isPlain) (depth : Nat) :
    token.depthAfter depth = depth := by
  unfold depthAfter
  split <;> rename_i same <;> first | rfl | (rw [same] at plain; cases plain)

/-- The greatest depth of braces along tokens, from `depth` on. -/
def braceNesting (depth : Nat) : List Token → Nat
  | [] => depth
  | token :: tokens => max depth (braceNesting (token.depthAfter depth) tokens)

theorem le_braceNesting (depth : Nat) (tokens : List Token) : depth ≤ braceNesting depth tokens := by
  cases tokens with
  | nil => exact le_rfl
  | cons => exact le_max_left _ _

/-- The tokens of a phrase leave these marks, open this many braces within each other and close
them again, and each of them has a use. -/
structure Accounts (tokens : List Token) (marks : List Mark) (blocks : Nat) : Prop where
  kept : tokens.filterMap Token.mark? = marks
  nested : ∀ depth rest,
    braceNesting depth (tokens ++ rest) = max (depth + blocks) (braceNesting depth rest)
  useful : ∀ token ∈ tokens, token.kind ∉ Token.Kind.unused

namespace Accounts

variable {token : Token} {kind : Token.Kind} {tokens others : List Token}
  {marks marks' : List Mark} {blocks blocks' : Nat}

theorem nil : Accounts [] [] 0 where
  kept := rfl
  nested depth rest := by simp [le_braceNesting]
  useful := by simp

theorem append (first : Accounts tokens marks blocks) (second : Accounts others marks' blocks') :
    Accounts (tokens ++ others) (marks ++ marks') (max blocks blocks') where
  kept := by rw [List.filterMap_append, first.kept, second.kept]
  nested depth rest := by
    rw [List.append_assoc, first.nested, second.nested]
    omega
  useful token mem := by
    rcases List.mem_append.mp mem with mem | mem
    · exact first.useful token mem
    · exact second.useful token mem

theorem before (first : Accounts tokens marks 0) (second : Accounts others marks' blocks) :
    Accounts (tokens ++ others) (marks ++ marks') blocks := by
  have both := first.append second
  rwa [Nat.zero_max] at both

theorem cons {left : List Mark} (leaves : token.mark?.toList = left) (plain : token.kind.isPlain)
    (behind : Accounts tokens marks blocks) : Accounts (token :: tokens) (left ++ marks) blocks where
  kept := by
    rw [List.filterMap_cons, behind.kept, ← leaves]
    cases token.mark? <;> rfl
  nested depth rest := by
    rw [List.cons_append, braceNesting, Token.depthAfter_of_plain plain, behind.nested]
    omega
  useful := List.forall_mem_cons.mpr ⟨Token.Kind.not_unused_of_plain plain, behind.useful⟩

theorem silent (isKind : token.kind = kind) (isSilent : kind.isSilent)
    (behind : Accounts tokens marks blocks) : Accounts (token :: tokens) marks blocks := by
  have leaves : token.mark?.toList = [] := by
    rw [Token.mark?, isKind]
    cases kind <;> first | rfl | cases isSilent
  exact cons leaves (by rw [isKind]; exact Token.Kind.isPlain_of_silent isSilent) behind

theorem name (isName : token.kind = .identifier) (behind : Accounts tokens marks blocks) :
    Accounts (token :: tokens) (.name token.text :: marks) blocks := by
  have leaves : token.mark?.toList = [.name token.text] := by simp [Token.mark?, isName]
  exact cons leaves (by rw [isName]; rfl) behind

theorem operator (isSign : token.kind = kind) (isOperator : kind.isOperator)
    (behind : Accounts tokens marks blocks) :
    Accounts (token :: tokens) (.operator kind :: marks) blocks := by
  have leaves : token.mark?.toList = [.operator kind] := by
    rw [Token.mark?, isSign]
    cases kind <;> first | rfl | cases isOperator
  exact cons leaves (by rw [isSign]; exact Token.Kind.isPlain_of_operator isOperator) behind

theorem literal (isKind : token.kind = kind) (isLiteral : kind.isLiteral) :
    Accounts [token] [.literal token] 0 := by
  have leaves : token.mark?.toList = [.literal token] := by
    rw [Token.mark?, isKind]
    cases kind <;> first | rfl | cases isLiteral
  exact cons leaves (by rw [isKind]; exact Token.Kind.isPlain_of_literal isLiteral) nil

theorem closed (first : Accounts tokens marks blocks) (isKind : token.kind = kind)
    (isSilent : kind.isSilent) : Accounts (tokens ++ [token]) marks blocks := by
  have whole := first.append (nil.silent isKind isSilent)
  rwa [List.append_nil, Nat.max_zero] at whole

theorem block {opener closer : Token} (isOpen : opener.kind = .leftBrace)
    (inner : Accounts tokens marks blocks) (isClose : closer.kind = .rightBrace) :
    Accounts (opener :: (tokens ++ [closer])) (.opens opener.position :: marks) (blocks + 1) where
  kept := by
    have opens : opener.mark? = some (.opens opener.position) := by
      rw [Token.mark?, isOpen]
      rfl
    have closes : closer.mark? = none := by
      rw [Token.mark?, isClose]
      rfl
    rw [List.filterMap_cons_some opens, List.filterMap_append, inner.kept,
      List.filterMap_cons_none closes, List.filterMap_nil, List.append_nil]
  nested depth rest := by
    have up : opener.depthAfter depth = depth + 1 := by rw [Token.depthAfter, isOpen]
    have down : closer.depthAfter (depth + 1) = depth := by
      rw [Token.depthAfter, isClose, Nat.add_sub_cancel]
    -- behind the closing brace the depth is what it was before the opening brace
    have least := le_braceNesting depth rest
    rw [List.cons_append, List.append_assoc, braceNesting, up, inner.nested, List.singleton_append,
      braceNesting, down]
    omega
  useful := by
    have opens : opener.kind ∉ Token.Kind.unused := by rw [isOpen]; decide
    have closes : closer.kind ∉ Token.Kind.unused := by rw [isClose]; decide
    simp only [List.mem_cons, List.mem_append, List.not_mem_nil, or_false]
    rintro token (rfl | mem | rfl)
    · exact opens
    · exact inner.useful token mem
    · exact closes

end Accounts

theorem BinaryOp.isOperator_kind (operator : BinaryOp) : operator.kind.isOperator := by
  cases operator <;> rfl

theorem LogicalOp.isOperator_kind (operator : LogicalOp) : operator.kind.isOperator := by
  cases operator <;> rfl

theorem UnaryOp.isOperator_kind (operator : UnaryOp) : operator.kind.isOperator := by
  cases operator <;> rfl

mutual

theorem Expr.MadeOf.accounts : ∀ {value : Expr} {used : List Token},
    value.MadeOf used → Accounts used value.marks 0
  | _, _, .binary before isSign behind =>
    before.accounts.before (behind.accounts.operator isSign (BinaryOp.isOperator_kind _))
  | _, _, .logical before isSign behind =>
    before.accounts.before (behind.accounts.operator isSign (LogicalOp.isOperator_kind _))
  | _, _, .prefixed isSign inner => inner.accounts.operator isSign (UnaryOp.isOperator_kind _)
  | _, _, .suffixed isName isSign =>
    (Accounts.nil.operator isSign (UnaryOp.isOperator_kind _)).name isName
  | _, _, .literal isLiteral => .literal rfl isLiteral
  | _, _, .grouping isOpen inner isClose =>
    (inner.accounts.closed isClose rfl).silent isOpen rfl
  | _, _, .ident isName => Accounts.nil.name isName
  | _, _, .assign isName isEqual inner => (inner.accounts.silent isEqual rfl).name isName
  | _, _, .call isName isOpen inner => (inner.accounts.silent isOpen rfl).name isName
  | _, _, .valueless isReturn => Accounts.nil.silent isReturn rfl
  | _, _, .returned isReturn inner => inner.accounts.silent isReturn rfl

theorem Expr.ListMadeOf.accounts : ∀ {values : List Expr} {used : List Token},
    Expr.ListMadeOf values used → Accounts used (Expr.marksList values) 0
  | _, _, .none isClose => Accounts.nil.silent isClose rfl
  | _, _, .last inner isClose => inner.accounts.before (Accounts.nil.silent isClose rfl)
  | _, _, .more inner isComma behind => inner.accounts.before (behind.accounts.silent isComma rfl)

end

theorem Expr.OptionMadeOf.accounts {value : Option Expr} {used : List Token}
    (made : Expr.OptionMadeOf value used) : Accounts used (Expr.marksOption value) 0 := by
  cases made with
  | none => exact .nil
  | some inner => exact inner.accounts

theorem TypeMadeOf.accounts {type? : Option String} {used : List Token}
    (made : TypeMadeOf type? used) : Accounts used (typeMarks type?) 0 := by
  cases made with
  | none => exact .nil
  | some isColon isName => exact (Accounts.nil.name isName).silent isColon rfl

theorem Binding.MadeOf.accounts {binding : Binding} {used : List Token}
    (made : binding.MadeOf used) : Accounts used binding.marks 0 := by
  cases made with
  | name isName mark => simpa [Binding.marks, Expr.marksOption] using mark.accounts.name isName

theorem Binding.MadeOf.marks_initialized {binding : Binding} {used : List Token}
    (made : binding.MadeOf used) (initializer : Option Expr) (position : Position) :
    ({ binding with initializer, position } : Binding).marks =
      binding.marks ++ Expr.marksOption initializer := by
  cases made
  simp [Binding.marks, Expr.marksOption]

theorem Binding.ListMadeOf.accounts {parameters : List Binding} {used : List Token}
    (made : Binding.ListMadeOf parameters used) :
    Accounts used (parameters.flatMap Binding.marks) 0 := by
  induction made with
  | none isClose => exact Accounts.nil.silent isClose rfl
  | last inner isClose => exact inner.accounts.before (Accounts.nil.silent isClose rfl)
  | more inner isComma _ further => exact inner.accounts.before (further.silent isComma rfl)

theorem InitialMadeOf.accounts {value : Option Expr} {used : List Token}
    (made : InitialMadeOf value used) : Accounts used (Expr.marksOption value) 0 := by
  cases made with
  | none => exact .nil
  | some isEqual inner => exact inner.accounts.silent isEqual rfl

theorem ConditionMadeOf.accounts {value : Expr} {used : List Token}
    (made : ConditionMadeOf value used) : Accounts used value.marks 0 := by
  cases made with
  | parens isOpen inner isClose => exact (inner.accounts.closed isClose rfl).silent isOpen rfl

mutual

theorem Stmt.MadeOf.accounts : ∀ {stmt : Stmt} {used : List Token},
    stmt.MadeOf used → Accounts used stmt.marks stmt.blocks
  | _, _, .expression inner isEnd => inner.accounts.closed isEnd rfl
  | _, _, .returning inner => inner.accounts
  | _, _, .tail inner _ => inner.accounts
  | _, _, .declare isLet bound initial isEnd => by
    rw [Stmt.marks, bound.marks_initialized]
    exact (bound.accounts.before (initial.accounts.closed isEnd rfl)).silent isLet rfl
  | _, _, .typeDef isType isName isEqual isUnderlying isEnd =>
    ((((Accounts.nil.silent isEnd rfl).name isUnderlying).silent isEqual rfl).name isName).silent
      isType rfl
  | _, _, .block isOpen inner isClose => inner.accounts.block isOpen isClose
  | _, _, .conditional isIf test inner => by
    have whole := (test.accounts.before (inner.accounts.append .nil)).silent isIf rfl
    rwa [List.append_nil] at whole
  | _, _, .alternative isIf test inner isElse behind =>
    (test.accounts.before (inner.accounts.append (behind.accounts.silent isElse rfl))).silent
      isIf rfl
  | _, _, .whileLoop isWhile test inner => (test.accounts.before inner.accounts).silent isWhile rfl
  | _, _, .forLoop isFor isOpen start next isEnd last isClose inner => by
    have back := last.accounts.before (inner.accounts.silent isClose rfl)
    have middle := next.accounts.before (back.silent isEnd rfl)
    exact ((start.accounts.append middle).silent isOpen rfl).silent isFor rfl
  | _, _, .function isFn isName isOpen listed marked inner => by
    have behind := listed.accounts.before (marked.accounts.before inner.accounts)
    exact ((behind.silent isOpen rfl).name isName).silent isFn rfl

theorem Stmt.FirstMadeOf.accounts : ∀ {stmt : Option Stmt} {used : List Token},
    Stmt.FirstMadeOf stmt used → Accounts used (Stmt.marksOption stmt) (Stmt.blocksOption stmt)
  | _, _, .none isEnd => Accounts.nil.silent isEnd rfl
  | _, _, .some inner => inner.accounts

theorem Stmt.ListMadeOf.accounts : ∀ {stmts : List Stmt} {used : List Token},
    Stmt.ListMadeOf stmts used → Accounts used (Stmt.marksList stmts) (Stmt.blocksList stmts)
  | _, _, .none => .nil
  | _, _, .more inner behind => inner.accounts.append behind.accounts

end

/-- Reading keeps every name, literal, operator and opening brace of the tokens before the first end
token, in their order and as often as they stand there. So the braces go as deep as the blocks, and
no token without a rule is accepted. -/
theorem parseTokens_marks {tokens : List Token} {program : Program}
    (read : parseTokens tokens = .ok program) :
    (Reading.content tokens).filterMap Token.mark? = program.marks ∧
      braceNesting 0 (Reading.content tokens) = program.blocks ∧
      ∀ token ∈ Reading.content tokens, token.kind ∉ Token.Kind.unused := by
  have made := (derives_of_parseTokens read).madeOf
  have account : Accounts _ program.marks program.blocks := made.accounts
  have deepest := account.nested 0 []
  rw [List.append_nil, Nat.zero_add, braceNesting, Nat.max_zero] at deepest
  exact ⟨account.kept, deepest, account.useful⟩

theorem parseTokens_marks_blocks :
    let tokens : List Token := [⟨.leftBrace, "\x7b", ⟨1, 1⟩⟩, ⟨.leftBrace, "\x7b", ⟨1, 3⟩⟩,
      ⟨.identifier, "x", ⟨1, 5⟩⟩, ⟨.equal, "=", ⟨1, 7⟩⟩, ⟨.minus, "-", ⟨1, 9⟩⟩,
      ⟨.decimalNumber, "1", ⟨1, 10⟩⟩, ⟨.semicolon, ";", ⟨1, 11⟩⟩, ⟨.rightBrace, "\x7d", ⟨1, 13⟩⟩,
      ⟨.identifier, "x", ⟨1, 15⟩⟩, ⟨.increment, "++", ⟨1, 16⟩⟩, ⟨.rightBrace, "\x7d", ⟨1, 19⟩⟩]
    (Reading.content tokens).filterMap Token.mark? =
        [.opens ⟨1, 1⟩, .opens ⟨1, 3⟩, .name "x", .operator .minus,
          .literal ⟨.decimalNumber, "1", ⟨1, 10⟩⟩, .name "x", .operator .increment] ∧
      braceNesting 0 (Reading.content tokens) = 2 := by
  intro tokens
  have read : parseTokens tokens = .ok ⟨[.block [
      .block [.expression (.assign "x" (.prefixed .negate
        (.literal ⟨.decimalNumber, "1", ⟨1, 10⟩⟩) ⟨1, 9⟩) ⟨1, 5⟩) ⟨1, 5⟩] ⟨1, 3⟩,
      .expression (.returned (some (.suffixed .increment (.ident "x" ⟨1, 15⟩) ⟨1, 15⟩)) ⟨1, 15⟩)
        ⟨1, 15⟩] ⟨1, 1⟩]⟩ := by cbv
  obtain ⟨kept, deepest, -⟩ := parseTokens_marks read
  exact ⟨kept, deepest⟩

end YalSyntax
