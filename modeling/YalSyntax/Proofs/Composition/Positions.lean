import YalSyntax.Proofs.Composition
import YalSyntax.Proofs.Lexical.Order
import YalSyntax.Proofs.Rendering.RoundTrip

namespace YalSyntax

open Lexical Reading

/-- A token with this text stands at `position`. -/
def TextAt (tokens : List Token) (position : Position) (text : String) : Prop :=
  ∃ token ∈ tokens, token.position = position ∧ token.text = text

namespace Expr

mutual

def inside : Expr → List Expr
  | binary left _ right _ | logical left _ right _ =>
    (left :: left.inside) ++ (right :: right.inside)
  | prefixed _ value _ | suffixed _ value _ | grouping value _ | assign _ value _ =>
    value :: value.inside
  | literal _ | ident _ _ => []
  | call _ values _ => insideList values
  | returned value _ => insideOption value

def insideList : List Expr → List Expr
  | [] => []
  | value :: values => (value :: value.inside) ++ insideList values

def insideOption : Option Expr → List Expr
  | none => []
  | some value => value :: value.inside

end

def nodes (value : Expr) : List Expr := value :: value.inside

/-- The text by which an expression is known stands at its position. -/
def Points (tokens : List Token) : Expr → Prop
  | binary _ operator _ position => TextAt tokens position operator.symbol
  | logical _ operator _ position => TextAt tokens position operator.symbol
  | prefixed operator _ position => TextAt tokens position operator.symbol
  | suffixed _ operand position =>
    ∃ name place, operand = .ident name place ∧ TextAt tokens position name
  | literal token => token ∈ tokens
  | grouping _ position => TextAt tokens position "("
  | ident name position | assign name _ position | call name _ position =>
    TextAt tokens position name
  | returned _ position => TextAt tokens position "return"

def Pointed (tokens : List Token) (value : Expr) : Prop := ∀ node ∈ value.nodes, node.Points tokens

/-- The same for the value of a statement that begins with `first`. A `return` that the source
leaves out has no text of its own: it stands where its value does. -/
def Heads (tokens : List Token) (first : Token) : Expr → Prop
  | returned (some value) position =>
    if first.kind = .returnWord then TextAt tokens position "return" else position = value.position
  | value => value.Points tokens

end Expr

namespace Stmt

/-- An expression as a statement: it stands at the first of its tokens, and no node within it stands
before that. -/
structure Begins (tokens : List Token) (value : Expr) (position : Position) (first : Token)
    (more : List Token) : Prop where
  madeOf : (Stmt.expression value position).MadeOf (first :: more)
  within : first :: more <:+: tokens
  begins : first.position = position
  outermost : value.Heads tokens first
  inner : ∀ node ∈ value.inside, node.Points tokens
  behind : ∀ node ∈ value.nodes, position ≤ node.position

/-- The text by which a statement is known stands at its position, its parameters stand at their
names, the statements of its body in their order, and its expressions have true positions too. -/
def Points (tokens : List Token) : Stmt → Prop
  | expression value position => ∃ first more, Begins tokens value position first more
  | declare binding =>
    TextAt tokens binding.position "let" ∧ ∀ value ∈ binding.initializer, value.Pointed tokens
  | typeDef _ _ position => TextAt tokens position "type"
  | block body position =>
    TextAt tokens position "\x7b" ∧ body.Pairwise (·.position < ·.position)
  | conditional condition _ _ position =>
    TextAt tokens position "if" ∧ condition.Pointed tokens
  | whileLoop condition _ position => TextAt tokens position "while" ∧ condition.Pointed tokens
  | forLoop _ condition increment _ position =>
    TextAt tokens position "for" ∧ (∀ value ∈ condition, value.Pointed tokens) ∧
      ∀ value ∈ increment, value.Pointed tokens
  | function _ parameters _ _ position =>
    TextAt tokens position "fn" ∧ ∀ parameter ∈ parameters,
      TextAt tokens parameter.position parameter.name ∧
        ∀ value ∈ parameter.initializer, value.Pointed tokens

mutual

def inside : Stmt → List Stmt
  | block body _ => insideList body
  | conditional _ yes no _ => (yes :: yes.inside) ++ insideOption no
  | whileLoop _ body _ | function _ _ _ body _ => body :: body.inside
  | forLoop initializer _ _ body _ => insideOption initializer ++ (body :: body.inside)
  | expression _ _ | declare _ | typeDef _ _ _ => []

def insideList : List Stmt → List Stmt
  | [] => []
  | stmt :: stmts => (stmt :: stmt.inside) ++ insideList stmts

def insideOption : Option Stmt → List Stmt
  | none => []
  | some stmt => stmt :: stmt.inside

end

def nodes (stmt : Stmt) : List Stmt := stmt :: stmt.inside

end Stmt

/-- All statements of a program, with those within others. -/
def Program.nodes (program : Program) : List Stmt := Stmt.insideList program.statements

/-- Tokens as they are scanned: their texts are lexemes of their kinds, and each stands behind the
one before it. -/
structure Placed (tokens : List Token) : Prop where
  scanned : Scanned tokens
  ascending : Ascending tokens

namespace Placed

variable {tokens used : List Token}

theorem isLexeme (placed : Placed tokens) {token : Token} (mem : token ∈ tokens) :
    IsLexeme token.kind token.text.toList :=
  placed.scanned token.spelled (List.mem_map_of_mem mem)

theorem part (placed : Placed tokens) (within : used <:+: tokens) : Placed used where
  scanned := fun word mem => placed.scanned word ((within.map Token.spelled).subset mem)
  ascending := placed.ascending.sublist within.sublist

theorem textAt (placed : Placed tokens) {token : Token} {kind : Token.Kind} {text : String}
    (mem : token ∈ tokens) (isKind : token.kind = kind)
    (spelled : kind.isFixed ∧ kind.spelling = text) : TextAt tokens token.position text := by
  obtain ⟨fixed, rfl⟩ := spelled
  subst isKind
  have same := (placed.isLexeme mem).eq_spelling fixed
  exact ⟨token, mem, rfl, String.toList_inj.mp same⟩

end Placed

theorem Token.textAt {tokens : List Token} {token : Token} (mem : token ∈ tokens) :
    TextAt tokens token.position token.text := ⟨token, mem, rfl, rfl⟩

section Infix

variable {token : Token} {first second tokens : List Token}

theorem infix_split (within : first ++ second <:+: tokens) :
    first <:+: tokens ∧ second <:+: tokens :=
  ⟨(List.prefix_append first second).isInfix.trans within,
    (List.suffix_append first second).isInfix.trans within⟩

theorem infix_uncons (within : token :: second <:+: tokens) :
    token ∈ tokens ∧ second <:+: tokens :=
  ⟨within.subset List.mem_cons_self, (List.suffix_cons token second).isInfix.trans within⟩

end Infix

theorem Expr.Points.position_mem {tokens : List Token} {value : Expr} (points : value.Points tokens) :
    value.position ∈ tokens.map Token.position := by
  have of_text : ∀ {position : Position} {text : String}, TextAt tokens position text →
      position ∈ tokens.map Token.position := by
    rintro _ _ ⟨token, mem, rfl, -⟩
    exact List.mem_map_of_mem mem
  cases value with
  | literal token => exact List.mem_map_of_mem points
  | suffixed =>
    obtain ⟨_, _, -, at_⟩ := points
    exact of_text at_
  | _ => exact of_text points

theorem BinaryOp.spelled (operator : BinaryOp) :
    operator.kind.isFixed ∧ operator.kind.spelling = operator.symbol := by
  cases operator <;> exact ⟨rfl, rfl⟩

theorem LogicalOp.spelled (operator : LogicalOp) :
    operator.kind.isFixed ∧ operator.kind.spelling = operator.symbol := by
  cases operator <;> exact ⟨rfl, rfl⟩

theorem UnaryOp.spelled (operator : UnaryOp) :
    operator.kind.isFixed ∧ operator.kind.spelling = operator.symbol := by
  cases operator <;> exact ⟨rfl, rfl⟩

mutual

theorem Expr.MadeOf.pointed : ∀ {value : Expr} {used tokens : List Token},
    value.MadeOf used → Placed tokens → used <:+: tokens → value.Pointed tokens
  | _, _, _, .binary before isSign behind, placed, within => by
    obtain ⟨first, within⟩ := infix_split within
    obtain ⟨sign, second⟩ := infix_uncons within
    have text := placed.textAt sign isSign (BinaryOp.spelled _)
    have left := before.pointed placed first
    have right := behind.pointed placed second
    exact List.forall_mem_cons.mpr ⟨text, List.forall_mem_append.mpr ⟨left, right⟩⟩
  | _, _, _, .logical before isSign behind, placed, within => by
    obtain ⟨first, within⟩ := infix_split within
    obtain ⟨sign, second⟩ := infix_uncons within
    have text := placed.textAt sign isSign (LogicalOp.spelled _)
    have left := before.pointed placed first
    have right := behind.pointed placed second
    exact List.forall_mem_cons.mpr ⟨text, List.forall_mem_append.mpr ⟨left, right⟩⟩
  | _, _, _, .prefixed isSign inner, placed, within => by
    obtain ⟨sign, behind⟩ := infix_uncons within
    have text := placed.textAt sign isSign (UnaryOp.spelled _)
    exact List.forall_mem_cons.mpr ⟨text, inner.pointed placed behind⟩
  | _, _, _, .suffixed _ _, _, within => by
    have name := Token.textAt (infix_uncons within).1
    refine List.forall_mem_cons.mpr ⟨⟨_, _, rfl, name⟩, List.forall_mem_cons.mpr ⟨name, ?_⟩⟩
    exact List.forall_mem_nil _
  | _, _, _, .literal _, _, within =>
    List.forall_mem_cons.mpr ⟨(infix_uncons within).1, List.forall_mem_nil _⟩
  | _, _, _, .grouping isOpen inner _, placed, within => by
    obtain ⟨opener, behind⟩ := infix_uncons within
    have text := placed.textAt opener isOpen ⟨rfl, rfl⟩
    have value := inner.pointed placed (infix_split behind).1
    exact List.forall_mem_cons.mpr ⟨text, value⟩
  | _, _, _, .ident _, _, within =>
    List.forall_mem_cons.mpr ⟨Token.textAt (infix_uncons within).1, List.forall_mem_nil _⟩
  | _, _, _, .assign _ _ inner, placed, within => by
    obtain ⟨name, behind⟩ := infix_uncons within
    have value := inner.pointed placed (infix_uncons behind).2
    exact List.forall_mem_cons.mpr ⟨Token.textAt name, value⟩
  | _, _, _, .call _ _ inner, placed, within => by
    obtain ⟨name, behind⟩ := infix_uncons within
    have values := inner.pointed placed (infix_uncons behind).2
    exact List.forall_mem_cons.mpr ⟨Token.textAt name, values⟩
  | _, _, _, .valueless isReturn, placed, within => by
    have text := placed.textAt (infix_uncons within).1 isReturn ⟨rfl, rfl⟩
    exact List.forall_mem_cons.mpr ⟨text, List.forall_mem_nil _⟩
  | _, _, _, .returned isReturn inner, placed, within => by
    obtain ⟨word, behind⟩ := infix_uncons within
    have text := placed.textAt word isReturn ⟨rfl, rfl⟩
    have value := inner.pointed placed behind
    exact List.forall_mem_cons.mpr ⟨text, value⟩

theorem Expr.ListMadeOf.pointed : ∀ {values : List Expr} {used tokens : List Token},
    Expr.ListMadeOf values used → Placed tokens → used <:+: tokens →
      ∀ node ∈ Expr.insideList values, node.Points tokens
  | _, _, _, .none _, _, _ => List.forall_mem_nil _
  | _, _, _, .last inner _, placed, within => by
    have value := inner.pointed placed (infix_split within).1
    exact List.forall_mem_append.mpr ⟨value, List.forall_mem_nil _⟩
  | _, _, _, .more inner _ behind, placed, within => by
    obtain ⟨first, within⟩ := infix_split within
    have value := inner.pointed placed first
    have others := behind.pointed placed (infix_uncons within).2
    exact List.forall_mem_append.mpr ⟨value, others⟩

end

theorem Expr.OptionMadeOf.pointed {clause : Option Expr} {used tokens : List Token}
    (made : Expr.OptionMadeOf clause used) (placed : Placed tokens) (within : used <:+: tokens) :
    ∀ value ∈ clause, value.Pointed tokens := by
  cases made with
  | none => rintro _ ⟨⟩
  | some inner =>
    rintro _ ⟨⟩
    exact inner.pointed placed within

theorem InitialMadeOf.pointed {initial : Option Expr} {used tokens : List Token}
    (made : InitialMadeOf initial used) (placed : Placed tokens) (within : used <:+: tokens) :
    ∀ value ∈ initial, value.Pointed tokens := by
  cases made with
  | none => rintro _ ⟨⟩
  | some _ inner =>
    rintro _ ⟨⟩
    exact inner.pointed placed (infix_uncons within).2

theorem ConditionMadeOf.pointed {condition : Expr} {used tokens : List Token}
    (made : ConditionMadeOf condition used) (placed : Placed tokens) (within : used <:+: tokens) :
    condition.Pointed tokens := by
  cases made with
  | parens _ inner _ => exact inner.pointed placed (infix_split (infix_uncons within).2).1

theorem Binding.MadeOf.points {binding : Binding} {used tokens : List Token}
    (made : binding.MadeOf used) (within : used <:+: tokens) :
    TextAt tokens binding.position binding.name ∧
      ∀ value ∈ binding.initializer, value.Pointed tokens := by
  cases made with
  | name => exact ⟨Token.textAt (infix_uncons within).1, nofun⟩

theorem Binding.ListMadeOf.points {parameters : List Binding} {used tokens : List Token}
    (made : Binding.ListMadeOf parameters used) (within : used <:+: tokens) :
    ∀ parameter ∈ parameters, TextAt tokens parameter.position parameter.name ∧
      ∀ value ∈ parameter.initializer, value.Pointed tokens := by
  induction made with
  | none => exact List.forall_mem_nil _
  | last inner =>
    exact List.forall_mem_singleton.mpr (inner.points (infix_split within).1)
  | more inner _ _ further =>
    obtain ⟨first, within⟩ := infix_split within
    have others := further (infix_uncons within).2
    exact List.forall_mem_cons.mpr ⟨inner.points first, others⟩

theorem Ascending.head_le {first token : Token} {more : List Token}
    (ascending : Ascending (first :: more)) (mem : token ∈ first :: more) :
    first.position ≤ token.position := by
  rcases List.mem_cons.mp mem with rfl | mem
  · exact .inl rfl
  · exact .inr ((List.pairwise_cons.mp ascending).1 token mem)

namespace Expr.MadeOf

variable {value : Expr} {first : Token} {more tokens : List Token}

theorem behind_first (made : value.MadeOf (first :: more)) (placed : Placed (first :: more)) :
    ∀ node ∈ value.nodes, first.position ≤ node.position := by
  intro node mem
  -- the tokens of the expression alone are as good a place to point into as all tokens
  have points := made.pointed placed List.infix_rfl node mem
  obtain ⟨token, stands, same⟩ := List.mem_map.mp points.position_mem
  rw [← same]
  exact placed.ascending.head_le stands

theorem heads (made : value.MadeOf (first :: more)) (points : value.Points tokens) :
    value.Heads tokens first := by
  -- only the rule for a written `return` makes a `return` with a value
  match value, made with
  | .returned (some _) _, .returned isReturn _ =>
    rw [Expr.Heads, if_pos isReturn]
    exact points
  | .returned none _, _ => exact points
  | .binary .., _ | .logical .., _ | .prefixed .., _ | .suffixed .., _ | .literal .., _
  | .grouping .., _ | .ident .., _ | .assign .., _ | .call .., _ => exact points

theorem begins {others : List Token} (made : value.MadeOf (first :: more))
    (whole : (Stmt.expression value first.position).MadeOf (first :: (more ++ others)))
    (placed : Placed tokens) (within : first :: (more ++ others) <:+: tokens) :
    Stmt.Begins tokens value first.position first (more ++ others) := by
  rw [← List.cons_append] at within
  have own := (infix_split within).1
  obtain ⟨points, inner⟩ := List.forall_mem_cons.mp (made.pointed placed own)
  have behind := made.behind_first (placed.part own)
  exact ⟨whole, within, rfl, made.heads points, inner, behind⟩

theorem begins_tail (made : value.MadeOf (first :: more)) (unwritten : first.kind ≠ .returnWord)
    (placed : Placed tokens) (within : first :: more <:+: tokens) :
    Stmt.Begins tokens (.returned (some value) value.position) first.position first more := by
  have pointed := made.pointed placed within
  have behind := made.behind_first (placed.part within)
  have same : (Expr.returned (some value) value.position).Heads tokens first := by
    rw [Expr.Heads, if_neg unwritten]
  have nearest := behind value List.mem_cons_self
  exact ⟨.tail made unwritten, within, rfl, same, pointed,
    List.forall_mem_cons.mpr ⟨nearest, behind⟩⟩

end Expr.MadeOf

theorem Stmt.MadeOf.position_mem {stmt : Stmt} {used : List Token} (made : stmt.MadeOf used) :
    ∃ token ∈ used, token.position = stmt.position := by
  cases made <;> exact ⟨_, List.mem_cons_self, rfl⟩

theorem Stmt.ListMadeOf.position_mem {stmts : List Stmt} {used : List Token}
    (made : Stmt.ListMadeOf stmts used) :
    ∀ stmt ∈ stmts, ∃ token ∈ used, token.position = stmt.position := by
  cases made with
  | none => exact List.forall_mem_nil _
  | more inner behind =>
    have others := behind.position_mem
    obtain ⟨token, mem, same⟩ := inner.position_mem
    refine List.forall_mem_cons.mpr ⟨⟨token, List.mem_append_left _ mem, same⟩, ?_⟩
    intro stmt listed
    obtain ⟨other, mem, same⟩ := others stmt listed
    exact ⟨other, List.mem_append_right _ mem, same⟩

theorem Stmt.ListMadeOf.ascending {stmts : List Stmt} {used : List Token}
    (made : Stmt.ListMadeOf stmts used) (order : Ascending used) :
    stmts.Pairwise (·.position < ·.position) := by
  cases made with
  | none => exact .nil
  | more inner behind =>
    obtain ⟨-, others, apart⟩ := List.pairwise_append.mp order
    have further := behind.ascending others
    refine List.pairwise_cons.mpr ⟨fun stmt listed => ?_, further⟩
    obtain ⟨token, mem, same⟩ := inner.position_mem
    obtain ⟨other, mem', same'⟩ := behind.position_mem stmt listed
    rw [← same, ← same']
    exact apart token mem other mem'

mutual

theorem Stmt.MadeOf.points : ∀ {stmt : Stmt} {used tokens : List Token},
    stmt.MadeOf used → Placed tokens → used <:+: tokens → ∀ node ∈ stmt.nodes, node.Points tokens
  | _, _, _, .expression inner isEnd, placed, within => by
    have begins := inner.begins (.expression inner isEnd) placed within
    exact List.forall_mem_singleton.mpr ⟨_, _, begins⟩
  | _, _, _, .returning inner, placed, within => by
    have whole := Stmt.MadeOf.returning inner
    rw [← List.append_nil (_ :: _)] at whole within
    exact List.forall_mem_singleton.mpr ⟨_, _, inner.begins whole placed within⟩
  | _, _, _, .tail inner unwritten, placed, within =>
    List.forall_mem_singleton.mpr ⟨_, _, inner.begins_tail unwritten placed within⟩
  | _, _, _, .declare isLet _ initial _, placed, within => by
    obtain ⟨word, behind⟩ := infix_uncons within
    have text := placed.textAt word isLet ⟨rfl, rfl⟩
    have value := initial.pointed placed (infix_split (infix_split behind).2).1
    exact List.forall_mem_singleton.mpr ⟨text, value⟩
  | _, _, _, .typeDef isType _ _ _ _, placed, within => by
    have text := placed.textAt (infix_uncons within).1 isType ⟨rfl, rfl⟩
    exact List.forall_mem_singleton.mpr text
  | _, _, _, .block isOpen inner _, placed, within => by
    obtain ⟨opener, behind⟩ := infix_uncons within
    have text := placed.textAt opener isOpen ⟨rfl, rfl⟩
    have body := (infix_split behind).1
    have order := inner.ascending (placed.part body).ascending
    exact List.forall_mem_cons.mpr ⟨⟨text, order⟩, inner.points placed body⟩
  | _, _, _, .conditional isIf test inner, placed, within => by
    obtain ⟨word, behind⟩ := infix_uncons within
    have text := placed.textAt word isIf ⟨rfl, rfl⟩
    have condition := test.pointed placed (infix_split behind).1
    have yes := inner.points placed (infix_split behind).2
    exact List.forall_mem_cons.mpr
      ⟨⟨text, condition⟩, List.forall_mem_append.mpr ⟨yes, List.forall_mem_nil _⟩⟩
  | _, _, _, .alternative isIf test inner _ second, placed, within => by
    obtain ⟨word, behind⟩ := infix_uncons within
    have text := placed.textAt word isIf ⟨rfl, rfl⟩
    have condition := test.pointed placed (infix_split behind).1
    obtain ⟨first, others⟩ := infix_split (infix_split behind).2
    have yes := inner.points placed first
    have no := second.points placed (infix_uncons others).2
    exact List.forall_mem_cons.mpr ⟨⟨text, condition⟩, List.forall_mem_append.mpr ⟨yes, no⟩⟩
  | _, _, _, .whileLoop isWhile test inner, placed, within => by
    obtain ⟨word, behind⟩ := infix_uncons within
    have text := placed.textAt word isWhile ⟨rfl, rfl⟩
    have condition := test.pointed placed (infix_split behind).1
    have body := inner.points placed (infix_split behind).2
    exact List.forall_mem_cons.mpr ⟨⟨text, condition⟩, body⟩
  | _, _, _, .forLoop isFor _ start next _ last _ inner, placed, within => by
    obtain ⟨word, behind⟩ := infix_uncons within
    have text := placed.textAt word isFor ⟨rfl, rfl⟩
    obtain ⟨first, behind⟩ := infix_split (infix_uncons behind).2
    obtain ⟨second, behind⟩ := infix_split behind
    obtain ⟨third, behind⟩ := infix_split (infix_uncons behind).2
    have initializer := start.points placed first
    have condition := next.pointed placed second
    have increment := last.pointed placed third
    have body := inner.points placed (infix_uncons behind).2
    exact List.forall_mem_cons.mpr
      ⟨⟨text, condition, increment⟩, List.forall_mem_append.mpr ⟨initializer, body⟩⟩
  | _, _, _, .function isFn _ _ listed _ inner, placed, within => by
    obtain ⟨word, behind⟩ := infix_uncons within
    have text := placed.textAt word isFn ⟨rfl, rfl⟩
    obtain ⟨names, behind⟩ := infix_split (infix_uncons (infix_uncons behind).2).2
    have body := inner.points placed (infix_split behind).2
    exact List.forall_mem_cons.mpr ⟨⟨text, listed.points names⟩, body⟩

theorem Stmt.FirstMadeOf.points : ∀ {stmt : Option Stmt} {used tokens : List Token},
    Stmt.FirstMadeOf stmt used → Placed tokens → used <:+: tokens →
      ∀ node ∈ Stmt.insideOption stmt, node.Points tokens
  | _, _, _, .none _, _, _ => List.forall_mem_nil _
  | _, _, _, .some inner, placed, within => inner.points placed within

theorem Stmt.ListMadeOf.points : ∀ {stmts : List Stmt} {used tokens : List Token},
    Stmt.ListMadeOf stmts used → Placed tokens → used <:+: tokens →
      ∀ node ∈ Stmt.insideList stmts, node.Points tokens
  | _, _, _, .none, _, _ => List.forall_mem_nil _
  | _, _, _, .more inner behind, placed, within => by
    have first := inner.points placed (infix_split within).1
    have others := behind.points placed (infix_split within).2
    exact List.forall_mem_append.mpr ⟨first, others⟩

end

theorem placed_of_lexes {before text reached left : List Char} {tokens : List Token}
    (lexes : Lexes before text tokens reached left) : Placed tokens :=
  ⟨scanned_of_lexes lexes, lexes.ascending.1⟩

/-- Every position in a program points at the text that its node is known by in the source, and the
statements of each list stand in its order. -/
theorem parseSource_points {source : String} {program : Program}
    (read : parseSource source = .ok program) :
    ∃ tokens finish, scan source = .ok (tokens ++ [finish]) ∧
      program.statements.Pairwise (·.position < ·.position) ∧
      ∀ stmt ∈ program.nodes, stmt.Points tokens := by
  obtain ⟨tokens, scanned, parsed⟩ := parseTokens_of_parseSource read
  obtain ⟨found, lexes, rfl⟩ := lexes_of_scan scanned
  have placed := placed_of_lexes lexes
  have made := (derives_of_parseTokens parsed).madeOf
  rw [content_of_scanned placed.scanned] at made
  exact ⟨found, _, scanned, made.ascending placed.ascending, made.points placed List.infix_rfl⟩

theorem parseSource_points_tail :
    let source := "\x7b f(1) + 2 \x7d"
    let program : Program := ⟨[.block [.expression (.returned (some (.binary
      (.call "f" [.literal ⟨.decimalNumber, "1", ⟨1, 5⟩⟩] ⟨1, 3⟩) .add
      (.literal ⟨.decimalNumber, "2", ⟨1, 10⟩⟩) ⟨1, 8⟩)) ⟨1, 8⟩) ⟨1, 3⟩] ⟨1, 1⟩]⟩
    parseSource source = .ok program ∧
      ∃ tokens finish, scan source = .ok (tokens ++ [finish]) ∧
        program.statements.Pairwise (·.position < ·.position) ∧
        ∀ stmt ∈ program.nodes, stmt.Points tokens := by
  intro source program
  have read : parseSource source = .ok program := by cbv
  exact ⟨read, parseSource_points read⟩

end YalSyntax
