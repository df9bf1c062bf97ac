import Mathlib
import YalSyntax.Proofs.Parser
import YalSyntax.Proofs.Shape

namespace YalSyntax

open Grammar Reading

namespace Expr

mutual

/-- The number of nodes on the longest path from an expression to a leaf. -/
def height : Expr → Nat
  | binary left _ right _ | logical left _ right _ => max left.height right.height + 1
  | prefixed _ value _ | suffixed _ value _ | grouping value _ | assign _ value _ => value.height + 1
  | literal _ | ident _ _ => 1
  | call _ values _ => heightList values + 1
  | returned value _ => heightOption value + 1

def heightList : List Expr → Nat
  | [] => 0
  | value :: values => max value.height (heightList values)

def heightOption : Option Expr → Nat
  | none => 0
  | some value => value.height

end

/-- How many operations of a strength stand in a row, each as the left operand of the next. -/
def row (strength : Nat) : Expr → Nat
  | binary left operator _ _ =>
    if operator.kind.strength = strength then left.row strength + 1 else 0
  | logical left operator _ _ =>
    if operator.kind.strength = strength then left.row strength + 1 else 0
  | _ => 0

/-- How strongly the outermost operation binds. What is no operation binds as an operand does. -/
def strength : Expr → Nat
  | binary _ operator _ _ => operator.kind.strength
  | logical _ operator _ _ => operator.kind.strength
  | _ => unaryStrength

end Expr

namespace Binding

def height (binding : Binding) : Nat := Expr.heightOption binding.initializer + 1

def heightList : List Binding → Nat
  | [] => 0
  | binding :: others => max binding.height (heightList others)

theorem heightList_le_of_uninitialized {bindings : List Binding}
    (plain : ∀ binding ∈ bindings, binding.initializer = none) : heightList bindings ≤ 1 := by
  induction bindings with
  | nil => exact Nat.zero_le 1
  | cons binding others further =>
    obtain ⟨absent, plain⟩ := List.forall_mem_cons.mp plain
    have leaf : binding.height = 1 := by rw [height, absent]; rfl
    exact Nat.max_le.mpr ⟨leaf.le, further plain⟩

end Binding

namespace Stmt

mutual

def height : Stmt → Nat
  | expression value _ => value.height + 1
  | declare binding => binding.height
  | typeDef _ _ _ => 1
  | block body _ => heightList body + 1
  | conditional condition yes no _ => max condition.height (max yes.height (heightOption no)) + 1
  | whileLoop condition body _ => max condition.height body.height + 1
  | forLoop initializer condition increment body _ =>
    max (heightOption initializer)
      (max (Expr.heightOption condition) (max (Expr.heightOption increment) body.height)) + 1
  | function _ parameters _ body _ => max (Binding.heightList parameters) body.height + 1

def heightList : List Stmt → Nat
  | [] => 0
  | stmt :: others => max stmt.height (heightList others)

def heightOption : Option Stmt → Nat
  | none => 0
  | some stmt => stmt.height

end

end Stmt

namespace Program

def height (program : Program) : Nat := Stmt.heightList program.statements + 1

/-- No more than `most` operations of one strength stand in a row. -/
def RowsWithin (most : Nat) (program : Program) : Prop :=
  ∀ stmt ∈ program.nodes, ∀ value ∈ stmt.values, ∀ node ∈ value.nodes,
    ∀ strength < unaryStrength, node.row strength ≤ most

end Program

/-- The height that levels allow, when no more than `most` operations of one strength stand in a
row: there are five strengths, and a level adds a node of its own. -/
def heightBound (most levels : Nat) : Nat := (5 * most + 1) * levels + 2

theorem heightBound_succ (most levels : Nat) :
    heightBound most (levels + 1) = heightBound most levels + 5 * most + 1 := by
  simp only [heightBound, Nat.mul_add, Nat.mul_one]
  omega

theorem two_le_heightBound (most levels : Nat) : 2 ≤ heightBound most levels := Nat.le_add_left _ _

theorem heightBound_max (most first second : Nat) : heightBound most (max first second) =
    max (heightBound most first) (heightBound most second) := by
  simp only [heightBound, Nat.mul_max_mul_left, Nat.add_max_add_right]

theorem Operator.strength_pos (operator : Operator) : 0 < operator.kind.strength := by
  rcases operator with operator | operator <;> cases operator <;> decide

namespace Expr

variable {most : Nat} {value left right : Expr}

theorem strength_le (value : Expr) : value.strength ≤ unaryStrength := by
  cases value <;> first | exact Nat.le_of_lt (Token.Kind.strength_lt_unary _) | exact Nat.le_refl _

theorem strength_pos (value : Expr) : 0 < value.strength := by
  cases value with
  | binary _ operator => exact (Operator.binary operator).strength_pos
  | logical _ operator => exact (Operator.logical operator).strength_pos
  | _ => exact Nat.succ_pos 5

theorem Binds.le_strength {least : Nat} (binds : value.Binds least)
    (weak : least ≤ unaryStrength) : least ≤ value.strength := by
  cases value <;> first | exact binds | exact weak

theorem row_unaryStrength (value : Expr) : value.row unaryStrength = 0 := by
  cases value <;> first | rfl | exact if_neg (Nat.ne_of_lt (Token.Kind.strength_lt_unary _))

/-- An expression of its shape that ends no row of more than `most` operations. -/
def RowsLe (most : Nat) (value : Expr) : Prop :=
  value.Shaped ∧ ∀ strength < unaryStrength, value.row strength ≤ most

def AllRowsLe (most : Nat) (value : Expr) : Prop := ∀ node ∈ value.nodes, node.RowsLe most

theorem AllRowsLe.rows (rows : value.AllRowsLe most) :
    ∀ strength < unaryStrength, value.row strength ≤ most :=
  (rows value List.mem_cons_self).2

/-- An expression is higher by the length of its own row than its operands may be. -/
def HeightLeOwnRow (most : Nat) (value : Expr) : Prop :=
  value.height ≤
    value.row value.strength + (5 - value.strength) * most + heightBound most value.levels

theorem HeightLeOwnRow.of_le (le : value.height ≤ heightBound most value.levels) :
    value.HeightLeOwnRow most :=
  Nat.le_trans le (Nat.le_add_left _ _)

theorem HeightLeOwnRow.le (height : value.HeightLeOwnRow most)
    (rows : ∀ strength < unaryStrength, value.row strength ≤ most) {least : Nat}
    (binds : least ≤ value.strength) :
    value.height ≤ (6 - least) * most + heightBound most value.levels := by
  have operand : value.row value.strength + (5 - value.strength) * most ≤
      (6 - value.strength) * most := by
    rcases Nat.lt_or_eq_of_le value.strength_le with operation | unary
    · have short := rows value.strength operation
      have next : 6 - value.strength = 5 - value.strength + 1 := by
        simp only [unaryStrength] at operation
        omega
      rw [next, Nat.succ_mul]
      omega
    · rw [unary, row_unaryStrength]
      simp [unaryStrength]
  have weaker : (6 - value.strength) * most ≤ (6 - least) * most :=
    Nat.mul_le_mul_right most (Nat.sub_le_sub_left binds 6)
  unfold HeightLeOwnRow at height
  omega

theorem HeightLeOwnRow.le_row (height : value.HeightLeOwnRow most)
    (rows : ∀ strength < unaryStrength, value.row strength ≤ most) {strength : Nat}
    (binds : strength ≤ value.strength) :
    value.height ≤ value.row strength + (5 - strength) * most + heightBound most value.levels := by
  rcases Nat.lt_or_eq_of_le binds with stronger | rfl
  · have operand := height.le rows stronger
    have next : 6 - (strength + 1) = 5 - strength := by omega
    rw [next] at operand
    omega
  · exact height

theorem HeightLeOwnRow.lt_heightBound (height : value.HeightLeOwnRow most)
    (rows : value.AllRowsLe most) : value.height < heightBound most (value.levels + 1) := by
  have whole : value.height ≤ (6 - 1) * most + _ := height.le rows.rows value.strength_pos
  rw [heightBound_succ]
  omega

theorem heightLeOwnRow_operation (operator : Operator) {position : Position}
    (shaped : (operation operator left right position).Shaped) (before : left.HeightLeOwnRow most)
    (behind : right.HeightLeOwnRow most) (rowsLeft : left.AllRowsLe most)
    (rowsRight : right.AllRowsLe most) :
    (operation operator left right position).HeightLeOwnRow most := by
  obtain ⟨binds, stronger⟩ : left.Binds operator.kind.strength ∧
      right.Binds (operator.kind.strength + 1) := by
    cases operator <;> exact shaped
  have weak := operator.kind.strength_lt_unary
  have first := before.le_row rowsLeft.rows (binds.le_strength (Nat.le_of_lt weak))
  have second := behind.le rowsRight.rows (stronger.le_strength weak)
  have next : 6 - (operator.kind.strength + 1) = 5 - operator.kind.strength := by omega
  have height : (operation operator left right position).height =
      max left.height right.height + 1 := by
    cases operator <;> rfl
  have strength : (operation operator left right position).strength = operator.kind.strength := by
    cases operator <;> rfl
  have row : (operation operator left right position).row operator.kind.strength =
      left.row operator.kind.strength + 1 := by
    cases operator <;> exact if_pos rfl
  rw [next] at second
  rw [HeightLeOwnRow, strength, height, row, levels_operation, heightBound_max]
  omega

mutual

theorem AllRowsLe.heightLeOwnRow : ∀ {value : Expr},
    value.AllRowsLe most → value.HeightLeOwnRow most
  | binary _ operator _ _, rows => by
    obtain ⟨⟨shaped, -⟩, parts⟩ := List.forall_mem_cons.mp rows
    obtain ⟨before, behind⟩ := List.forall_mem_append.mp parts
    exact heightLeOwnRow_operation (.binary operator) shaped (AllRowsLe.heightLeOwnRow before)
      (AllRowsLe.heightLeOwnRow behind) before behind
  | logical _ operator _ _, rows => by
    obtain ⟨⟨shaped, -⟩, parts⟩ := List.forall_mem_cons.mp rows
    obtain ⟨before, behind⟩ := List.forall_mem_append.mp parts
    exact heightLeOwnRow_operation (.logical operator) shaped (AllRowsLe.heightLeOwnRow before)
      (AllRowsLe.heightLeOwnRow behind) before behind
  | prefixed _ _ _, rows | grouping _ _, rows | assign _ _ _, rows => by
    obtain ⟨-, inner⟩ := List.forall_mem_cons.mp rows
    exact .of_le ((AllRowsLe.heightLeOwnRow inner).lt_heightBound inner)
  | suffixed _ _ _, rows => by
    obtain ⟨⟨⟨-, name, place, rfl⟩, -⟩, -⟩ := List.forall_mem_cons.mp rows
    exact .of_le (two_le_heightBound most _)
  | literal _, _ | ident _ _, _ => .of_le (Nat.le_of_succ_le (two_le_heightBound most _))
  | call _ _ _, rows => .of_le (heightList_lt (List.forall_mem_cons.mp rows).2)
  | returned _ _, rows => .of_le (heightOption_lt (List.forall_mem_cons.mp rows).2)

theorem heightList_lt : ∀ {values : List Expr}, (∀ node ∈ insideList values, node.RowsLe most) →
    heightList values < heightBound most (levelsList values)
  | [], _ => Nat.zero_lt_of_lt (two_le_heightBound most _)
  | _ :: _, rows => by
    obtain ⟨first, others⟩ := List.forall_mem_append.mp rows
    have height := (AllRowsLe.heightLeOwnRow first).lt_heightBound first
    have behind := heightList_lt others
    rw [heightList, levelsList, heightBound_max]
    omega

theorem heightOption_lt : ∀ {value : Option Expr},
    (∀ node ∈ insideOption value, node.RowsLe most) →
      heightOption value < heightBound most (levelsOption value)
  | none, _ => Nat.zero_lt_of_lt (two_le_heightBound most _)
  | some _, rows => (AllRowsLe.heightLeOwnRow rows).lt_heightBound rows

end

theorem heightOption_lt_of_toList {value : Option Expr}
    (rows : ∀ node ∈ value.toList, node.AllRowsLe most) :
    heightOption value < heightBound most (levelsOption value) := by
  cases value with
  | none => exact heightOption_lt (List.forall_mem_nil _)
  | some value => exact heightOption_lt (rows value List.mem_cons_self)

end Expr

namespace Stmt

variable {most : Nat} {stmt : Stmt}

def ValuesRowsLe (most : Nat) (stmt : Stmt) : Prop :=
  stmt.Shaped ∧ ∀ value ∈ stmt.values, value.AllRowsLe most

theorem IsClause.height_le (clause : stmt.IsClause) (rowsLe : stmt.ValuesRowsLe most) :
    stmt.height ≤ heightBound most stmt.levels := by
  cases stmt with
  | expression value =>
    have rows := rowsLe.2 value List.mem_cons_self
    exact rows.heightLeOwnRow.lt_heightBound rows
  | declare => exact Expr.heightOption_lt_of_toList rowsLe.2
  | _ => exact clause.elim

theorem height_le_entered (rowsLe : stmt.ValuesRowsLe most)
    (within : stmt.height ≤ heightBound most stmt.levels + 1) :
    stmt.height ≤ heightBound most stmt.entered := by
  have deeper : stmt.height ≤ heightBound most (stmt.levels + 1) := by
    rw [heightBound_succ]
    omega
  cases stmt with
  | declare => exact IsClause.height_le trivial rowsLe
  | typeDef => exact Nat.le_of_succ_le (two_le_heightBound most _)
  | _ => exact deeper

mutual

theorem height_le : ∀ {stmt : Stmt}, (∀ node ∈ stmt.nodes, node.ValuesRowsLe most) →
    stmt.height ≤ heightBound most stmt.levels + 1
  | expression _ _, rowsLe | declare _, rowsLe => by
    have own := rowsLe _ List.mem_cons_self
    exact Nat.le_succ_of_le (IsClause.height_le trivial own)
  | typeDef _ _ _, _ => Nat.le_succ_of_le (Nat.le_of_succ_le (two_le_heightBound most _))
  | block _ _, rowsLe => Nat.succ_le_succ (heightList_le (List.forall_mem_cons.mp rowsLe).2)
  | conditional condition yes no _, rowsLe => by
    obtain ⟨own, parts⟩ := List.forall_mem_cons.mp rowsLe
    obtain ⟨first, second⟩ := List.forall_mem_append.mp parts
    have rows := own.2 condition List.mem_cons_self
    have test := rows.heightLeOwnRow.lt_heightBound rows
    have body := height_le first
    have other := heightOption_le second
    have next := heightBound_succ most yes.levels
    rw [height, levels, heightBound_max, heightBound_max]
    omega
  | whileLoop condition body _, rowsLe => by
    obtain ⟨own, inner⟩ := List.forall_mem_cons.mp rowsLe
    have rows := own.2 condition List.mem_cons_self
    have test := rows.heightLeOwnRow.lt_heightBound rows
    have inside := height_le inner
    have next := heightBound_succ most body.levels
    rw [height, levels, heightBound_max]
    omega
  | forLoop initializer condition increment body _, rowsLe => by
    obtain ⟨⟨⟨clause, -⟩, rows⟩, parts⟩ := List.forall_mem_cons.mp rowsLe
    obtain ⟨head, inner⟩ := List.forall_mem_append.mp parts
    obtain ⟨tested, stepped⟩ := List.forall_mem_append.mp rows
    have first : heightOption initializer ≤ heightBound most (levelsFirst initializer) := by
      cases initializer with
      | none => exact Nat.zero_le _
      | some first => exact (clause first rfl).height_le (head first List.mem_cons_self)
    have test := Expr.heightOption_lt_of_toList tested
    have step := Expr.heightOption_lt_of_toList stepped
    have inside := height_le inner
    have next := heightBound_succ most body.levels
    rw [height, levels, heightBound_max, heightBound_max, heightBound_max]
    omega
  | function _ parameters _ body _, rowsLe => by
    obtain ⟨⟨⟨plain, -⟩, -⟩, inner⟩ := List.forall_mem_cons.mp rowsLe
    have leaves := Binding.heightList_le_of_uninitialized plain
    have inside := height_le inner
    have next := heightBound_succ most body.levels
    have least := two_le_heightBound most body.levels
    rw [height, levels_function plain]
    omega

theorem heightList_le : ∀ {body : List Stmt}, (∀ node ∈ insideList body, node.ValuesRowsLe most) →
    heightList body ≤ heightBound most (levelsList body)
  | [], _ => Nat.zero_le _
  | stmt :: others, rowsLe => by
    obtain ⟨first, second⟩ := List.forall_mem_append.mp rowsLe
    have here := height_le_entered (first stmt List.mem_cons_self) (height_le first)
    have behind := heightList_le second
    rw [heightList, levelsList_cons, heightBound_max]
    omega

theorem heightOption_le : ∀ {no : Option Stmt}, (∀ node ∈ insideOption no, node.ValuesRowsLe most) →
    heightOption no ≤ heightBound most (levelsElse no)
  | none, _ => Nat.zero_le _
  | some stmt, rowsLe => by
    have inside := height_le rowsLe
    have next := heightBound_succ most stmt.levels
    rw [heightOption, levelsElse]
    omega

end

end Stmt

theorem levels_of_parseTokens {tokens : List Token} {program : Program}
    (read : parseTokens tokens = .ok program) :
    Stmt.levelsList program.statements ≤ nestingLimit + 1 := by
  obtain ⟨depth, measures, comes⟩ := program_complete (derives_of_parseTokens read)
  have covered := (comes.of_parseTokens read).1
  exact measures.near.trans (Nat.succ_le_succ covered)

/-- A program in which no more than `most` operators of one strength stand in a row is no higher
than these rows and the nesting limit allow. -/
theorem height_of_parseTokens {tokens : List Token} {program : Program} {most : Nat}
    (read : parseTokens tokens = .ok program) (rows : program.RowsWithin most) :
    program.height ≤ (5 * most + 1) * (nestingLimit + 1) + 3 := by
  have shaped := (derives_of_parseTokens read).fits
  have rowsLe : ∀ stmt ∈ program.nodes, stmt.ValuesRowsLe most := by
    intro stmt mem
    obtain ⟨own, values⟩ := shaped stmt mem
    exact ⟨own, fun value held node within =>
      ⟨values value held node within, rows stmt mem value held node within⟩⟩
  have height := Stmt.heightList_le rowsLe
  have levels := Nat.mul_le_mul_left (5 * most + 1) (levels_of_parseTokens read)
  simp only [heightBound] at height
  rw [Program.height]
  omega

theorem height_of_parseTokens_sum :
    let one : Token := ⟨.decimalNumber, "1", ⟨1, 1⟩⟩
    let two : Token := ⟨.decimalNumber, "2", ⟨1, 5⟩⟩
    let three : Token := ⟨.decimalNumber, "3", ⟨1, 9⟩⟩
    let four : Token := ⟨.decimalNumber, "4", ⟨1, 13⟩⟩
    let tokens : List Token := [one, ⟨.plus, "+", ⟨1, 3⟩⟩, two, ⟨.minus, "-", ⟨1, 7⟩⟩, three,
      ⟨.star, "*", ⟨1, 11⟩⟩, four, ⟨.semicolon, ";", ⟨1, 14⟩⟩]
    let program : Program := ⟨[.expression
      (.binary (.binary (.literal one) .add (.literal two) ⟨1, 3⟩) .subtract
        (.binary (.literal three) .multiply (.literal four) ⟨1, 11⟩) ⟨1, 7⟩) ⟨1, 1⟩]⟩
    parseTokens tokens = .ok program ∧ program.RowsWithin 2 ∧
      program.height ≤ (5 * 2 + 1) * (nestingLimit + 1) + 3 := by
  intro one two three four tokens program
  have read : parseTokens tokens = .ok program := by cbv
  have rows : program.RowsWithin 2 := by
    unfold Program.RowsWithin
    decide
  exact ⟨read, rows, height_of_parseTokens read rows⟩

namespace Tower

def one : Token := ⟨.decimalNumber, "1", .start⟩

def plus : Token := ⟨.plus, "+", .start⟩

def semicolon : Token := ⟨.semicolon, ";", .start⟩

def steps : Nat → List Token
  | 0 => []
  | count + 1 => steps count ++ [plus, one]

def sum : Nat → Expr
  | 0 => .literal one
  | count + 1 => .operation (.binary .add) (sum count) (.literal one) plus.position

/-- The tokens of `1 + 1 + … + 1;`. -/
def tokens (count : Nat) : List Token := one :: (steps count ++ [semicolon])

def program (count : Nat) : Program := ⟨[.expression (sum count) one.position]⟩

theorem derives_one (rest : List Token) : Operation 5 (one :: rest) (.literal one) rest :=
  .stronger (by decide) (.unary (.operand (.primary (.literal rfl))))

theorem derives_sum (count : Nat) (rest : List Token) :
    Operation 4 (one :: (steps count ++ rest)) (sum count) rest := by
  induction count generalizing rest with
  | zero => exact .stronger (by decide) (derives_one rest)
  | succ count further =>
    rw [steps, List.append_assoc]
    exact .chain (further _) rfl rfl (derives_one rest)

theorem derives (count : Nat) : Derives false (tokens count) (program count) := by
  have operation := derives_sum count [semicolon]
  have value : Expression (tokens count) (sum count) [semicolon] :=
    .assignment (.operation (.stronger (by decide) (.stronger (by decide)
      (.stronger (by decide) operation))))
  exact .more (.statement (.expression (.ended value rfl))) .none

theorem levels_sum (count : Nat) : (sum count).levels = 0 := by
  induction count with
  | zero => rfl
  | succ count further => rw [sum, Expr.levels_operation, further]; rfl

theorem height_sum (count : Nat) : (sum count).height = count + 1 := by
  induction count with
  | zero => rfl
  | succ count further =>
    have step : (sum (count + 1)).height = max (sum count).height 1 + 1 := rfl
    omega

theorem height_program (count : Nat) : (program count).height = count + 3 := by
  have height := height_sum count
  have whole : (program count).height = max ((sum count).height + 1) 0 + 1 := rfl
  omega

theorem plain (count : Nat) : ∀ token ∈ tokens count, token.kind ≠ .finish := by
  have stepped : ∀ token ∈ steps count, token.kind ≠ .finish := by
    induction count with
    | zero => exact List.forall_mem_nil _
    | succ count further => exact List.forall_mem_append.mpr ⟨further, by decide⟩
  exact List.forall_mem_cons.mpr ⟨by decide, List.forall_mem_append.mpr ⟨stepped, by decide⟩⟩

theorem parseTokens_tokens (count : Nat) : parseTokens (tokens count) = .ok (program count) := by
  have derived := derives count
  rw [← content_of_plain (plain count)] at derived
  obtain ⟨depth, exact, reads, -⟩ := parseTokens_of_derives derived
  have levels : Stmt.levelsList (program count).statements = (sum count).levels + 2 := rfl
  refine reads ?_
  rw [exact rfl, levels, levels_sum]
  decide

end Tower

/-- The nesting limit bounds no height. -/
theorem not_height_le_of_parseTokens :
    ¬ ∃ most, ∀ tokens program, parseTokens tokens = .ok program → program.height ≤ most := by
  rintro ⟨most, bounded⟩
  have within := bounded _ _ (Tower.parseTokens_tokens most)
  rw [Tower.height_program] at within
  omega

end YalSyntax
