import Mathlib
import YalSyntax.Source
import YalSyntax.Proofs.Grammar.Exactness
import YalSyntax.Proofs.Lexical.Lossless
import YalSyntax.Proofs.Rendering.Spelling
import YalSyntax.Proofs.Rendering.Statement

namespace YalSyntax

open Grammar Lexical Reading

section Levels

variable (text : String → String) (place : Position → Position)

namespace Expr

mutual

theorem levels_map : ∀ value : Expr, (value.map text place).levels = value.levels
  | binary left _ right _ | logical left _ right _ => by
    rw [map, levels, levels, levels_map left, levels_map right]
  | prefixed _ operand _ => by rw [map, levels, levels, levels_map operand]
  | suffixed _ operand _ => by rw [map, levels, levels, levels_map operand]
  | literal _ | ident _ _ => by rw [map, levels, levels]
  | grouping inner _ => by rw [map, levels, levels, levels_map inner]
  | assign _ value _ => by rw [map, levels, levels, levels_map value]
  | call _ arguments _ => by rw [map, levels, levels, levelsList_map arguments]
  | returned value _ => by rw [map, levels, levels, levelsOption_map value]

theorem levelsList_map : ∀ values : List Expr,
    levelsList (mapList text place values) = levelsList values
  | [] => rfl
  | value :: others => by
    rw [mapList, levelsList, levelsList, levels_map value, levelsList_map others]

theorem levelsOption_map : ∀ value : Option Expr,
    levelsOption (mapOption text place value) = levelsOption value
  | none => rfl
  | some value => by rw [mapOption, levelsOption, levelsOption, levels_map value]

end

end Expr

namespace Binding

theorem levels_map (binding : Binding) : (binding.map text place).levels = binding.levels :=
  Expr.levelsOption_map text place binding.initializer

theorem levelsList_map (bindings : List Binding) :
    levelsList (bindings.map (·.map text place)) = levelsList bindings := by
  induction bindings with
  | nil => rfl
  | cons binding others further =>
    rw [List.map_cons, levelsList, levelsList, levels_map, further]

end Binding

namespace Stmt

mutual

theorem levels_map : ∀ stmt : Stmt, (stmt.map text place).levels = stmt.levels
  | expression value _ => by rw [map, levels, levels, Expr.levels_map]
  | declare binding => by rw [map, levels, levels, Binding.levels_map]
  | typeDef _ _ _ => by rw [map, levels, levels]
  | block body _ => by rw [map, levels, levels, levelsList_map body]
  | conditional condition yes no _ => by
    rw [map, levels, levels, Expr.levels_map, levels_map yes, levelsElse_map no]
  | whileLoop condition body _ => by rw [map, levels, levels, Expr.levels_map, levels_map body]
  | forLoop initializer condition increment body _ => by
    rw [map, levels, levels, levelsFirst_map initializer, Expr.levelsOption_map,
      Expr.levelsOption_map, levels_map body]
  | function _ _ _ body _ => by rw [map, levels, levels, Binding.levelsList_map, levels_map body]

theorem levelsList_map : ∀ stmts : List Stmt,
    levelsList (mapList text place stmts) = levelsList stmts
  | [] => rfl
  | stmt :: others => by
    have entered : (stmt.map text place).entered = stmt.entered := by
      have same := levels_map stmt
      cases stmt <;> first | exact same | exact congrArg (· + 1) same
    rw [mapList, levelsList_cons, levelsList_cons, entered, levelsList_map others]

theorem levelsElse_map : ∀ stmt : Option Stmt,
    levelsElse (mapOption text place stmt) = levelsElse stmt
  | none => rfl
  | some stmt => by rw [mapOption, levelsElse, levelsElse, levels_map stmt]

theorem levelsFirst_map : ∀ stmt : Option Stmt,
    levelsFirst (mapOption text place stmt) = levelsFirst stmt
  | none => rfl
  | some stmt => by rw [mapOption, levelsFirst, levelsFirst, levels_map stmt]

end

end Stmt

end Levels

theorem levels_of_unplaced {program again : Program} (same : again.unplaced = program.unplaced) :
    Stmt.levelsList again.statements = Stmt.levelsList program.statements := by
  have statements : Stmt.mapList id (fun _ => .start) again.statements =
      Stmt.mapList id (fun _ => .start) program.statements := congrArg Program.statements same
  rw [← Stmt.levelsList_map id (fun _ => .start) again.statements, statements,
    Stmt.levelsList_map]

theorem scanned_of_lexes {before text reached left : List Char} {tokens : List Token}
    (lexes : Lexes before text tokens reached left) : Scanned tokens := by
  induction lexes with
  | here => simp [Scanned]
  | skip _ _ further => exact further
  | token takes _ further =>
    rw [scanned_cons_iff, String.toList_ofList]
    exact ⟨takes.longest.isLexeme, further⟩

theorem content_of_scanned {tokens : List Token} (scanned : Scanned tokens) (position : Position) :
    content (tokens ++ [Token.finishAt position]) = tokens := by
  induction tokens with
  | nil => rfl
  | cons token tokens further =>
    obtain ⟨is, others⟩ := scanned_cons_iff.mp scanned
    have inside : (decide (token.kind ≠ .finish)) = true := decide_eq_true is.ne_finish
    have behind := further others
    rw [content] at behind ⊢
    rw [List.cons_append, List.takeWhile_cons, inside, behind]
    rfl

theorem scanned_content {source : String} {tokens : List Token} (scanned : scan source = .ok tokens) :
    Scanned (content tokens) := by
  obtain ⟨found, lexes, rfl⟩ := lexes_of_scan scanned
  rw [content_of_scanned (scanned_of_lexes lexes)]
  exact scanned_of_lexes lexes

theorem scan_render {program : Program} (lexemes : Lexemes program.written) :
    ∃ tokens, scan program.render = .ok tokens ∧
      (content tokens).map Token.spelled = program.written := by
  obtain ⟨found, same, lexes⟩ := lexes_joined program.written lexemes []
  have text : program.render.toList = [' '].intercalate (program.written.map (·.2.toList)) := by
    rw [Program.render, String.toList_intercalate, List.map_map]
    rfl
  rw [← text, List.nil_append] at lexes
  refine ⟨_, scan_of_lexes_to_end lexes, ?_⟩
  rw [content_of_scanned (scanned_of_lexes lexes), same]

/-- The source leaves out a `return`: its tokens derive the program, but not without the rule that
returns the value of an expression before a `}`. -/
def OmitsReturn (source : String) (program : Program) : Prop :=
  ∃ tokens, scan source = .ok tokens ∧ Derives true (content tokens) program ∧
    ¬ Derives false (content tokens) program

theorem parseSource_of_scan {source : String} {tokens : List Token}
    (scanned : scan source = .ok tokens) :
    parseSource source = (parseTokens tokens).mapError .parse := by
  rw [parseSource, scanned]

theorem parseTokens_of_parseSource {source : String} {program : Program}
    (read : parseSource source = .ok program) :
    ∃ tokens, scan source = .ok tokens ∧ parseTokens tokens = .ok program := by
  cases scanned : scan source with
  | error error =>
    rw [parseSource, scanned] at read
    cases read
  | ok tokens =>
    rw [parseSource_of_scan scanned] at read
    refine ⟨tokens, rfl, ?_⟩
    cases parsed : parseTokens tokens with
    | error error =>
      rw [parsed] at read
      cases read
    | ok result =>
      rw [parsed] at read
      cases read
      rfl

/-- A program that is read from a source is read again from what it is written as, but for the
positions. What else can come of it is that the text is nested too deep, and this only if the source
leaves a `return` out. -/
theorem parseSource_render {source : String} {program : Program}
    (read : parseSource source = .ok program) :
    (∃ again, parseSource program.render = .ok again ∧ again.unplaced = program.unplaced) ∨
      (∃ position, parseSource program.render = .error (.parse (.tooDeep position))) ∧
        OmitsReturn source program := by
  obtain ⟨tokens, scanned, parsed⟩ := parseTokens_of_parseSource read
  have derived := derives_of_parseTokens parsed
  have lexemes := (declarations_lexemes derived (scanned_content scanned)).1
  obtain ⟨copy, scanned', spelled⟩ := scan_render lexemes
  obtain ⟨again, same, derived'⟩ := derives_again derived spelled
  obtain ⟨depth, exact, reads, fails⟩ := parseTokens_of_derives derived'
  rw [exact rfl, levels_of_unplaced same] at reads fails
  rw [parseSource_of_scan scanned']
  rcases Nat.lt_or_ge nestingLimit (Stmt.levelsList program.statements) with lack | covered
  · right
    obtain ⟨position, deep⟩ := fails lack
    refine ⟨⟨position, by rw [deep]; rfl⟩, tokens, scanned, derived, fun spelledOut => ?_⟩
    -- without a `return` left out the source itself would be nested too deep
    obtain ⟨depth', exact', -, fails'⟩ := parseTokens_of_derives spelledOut
    rw [exact' rfl] at fails'
    obtain ⟨position', deep'⟩ := fails' lack
    cases parsed.symm.trans deep'
  · left
    exact ⟨again, by rw [reads covered]; rfl, same⟩

theorem parseSource_render_loop :
    let source := "while (a) \x7b -1 \x7d"
    let program : Program := ⟨[.whileLoop (.ident "a" ⟨1, 8⟩) (.block
      [.expression (.returned (some (.prefixed .negate
        (.literal ⟨.decimalNumber, "1", ⟨1, 14⟩⟩) ⟨1, 13⟩)) ⟨1, 13⟩) ⟨1, 13⟩] ⟨1, 11⟩) ⟨1, 1⟩]⟩
    parseSource source = .ok program ∧ program.render = "while ( a ) \x7b return - 1 ; \x7d" ∧
      ((∃ again, parseSource program.render = .ok again ∧ again.unplaced = program.unplaced) ∨
        (∃ position, parseSource program.render = .error (.parse (.tooDeep position))) ∧
          OmitsReturn source program) := by
  intro source program
  have read : parseSource source = .ok program := by cbv
  exact ⟨read, by cbv, parseSource_render read⟩

end YalSyntax
