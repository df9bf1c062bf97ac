import YalSyntax.Proofs.Composition
import YalSyntax.Proofs.Kinds
import YalSyntax.Proofs.Lexical.LineEndings
import YalSyntax.Proofs.Rendering.RoundTrip

namespace YalSyntax

open Grammar Lexical Reading

namespace Expr

mutual

/-- The tree with the texts of its literals replaced. -/
def mapLiterals (text : String → String) : Expr → Expr
  | binary left operator right position =>
    binary (left.mapLiterals text) operator (right.mapLiterals text) position
  | logical left operator right position =>
    logical (left.mapLiterals text) operator (right.mapLiterals text) position
  | prefixed operator operand position => prefixed operator (operand.mapLiterals text) position
  | suffixed operator operand position => suffixed operator (operand.mapLiterals text) position
  | literal token => literal { token with text := text token.text }
  | grouping inner position => grouping (inner.mapLiterals text) position
  | ident name position => ident name position
  | assign name value position => assign name (value.mapLiterals text) position
  | call name arguments position => call name (mapLiteralsList text arguments) position
  | returned value position => returned (mapLiteralsOption text value) position

def mapLiteralsList (text : String → String) : List Expr → List Expr
  | [] => []
  | value :: others => value.mapLiterals text :: mapLiteralsList text others

def mapLiteralsOption (text : String → String) : Option Expr → Option Expr
  | none => none
  | some value => some (value.mapLiterals text)

end

end Expr

def Binding.mapLiterals (text : String → String) (binding : Binding) : Binding :=
  { binding with initializer := Expr.mapLiteralsOption text binding.initializer }

namespace Stmt

mutual

def mapLiterals (text : String → String) : Stmt → Stmt
  | expression value position => expression (value.mapLiterals text) position
  | declare binding => declare (binding.mapLiterals text)
  | typeDef name underlying position => typeDef name underlying position
  | block body position => block (mapLiteralsList text body) position
  | conditional condition yes no position =>
    conditional (condition.mapLiterals text) (yes.mapLiterals text) (mapLiteralsOption text no)
      position
  | whileLoop condition body position =>
    whileLoop (condition.mapLiterals text) (body.mapLiterals text) position
  | forLoop initializer condition increment body position =>
    forLoop (mapLiteralsOption text initializer) (Expr.mapLiteralsOption text condition)
      (Expr.mapLiteralsOption text increment) (body.mapLiterals text) position
  | function name parameters returns body position =>
    function name (parameters.map (·.mapLiterals text)) returns (body.mapLiterals text) position

def mapLiteralsList (text : String → String) : List Stmt → List Stmt
  | [] => []
  | stmt :: others => stmt.mapLiterals text :: mapLiteralsList text others

def mapLiteralsOption (text : String → String) : Option Stmt → Option Stmt
  | none => none
  | some stmt => some (stmt.mapLiterals text)

end

end Stmt

def Program.mapLiterals (text : String → String) (program : Program) : Program :=
  ⟨Stmt.mapLiteralsList text program.statements⟩

def KeepsNames (text : String → String) (tokens : List Token) : Prop :=
  ∀ token ∈ tokens, token.kind = .identifier → text token.text = token.text

section

variable {text : String → String} {token : Token} {first second : List Token}

@[simp] theorem keepsNames_cons : KeepsNames text (token :: second) ↔
    (token.kind = .identifier → text token.text = token.text) ∧ KeepsNames text second :=
  List.forall_mem_cons

@[simp] theorem keepsNames_append :
    KeepsNames text (first ++ second) ↔ KeepsNames text first ∧ KeepsNames text second :=
  List.forall_mem_append

mutual

theorem Expr.MadeOf.map_eq : ∀ {value : Expr} {used : List Token},
    value.MadeOf used → KeepsNames text used → value.map text id = value.mapLiterals text
  | _, _, .binary before _ behind, keeps => by
    simp only [keepsNames_append, keepsNames_cons] at keeps
    rw [map, mapLiterals, before.map_eq keeps.1, behind.map_eq keeps.2.2]
    rfl
  | _, _, .logical before _ behind, keeps => by
    simp only [keepsNames_append, keepsNames_cons] at keeps
    rw [map, mapLiterals, before.map_eq keeps.1, behind.map_eq keeps.2.2]
    rfl
  | _, _, .prefixed _ inner, keeps => by
    rw [map, mapLiterals, inner.map_eq (keepsNames_cons.mp keeps).2]
    rfl
  | _, _, .suffixed isName _, keeps => by
    rw [map, mapLiterals, map, mapLiterals, (keepsNames_cons.mp keeps).1 isName]
    rfl
  | _, _, .literal _, _ => rfl
  | _, _, .grouping _ inner _, keeps => by
    simp only [keepsNames_append, keepsNames_cons] at keeps
    rw [map, mapLiterals, inner.map_eq keeps.2.1]
    rfl
  | _, _, .ident isName, keeps => by
    rw [map, mapLiterals, (keepsNames_cons.mp keeps).1 isName]
    rfl
  | _, _, .assign isName _ inner, keeps => by
    simp only [keepsNames_cons] at keeps
    rw [map, mapLiterals, keeps.1 isName, inner.map_eq keeps.2.2]
    rfl
  | _, _, .call isName _ inner, keeps => by
    simp only [keepsNames_cons] at keeps
    rw [map, mapLiterals, keeps.1 isName, inner.map_eq keeps.2.2]
    rfl
  | _, _, .valueless _, _ => rfl
  | _, _, .returned _ inner, keeps => by
    rw [map, mapLiterals, mapOption, mapLiteralsOption, inner.map_eq (keepsNames_cons.mp keeps).2]
    rfl

theorem Expr.ListMadeOf.map_eq : ∀ {values : List Expr} {used : List Token},
    Expr.ListMadeOf values used → KeepsNames text used →
      mapList text id values = mapLiteralsList text values
  | _, _, .none _, _ => rfl
  | _, _, .last inner _, keeps => by
    rw [mapList, mapLiteralsList, inner.map_eq (keepsNames_append.mp keeps).1]
    rfl
  | _, _, .more inner _ behind, keeps => by
    simp only [keepsNames_append, keepsNames_cons] at keeps
    rw [mapList, mapLiteralsList, inner.map_eq keeps.1, behind.map_eq keeps.2.2]

end

theorem Expr.OptionMadeOf.map_eq {clause : Option Expr} {used : List Token}
    (made : Expr.OptionMadeOf clause used) (keeps : KeepsNames text used) :
    mapOption text id clause = mapLiteralsOption text clause := by
  cases made with
  | none => rfl
  | some inner => rw [mapOption, mapLiteralsOption, inner.map_eq keeps]

theorem InitialMadeOf.map_eq {initial : Option Expr} {used : List Token}
    (made : InitialMadeOf initial used) (keeps : KeepsNames text used) :
    Expr.mapOption text id initial = Expr.mapLiteralsOption text initial := by
  cases made with
  | none => rfl
  | some _ inner => exact (Expr.OptionMadeOf.some inner).map_eq (keepsNames_cons.mp keeps).2

theorem ConditionMadeOf.map_eq {condition : Expr} {used : List Token}
    (made : ConditionMadeOf condition used) (keeps : KeepsNames text used) :
    condition.map text id = condition.mapLiterals text := by
  cases made with
  | parens _ inner _ =>
    simp only [keepsNames_append, keepsNames_cons] at keeps
    exact inner.map_eq keeps.2.1

theorem TypeMadeOf.map_eq {type? : Option String} {used : List Token}
    (made : TypeMadeOf type? used) (keeps : KeepsNames text used) : type?.map text = type? := by
  cases made with
  | none => rfl
  | some _ isName =>
    simp only [keepsNames_cons] at keeps
    exact congrArg Option.some (keeps.2.1 isName)

theorem Binding.MadeOf.map_eq {binding : Binding} {used : List Token}
    (made : binding.MadeOf used) (keeps : KeepsNames text used) :
    binding.map text id = binding.mapLiterals text := by
  cases made with
  | name isName mark =>
    simp only [keepsNames_cons] at keeps
    rw [map, mark.map_eq keeps.2, keeps.1 isName]
    rfl

theorem Binding.ListMadeOf.map_eq {parameters : List Binding} {used : List Token}
    (made : Binding.ListMadeOf parameters used) (keeps : KeepsNames text used) :
    parameters.map (·.map text id) = parameters.map (·.mapLiterals text) := by
  induction made with
  | none => rfl
  | last inner _ => rw [List.map_cons, inner.map_eq (keepsNames_append.mp keeps).1]; rfl
  | more inner _ _ further =>
    simp only [keepsNames_append, keepsNames_cons] at keeps
    rw [List.map_cons, inner.map_eq keeps.1, further keeps.2.2]
    rfl

mutual

theorem Stmt.MadeOf.map_eq : ∀ {stmt : Stmt} {used : List Token},
    stmt.MadeOf used → KeepsNames text used → stmt.map text id = stmt.mapLiterals text
  | _, _, .expression inner _, keeps => by
    rw [← List.cons_append, keepsNames_append] at keeps
    rw [map, mapLiterals, inner.map_eq keeps.1]
    rfl
  | _, _, .returning inner, keeps => by
    rw [map, mapLiterals, inner.map_eq keeps]
    rfl
  | _, _, .tail inner _, keeps => by
    rw [map, mapLiterals, Expr.map, Expr.mapLiterals, Expr.mapOption, Expr.mapLiteralsOption,
      inner.map_eq keeps]
    rfl
  | _, _, .declare _ bound initial _, keeps => by
    simp only [keepsNames_append, keepsNames_cons] at keeps
    obtain ⟨name, type?, -, -⟩ := Binding.mk.inj (bound.map_eq keeps.2.1)
    rw [map, mapLiterals, Binding.map, Binding.mapLiterals, initial.map_eq keeps.2.2.1, name, type?]
    rfl
  | _, _, .typeDef _ isName _ isUnderlying _, keeps => by
    simp only [keepsNames_cons] at keeps
    rw [map, mapLiterals, keeps.2.1 isName, keeps.2.2.2.1 isUnderlying]
    rfl
  | _, _, .block _ inner _, keeps => by
    simp only [keepsNames_append, keepsNames_cons] at keeps
    rw [map, mapLiterals, inner.map_eq keeps.2.1]
    rfl
  | _, _, .conditional _ test inner, keeps => by
    simp only [keepsNames_append, keepsNames_cons] at keeps
    rw [map, mapLiterals, test.map_eq keeps.2.1, inner.map_eq keeps.2.2]
    rfl
  | _, _, .alternative _ test inner _ second, keeps => by
    simp only [keepsNames_append, keepsNames_cons] at keeps
    rw [map, mapLiterals, mapOption, mapLiteralsOption, test.map_eq keeps.2.1,
      inner.map_eq keeps.2.2.1, second.map_eq keeps.2.2.2.2]
    rfl
  | _, _, .whileLoop _ test inner, keeps => by
    simp only [keepsNames_append, keepsNames_cons] at keeps
    rw [map, mapLiterals, test.map_eq keeps.2.1, inner.map_eq keeps.2.2]
    rfl
  | _, _, .forLoop _ _ start next _ last _ inner, keeps => by
    simp only [keepsNames_append, keepsNames_cons] at keeps
    obtain ⟨-, -, first, second, -, third, -, body⟩ := keeps
    rw [map, mapLiterals, start.map_eq first, next.map_eq second, last.map_eq third,
      inner.map_eq body]
    rfl
  | _, _, .function _ isName _ listed marked inner, keeps => by
    simp only [keepsNames_append, keepsNames_cons] at keeps
    obtain ⟨-, name, -, names, mark, body⟩ := keeps
    rw [map, mapLiterals, name isName, listed.map_eq names, marked.map_eq mark, inner.map_eq body]
    rfl

theorem Stmt.FirstMadeOf.map_eq : ∀ {stmt : Option Stmt} {used : List Token},
    Stmt.FirstMadeOf stmt used → KeepsNames text used →
      mapOption text id stmt = mapLiteralsOption text stmt
  | _, _, .none _, _ => rfl
  | _, _, .some inner, keeps => by rw [mapOption, mapLiteralsOption, inner.map_eq keeps]

theorem Stmt.ListMadeOf.map_eq : ∀ {stmts : List Stmt} {used : List Token},
    Stmt.ListMadeOf stmts used → KeepsNames text used →
      mapList text id stmts = mapLiteralsList text stmts
  | _, _, .none, _ => rfl
  | _, _, .more inner behind, keeps => by
    rw [mapList, mapLiteralsList, inner.map_eq (keepsNames_append.mp keeps).1,
      behind.map_eq (keepsNames_append.mp keeps).2]

end

end

theorem Scanned.lfText_eq {tokens : List Token} (scanned : Scanned tokens) {token : Token}
    (mem : token ∈ tokens) (other : token.kind ≠ .quoted) : lfText token.text = token.text := by
  have is : IsLexeme token.kind token.text.toList :=
    scanned token.spelled (List.mem_map_of_mem mem)
  rw [lfText, is.lf_of_not_quoted other, String.ofList_toList]

def literalResult (text : String → String) : Except SyntaxError Program → Except SyntaxError Program
  | .ok program => .ok (program.mapLiterals text)
  | .error (.lex error) => .error (.lex error)
  | .error (.parse error) => .error (.parse (error.map text id))

theorem mapAnswer_lf {source : String} {tokens : List Token} (scanned : scan source = .ok tokens) :
    (mapAnswer lfText id (parseTokens tokens)).mapError .parse =
      literalResult lfText ((parseTokens tokens).mapError .parse) := by
  cases parsed : parseTokens tokens with
  | error error => rfl
  | ok program =>
    have made := (derives_of_parseTokens parsed).madeOf
    have keeps : KeepsNames lfText (content tokens) := fun token mem isName =>
      (scanned_content scanned).lfText_eq mem (by rw [isName]; nofun)
    have same : program.map lfText id = program.mapLiterals lfText := by
      rw [Program.map, Program.mapLiterals, made.map_eq keeps]
    simp only [mapAnswer, Except.mapError, literalResult, same]

/-- Line endings do not matter. With line feeds for them the same kinds of tokens are scanned at the
same positions, and only quoted text differs, or the same flaw is found at the same position. What is
read differs in the texts of literals only, and an error in the text that it tells. -/
theorem lineEndings_irrelevant (source : String) :
    scan (lfText source) = (scan source).map (List.map (Token.map lfText id)) ∧
      (∀ tokens, scan source = .ok tokens →
        ∀ token ∈ tokens, token.kind ≠ .quoted → lfText token.text = token.text) ∧
      parseSource (lfText source) = literalResult lfText (parseSource source) := by
  refine ⟨scan_lf source, fun tokens scanned token mem other => ?_, ?_⟩
  · obtain ⟨found, lexes, rfl⟩ := lexes_of_scan scanned
    rcases List.mem_append.mp mem with inside | last
    · exact (scanned_of_lexes lexes).lfText_eq inside other
    · obtain rfl := List.mem_singleton.mp last
      rfl
  · have scanned' := scan_lf source
    cases scanned : scan source with
    | error error =>
      rw [scanned] at scanned'
      rw [parseSource, parseSource, scanned, scanned']
      rfl
    | ok tokens =>
      rw [scanned] at scanned'
      rw [parseSource_of_scan scanned, parseSource_of_scan scanned',
        parseTokens_map lfText id rfl tokens, mapAnswer_lf scanned]

theorem lineEndings_irrelevant_quoted :
    let source := "f(\"\r\r\n\" // c\r\n\"\r\n\")"
    let tokens : List Token := [⟨.identifier, "f", ⟨1, 1⟩⟩, ⟨.leftParen, "(", ⟨1, 2⟩⟩,
      ⟨.quoted, "\"\r\r\n\"", ⟨1, 3⟩⟩, ⟨.quoted, "\"\r\n\"", ⟨3, 1⟩⟩,
      ⟨.rightParen, ")", ⟨4, 2⟩⟩, ⟨.finish, "", ⟨4, 3⟩⟩]
    scan source = .ok tokens ∧
      scan (lfText source) = .ok (tokens.map (Token.map lfText id)) ∧
      lfText "f" = "f" ∧
      parseSource (lfText source) =
        .error (.parse (.expected .rightParen ⟨.quoted, "\"\n\"", ⟨3, 1⟩⟩)) := by
  intro source tokens
  have scanned : scan source = .ok tokens := by cbv
  have failed : parseSource source =
      .error (.parse (.expected .rightParen ⟨.quoted, "\"\r\n\"", ⟨3, 1⟩⟩)) := by cbv
  obtain ⟨scanned', names, read⟩ := lineEndings_irrelevant source
  rw [scanned] at scanned'
  rw [failed] at read
  have changed : lfText "\"\r\n\"" = "\"\n\"" := by cbv
  have name := names tokens scanned ⟨.identifier, "f", ⟨1, 1⟩⟩ (by simp [tokens]) (by decide)
  refine ⟨scanned, scanned', name, ?_⟩
  rw [read]
  simp only [literalResult, ParseError.map, Token.map, changed]
  rfl

end YalSyntax
