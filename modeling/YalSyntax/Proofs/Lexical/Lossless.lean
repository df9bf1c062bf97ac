import YalSyntax.Proofs.Lexical.LongestMatch

namespace YalSyntax

namespace Lexical

inductive Trivia : List Char → List Char → Prop
  | none {behind : List Char} : Trivia [] behind
  | item {item gap behind : List Char} (skips : Skips item (gap ++ behind))
      (others : Trivia gap behind) : Trivia (item ++ gap) behind

/-- The tokens of `text`, which stands behind `before`: each behind blanks and comments, with the
position where its text starts, and the end token behind the last of them. -/
inductive Layout : List Char → List Token → List Char → Prop
  | finish {before gap : List Char} (trivia : Trivia gap []) :
      Layout before [⟨.finish, "", Position.behind (before ++ gap)⟩] gap
  | token {before gap lexeme text : List Char} {kind : Token.Kind} {tokens : List Token}
      (trivia : Trivia gap (lexeme ++ text)) (some : lexeme ≠ []) (inside : kind ≠ .finish)
      (others : Layout (before ++ gap ++ lexeme) tokens text) :
      Layout before (⟨kind, String.ofList lexeme, Position.behind (before ++ gap)⟩ :: tokens)
        (gap ++ (lexeme ++ text))

theorem ofWord_ne_finish (word : String) : Token.Kind.ofWord word ≠ .finish := by
  unfold Token.Kind.ofWord Token.Kind.keyword?
  split <;> decide

theorem IsLexeme.ne_finish {kind : Token.Kind} {text : List Char} (is : IsLexeme kind text) :
    kind ≠ .finish := by
  cases is with
  | sign spelled =>
    intro same
    subst same
    cases spelled
  | quoted | decimal | octal => decide
  | @marked base => cases base <;> decide
  | word => exact ofWord_ne_finish _

theorem Layout.skip {before item text : List Char} {tokens : List Token} (skips : Skips item text)
    (layout : Layout (before ++ item) tokens text) : Layout before tokens (item ++ text) := by
  cases layout with
  | finish trivia =>
    rw [List.append_assoc]
    exact .finish (.item (by simpa using skips) trivia)
  | @token _ gap lexeme text kind tokens trivia some inside others =>
    have layout := Layout.token (.item skips trivia) some inside
      (by simpa only [List.append_assoc] using others)
    simpa only [List.append_assoc] using layout

theorem Lexes.layout {before text reached left : List Char} {tokens : List Token}
    (lexes : Lexes before text tokens reached left) (atEnd : left = []) :
    Layout before (tokens ++ [Token.finishAt (Position.behind reached)]) text := by
  induction lexes with
  | @here before text =>
    subst atEnd
    have layout : Layout before [⟨.finish, "", Position.behind (before ++ [])⟩] [] := .finish .none
    rwa [List.append_nil] at layout
  | skip skips _ further => exact .skip skips (further atEnd)
  | @token before lexeme rest reached left kind tokens takes _ further =>
    have is := takes.longest.isLexeme
    have others := further atEnd
    rw [← List.append_nil before] at others
    have layout := Layout.token .none is.ne_nil is.ne_finish others
    rwa [List.append_nil, List.nil_append] at layout

end Lexical

open Lexical

/-- A scan loses nothing and reports true positions. When it succeeds, the tokens lay out the
source. When it fails, the error is that of a flaw in the source, at the first character that the
flaw concerns, and the lexing comes so far. -/
theorem scan_lossless (source : String) :
    match scan source with
    | .ok tokens => Layout [] tokens source.toList
    | .error error => ∃ found before lexeme rest flaw, source.toList = before ++ lexeme ++ rest ∧
        Lexes [] source.toList found before (lexeme ++ rest) ∧ Fails flaw lexeme rest ∧
        error = flaw.report (Position.behind before) := by
  cases scanned : scan source with
  | ok tokens =>
    obtain ⟨found, lexes, rfl⟩ := lexes_of_scan scanned
    exact lexes.layout rfl
  | error error =>
    obtain ⟨found, before, lexeme, rest, flaw, lexes, fails, same⟩ := flaw_of_scan scanned
    have keeps : source.toList = before ++ lexeme ++ rest := by simpa using lexes.keeps
    exact ⟨found, before, lexeme, rest, flaw, keeps, lexes, fails, same⟩

end YalSyntax
