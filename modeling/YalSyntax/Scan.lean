import YalSyntax.Lexeme

namespace YalSyntax

/-- A text scanned in part: the position reached, the text still to be scanned, and the tokens
collected, the latest first. -/
structure Scan where
  position : Position
  rest : List Char
  collected : List Token
deriving DecidableEq, Repr

namespace Scan

def ofSource (source : String) : Scan := ⟨.start, source.toList, []⟩

/-- Scan up to the first flaw or to the end. At the end the tokens are handed over. -/
def run : Scan → Except LexError (List Token) × Scan
  | ⟨position, [], collected⟩ =>
    (.ok (Token.finishAt position :: collected).reverse, ⟨position, [], []⟩)
  | ⟨position, c :: text, collected⟩ =>
    let lexeme := Lexeme.first c text
    let after := position.after lexeme.text
    match lexeme.meaning with
    | .space => run ⟨after, lexeme.rest, collected⟩
    | .token kind =>
      run ⟨after, lexeme.rest, ⟨kind, String.ofList lexeme.text, position⟩ :: collected⟩
    | .flaw flaw => (.error (flaw.report position), ⟨after, lexeme.rest, collected⟩)
termination_by scan => scan.rest.length
decreasing_by all_goals exact Lexeme.first_rest_length c text

end Scan

def scan (source : String) : Except LexError (List Token) := (Scan.ofSource source).run.1

end YalSyntax
