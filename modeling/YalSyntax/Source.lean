import YalSyntax.Reading
import YalSyntax.Scan

namespace YalSyntax

/-- The program that a source text holds. -/
def parseSource (source : String) : Except SyntaxError Program :=
  match scan source with
  | .error error => .error (.lex error)
  | .ok tokens => (parseTokens tokens).mapError .parse

end YalSyntax
