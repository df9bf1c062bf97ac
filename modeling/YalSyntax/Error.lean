import YalSyntax.Token

namespace YalSyntax

/-- How many statements and expressions may be open inside each other. -/
def nestingLimit : Nat := 128

inductive LexError
  | illegalCharacter (char : Char) (position : Position)
  | unterminatedString (position : Position)
  | unterminatedComment (position : Position)
  | malformedNumber (text : String) (position : Position)
deriving DecidableEq, Repr

inductive ParseError
  | expected (kind : Token.Kind) (found : Token)
  | expectedExpression (found : Token)
  | assignmentTarget (position : Position)
  | suffixOperand (operator : String) (position : Position)
  | tooDeep (position : Position)
deriving DecidableEq, Repr

inductive SyntaxError
  | lex (error : LexError)
  | parse (error : ParseError)
deriving DecidableEq, Repr

namespace Position

def describe (position : Position) : String :=
  s!"line {position.line}, column {position.column}"

end Position

namespace LexError

def position : LexError → Position
  | illegalCharacter _ position | malformedNumber _ position => position
  | unterminatedString position | unterminatedComment position => position

def reason : LexError → String
  | illegalCharacter char _ => s!"illegal character '{char}'"
  | unterminatedString _ => "unterminated string literal"
  | unterminatedComment _ => "unterminated block comment"
  | malformedNumber text _ => s!"malformed number literal '{text}'"

def message (error : LexError) : String :=
  s!"Lex error at {error.position.describe}: {error.reason}"

end LexError

namespace ParseError

def position : ParseError → Position
  | expected _ found | expectedExpression found => found.position
  | assignmentTarget position | suffixOperand _ position | tooDeep position => position

def reason : ParseError → String
  | expected kind found =>
    s!"expected {kind.describe}, found {found.kind.describe} '{found.text}'"
  | expectedExpression found => s!"expected expression, found {found.kind.describe} '{found.text}'"
  | assignmentTarget _ => "invalid assignment target"
  | suffixOperand operator _ => s!"'{operator}' can only follow a variable"
  | tooDeep _ => s!"nesting is too deep (maximum {nestingLimit} levels)"

def message (error : ParseError) : String :=
  s!"Parse error at {error.position.describe}: {error.reason}"

end ParseError

namespace SyntaxError

def position : SyntaxError → Position
  | lex error => error.position
  | parse error => error.position

def message : SyntaxError → String
  | lex error => error.message
  | parse error => error.message

end SyntaxError

end YalSyntax
