import YalSyntax.Token.Kind

namespace YalSyntax

namespace Token

namespace Kind

def ofChar? : Char → Option Kind
  | '(' => some leftParen
  | ')' => some rightParen
  | '{' => some leftBrace
  | '}' => some rightBrace
  | '[' => some leftBracket
  | ']' => some rightBracket
  | ',' => some comma
  | ':' => some colon
  | ';' => some semicolon
  | '.' => some dot
  | '+' => some plus
  | '-' => some minus
  | '*' => some star
  | '/' => some slash
  | '%' => some percent
  | '!' => some bang
  | '=' => some equal
  | '<' => some less
  | '>' => some greater
  | '&' => some ampersand
  | '|' => some pipe
  | '^' => some caret
  | _ => none

def ofPair? : Char → Char → Option Kind
  | '+', '+' => some increment
  | '-', '-' => some decrement
  | '+', '=' => some plusEqual
  | '-', '=' => some minusEqual
  | '*', '=' => some starEqual
  | '/', '=' => some slashEqual
  | '^', '=' => some caretEqual
  | '!', '=' => some bangEqual
  | '=', '=' => some equalEqual
  | '<', '=' => some lessEqual
  | '>', '=' => some greaterEqual
  | '<', '<' => some shiftLeft
  | '>', '>' => some shiftRight
  | '&', '&' => some andAnd
  | '|', '|' => some orOr
  | '-', '>' => some arrow
  | '<', '-' => some leftArrow
  | '=', '>' => some fatArrow
  | _, _ => none

end Kind

end Token

end YalSyntax
