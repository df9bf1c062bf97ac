import YalSyntax.Token.Kind

namespace YalSyntax

/-- The characters that may stand between tokens. -/
def isBlank (c : Char) : Bool := c = ' ' || c = '\t' || c = '\r' || c = '\n'

def isWordStart (c : Char) : Bool := c.isAlpha || c = '_'

def isWordChar (c : Char) : Bool := c.isAlphanum || c = '_'

inductive Base
  | binary | octal | decimal | hex
deriving DecidableEq, Repr

namespace Base

def isDigit : Base → Char → Bool
  | binary, c => '0' ≤ c && c ≤ '1'
  | octal, c => '0' ≤ c && c ≤ '7'
  | decimal, c => '0' ≤ c && c ≤ '9'
  | hex, c => ('0' ≤ c && c ≤ '9') || ('a' ≤ c && c ≤ 'f') || ('A' ≤ c && c ≤ 'F')

def kind : Base → Token.Kind
  | binary => .binaryNumber
  | octal => .octalNumber
  | decimal => .decimalNumber
  | hex => .hexNumber

/-- The base that a letter after a leading zero announces. -/
def ofMark? : Char → Option Base
  | 'x' | 'X' => some hex
  | 'b' | 'B' => some binary
  | 'o' | 'O' => some octal
  | _ => none

end Base

end YalSyntax
