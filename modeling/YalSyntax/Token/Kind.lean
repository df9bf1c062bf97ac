namespace YalSyntax

namespace Token

inductive Kind
  | leftParen | rightParen | leftBrace | rightBrace | leftBracket | rightBracket
  | comma | colon | semicolon | dot
  | plus | minus | star | slash | percent | increment | decrement
  | plusEqual | minusEqual | starEqual | slashEqual | caretEqual
  | bang | bangEqual | equal | equalEqual | less | lessEqual | greater | greaterEqual
  | ampersand | pipe | caret | shiftLeft | shiftRight | andAnd | orOr
  | arrow | leftArrow | fatArrow
  | ifWord | elseWord | forWord | whileWord | letWord | returnWord | fnWord
  | trueWord | falseWord | nullWord | switchWord | gotoWord | typeWord
  | binaryNumber | octalNumber | decimalNumber | hexNumber | quoted | identifier
  | finish
deriving DecidableEq, Repr, Inhabited

namespace Kind

def all : List Kind :=
  [leftParen, rightParen, leftBrace, rightBrace, leftBracket, rightBracket,
    comma, colon, semicolon, dot,
    plus, minus, star, slash, percent, increment, decrement,
    plusEqual, minusEqual, starEqual, slashEqual, caretEqual,
    bang, bangEqual, equal, equalEqual, less, lessEqual, greater, greaterEqual,
    ampersand, pipe, caret, shiftLeft, shiftRight, andAnd, orOr,
    arrow, leftArrow, fatArrow,
    ifWord, elseWord, forWord, whileWord, letWord, returnWord, fnWord,
    trueWord, falseWord, nullWord, switchWord, gotoWord, typeWord,
    binaryNumber, octalNumber, decimalNumber, hexNumber, quoted, identifier,
    finish]

theorem mem_all (kind : Kind) : kind ∈ all := by cases kind <;> decide

def name : Kind → String
  | leftParen => "LeftParen"
  | rightParen => "RightParen"
  | leftBrace => "LeftBrace"
  | rightBrace => "RightBrace"
  | leftBracket => "LeftBracket"
  | rightBracket => "RightBracket"
  | comma => "Comma"
  | colon => "Colon"
  | semicolon => "Semicolon"
  | dot => "Dot"
  | plus => "Plus"
  | minus => "Minus"
  | star => "Star"
  | slash => "Slash"
  | percent => "Percent"
  | increment => "Increment"
  | decrement => "Decrement"
  | plusEqual => "PlusEqual"
  | minusEqual => "MinusEqual"
  | starEqual => "StarEqual"
  | slashEqual => "SlashEqual"
  | caretEqual => "CaretEqual"
  | bang => "Bang"
  | bangEqual => "BangEqual"
  | equal => "Equal"
  | equalEqual => "EqualEqual"
  | less => "Less"
  | lessEqual => "LessEqual"
  | greater => "Greater"
  | greaterEqual => "GreaterEqual"
  | ampersand => "Ampersand"
  | pipe => "Pipe"
  | caret => "Caret"
  | shiftLeft => "ShiftLeft"
  | shiftRight => "ShiftRight"
  | andAnd => "AndAnd"
  | orOr => "OrOr"
  | arrow => "Arrow"
  | leftArrow => "LeftArrow"
  | fatArrow => "FatArrow"
  | ifWord => "If"
  | elseWord => "Else"
  | forWord => "For"
  | whileWord => "While"
  | letWord => "Let"
  | returnWord => "Return"
  | fnWord => "Fn"
  | trueWord => "True"
  | falseWord => "False"
  | nullWord => "Null"
  | switchWord => "Switch"
  | gotoWord => "Goto"
  | typeWord => "Type"
  | binaryNumber => "Number2"
  | octalNumber => "Number8"
  | decimalNumber => "Number10"
  | hexNumber => "Number16"
  | quoted => "String"
  | identifier => "Identifier"
  | finish => "Eof"

def ofName? (name : String) : Option Kind := all.find? (·.name == name)

def describe : Kind → String
  | leftParen => "left parenthesis"
  | rightParen => "right parenthesis"
  | leftBrace => "left brace"
  | rightBrace => "right brace"
  | leftBracket => "left bracket"
  | rightBracket => "right bracket"
  | comma => "comma"
  | colon => "colon"
  | semicolon => "semicolon"
  | dot => "dot"
  | plus => "plus"
  | minus => "minus"
  | star => "star"
  | slash => "slash"
  | percent => "percent"
  | increment => "increment"
  | decrement => "decrement"
  | plusEqual => "plus assign"
  | minusEqual => "minus assign"
  | starEqual => "star assign"
  | slashEqual => "slash assign"
  | caretEqual => "xor assign"
  | bang => "bang"
  | bangEqual => "not equal"
  | equal => "assignment"
  | equalEqual => "equality"
  | less => "less"
  | lessEqual => "less equal"
  | greater => "greater"
  | greaterEqual => "greater equal"
  | ampersand => "ampersand"
  | pipe => "pipe"
  | caret => "xor"
  | shiftLeft => "shift left"
  | shiftRight => "shift right"
  | andAnd => "double ampersand"
  | orOr => "double pipe"
  | arrow => "arrow"
  | leftArrow => "left arrow"
  | fatArrow => "fat arrow"
  | ifWord => "if"
  | elseWord => "else"
  | forWord => "for"
  | whileWord => "while"
  | letWord => "let"
  | returnWord => "return"
  | fnWord => "fn"
  | trueWord => "true"
  | falseWord => "false"
  | nullWord => "NULL"
  | switchWord => "switch"
  | gotoWord => "goto"
  | typeWord => "type"
  | binaryNumber => "number(binary)"
  | octalNumber => "number(octal)"
  | decimalNumber => "number(decimal)"
  | hexNumber => "number(hex)"
  | quoted => "string"
  | identifier => "identifier"
  | finish => "end of input"

/-- The kind of a reserved word. Any other word is an identifier. -/
def keyword? : String → Option Kind
  | "if" => some ifWord
  | "else" => some elseWord
  | "for" => some forWord
  | "while" => some whileWord
  | "let" => some letWord
  | "return" => some returnWord
  | "fn" => some fnWord
  | "true" => some trueWord
  | "false" => some falseWord
  | "NULL" => some nullWord
  | "switch" => some switchWord
  | "goto" => some gotoWord
  | "type" => some typeWord
  | _ => none

def ofWord (word : String) : Kind := (keyword? word).getD identifier

/-- How strongly a two-sided operator binds, from one to five, and zero for every other kind. -/
def strength : Kind → Nat
  | orOr => 1
  | andAnd => 2
  | equalEqual | bangEqual | less | lessEqual | greater | greaterEqual => 3
  | plus | minus | pipe | caret => 4
  | star | slash | percent | shiftLeft | shiftRight | ampersand => 5
  | _ => 0

def isLiteral : Kind → Bool
  | binaryNumber | octalNumber | decimalNumber | hexNumber | quoted => true
  | trueWord | falseWord | nullWord => true
  | _ => false

end Kind

end Token

/-- The strength of an operator that stands before its operand: above every two-sided one. -/
def unaryStrength : Nat := 6

theorem Token.Kind.strength_lt_unary (kind : Token.Kind) : kind.strength < unaryStrength := by
  cases kind <;> decide

end YalSyntax
