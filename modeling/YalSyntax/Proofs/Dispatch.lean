import YalSyntax.Scan

namespace YalSyntax

/-- A source with a cursor in it, the place where the lexeme under way started, and the tokens
collected. -/
structure Lexer where
  source : List Char
  cursor : Nat
  start : Nat
  startPosition : Position
  position : Position
  tokens : List Token
deriving DecidableEq, Repr

namespace Lexer

inductive State
  | start
  | punctuation (kind : Token.Kind)
  | operator (first : Char)
  | whitespace
  | quoted
  | basedNumber
  | decimal
  | word
  | lineComment
  | blockComment
  | endOfInput
  | finished
deriving DecidableEq, Repr

/-- What a dispatch step comes to. It is `outside` where a text is to be cut out that is no part of
the source. -/
inductive Turn
  | goes (next : State) (lexer : Lexer)
  | fails (error : LexError) (lexer : Lexer)
  | outside (lexer : Lexer)
deriving DecidableEq, Repr

def ofSource (source : String) : Lexer := ⟨source.toList, 0, 0, .start, .start, []⟩

def remaining (lexer : Lexer) : Nat := lexer.source.length - lexer.cursor

def current? (lexer : Lexer) : Option Char := lexer.source[lexer.cursor]?

def next? (lexer : Lexer) : Option Char := lexer.source[lexer.cursor + 1]?

def advance (lexer : Lexer) : Lexer :=
  match lexer.current? with
  | none => lexer
  | some c => { lexer with cursor := lexer.cursor + 1, position := lexer.position.next c }

theorem remaining_advance {lexer : Lexer} {c : Char} (found : lexer.current? = some c) :
    lexer.advance.remaining < lexer.remaining := by
  obtain ⟨inside, -⟩ := List.getElem?_eq_some_iff.mp found
  simp only [advance, found, remaining]
  omega

/-- Take characters as long as the test holds of the next one and the one behind it, and count
them. -/
def skipWhile (goesOn : Char → Option Char → Bool) (lexer : Lexer) : Nat × Lexer :=
  match _ : lexer.current? with
  | none => (0, lexer)
  | some c =>
    if goesOn c lexer.next? then
      let (count, lexer) := lexer.advance.skipWhile goesOn
      (count + 1, lexer)
    else (0, lexer)
termination_by lexer.remaining
decreasing_by exact remaining_advance ‹_›

def mark (lexer : Lexer) : Lexer :=
  { lexer with start := lexer.cursor, startPosition := lexer.position }

def lexeme? (lexer : Lexer) : Option String :=
  if lexer.start ≤ lexer.cursor ∧ lexer.cursor ≤ lexer.source.length then
    some (String.ofList ((lexer.source.drop lexer.start).take (lexer.cursor - lexer.start)))
  else none

def cut (lexer : Lexer) (use : String → Turn) : Turn :=
  match lexer.lexeme? with
  | none => .outside lexer
  | some text => use text

def push (lexer : Lexer) (kind : Token.Kind) (text : String) : Lexer :=
  { lexer with tokens := lexer.tokens ++ [⟨kind, text, lexer.startPosition⟩] }

def emit (lexer : Lexer) (kind : Token.Kind) (next : State) : Turn :=
  lexer.cut fun text => .goes next (lexer.push kind text)

def State.ofChar? (c : Char) : Option State :=
  match c with
  | '(' | ')' | '{' | '}' | '[' | ']' | ',' | ':' | ';' | '.' =>
    (Token.Kind.ofChar? c).map .punctuation
  | '!' | '=' | '<' | '>' | '-' | '+' | '*' | '/' | '%' | '^' | '|' | '&' => some (.operator c)
  | ' ' | '\t' | '\r' | '\n' => some .whitespace
  | '"' => some .quoted
  | '0' => some .basedNumber
  | _ =>
    if Base.decimal.isDigit c then some .decimal
    else if isWordStart c then some .word
    else none

def classify (lexer : Lexer) : Turn :=
  let lexer := lexer.mark
  match lexer.current? with
  | none => .goes .endOfInput lexer.advance
  | some c =>
    match State.ofChar? c with
    | some state => .goes state lexer.advance
    | none => .fails (.illegalCharacter c lexer.startPosition) lexer.advance

/-- The longest operator that begins with `first`, or the opening of a comment. -/
def readOperator (first : Char) (lexer : Lexer) : Turn :=
  let alone := (Token.Kind.ofChar? first).getD .percent
  match lexer.current? with
  | none => lexer.emit alone .start
  | some second =>
    if first = '/' ∧ second = '/' then .goes .lineComment lexer.advance
    else if first = '/' ∧ second = '*' then .goes .blockComment lexer.advance
    else
      match Token.Kind.ofPair? first second with
      | some kind => lexer.advance.emit kind .start
      | none => lexer.emit alone .start

def skipLineComment (lexer : Lexer) : Turn :=
  .goes .start (lexer.skipWhile fun c _ => c ≠ '\n').2

def inComment (c : Char) (next : Option Char) : Bool := !(c = '*' ∧ next = some '/')

def skipBlockComment (lexer : Lexer) : Turn :=
  let lexer := (lexer.skipWhile inComment).2
  match lexer.current? with
  | none => .fails (.unterminatedComment lexer.startPosition) lexer
  | some _ => .goes .start lexer.advance.advance

def readQuoted (lexer : Lexer) : Turn :=
  let lexer := (lexer.skipWhile fun c _ => c ≠ '"').2
  match lexer.current? with
  | none => .fails (.unterminatedString lexer.startPosition) lexer
  | some _ => lexer.advance.emit .quoted .start

/-- Take digits, and a point with more digits if a point follows them. The first digits are
counted. -/
def skipNumber (base : Base) (lexer : Lexer) : Nat × Lexer :=
  let (count, lexer) := lexer.skipWhile fun c _ => base.isDigit c
  if lexer.current? = some '.' then
    (count, (lexer.advance.skipWhile fun c _ => base.isDigit c).2)
  else (count, lexer)

def readDigits (base : Base) (marked : Bool) (lexer : Lexer) : Turn :=
  let (digits, lexer) := lexer.skipNumber base
  let (excess, lexer) := lexer.skipWhile fun c _ => isWordChar c
  if (marked ∧ digits = 0) ∨ 0 < excess then
    lexer.cut fun text => .fails (.malformedNumber text lexer.startPosition) lexer
  else lexer.emit base.kind .start

def readBasedNumber (lexer : Lexer) : Turn :=
  match lexer.current?.bind Base.ofMark? with
  | some base => lexer.advance.readDigits base true
  | none => lexer.readDigits .octal false

def readDecimal (lexer : Lexer) : Turn :=
  (lexer.skipNumber .decimal).2.emit .decimalNumber .start

def readWord (lexer : Lexer) : Turn :=
  let lexer := (lexer.skipWhile fun c _ => isWordChar c).2
  lexer.cut fun text => .goes .start (lexer.push (.ofWord text) text)

def step : State → Lexer → Turn
  | .start, lexer => lexer.classify
  | .punctuation kind, lexer => lexer.emit kind .start
  | .operator first, lexer => lexer.readOperator first
  | .whitespace, lexer => .goes .start lexer
  | .quoted, lexer => lexer.readQuoted
  | .basedNumber, lexer => lexer.readBasedNumber
  | .decimal, lexer => lexer.readDecimal
  | .word, lexer => lexer.readWord
  | .lineComment, lexer => lexer.skipLineComment
  | .blockComment, lexer => lexer.skipBlockComment
  | .endOfInput, lexer => lexer.emit .finish .finished
  | .finished, lexer => .goes .finished lexer

end Lexer

end YalSyntax
