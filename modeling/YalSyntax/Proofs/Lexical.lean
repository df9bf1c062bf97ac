import YalSyntax.Scan

namespace YalSyntax

namespace Token.Kind

def sign? : Kind → Option String
  | leftParen => some "("
  | rightParen => some ")"
  | leftBrace => some "\x7b"
  | rightBrace => some "\x7d"
  | leftBracket => some "["
  | rightBracket => some "]"
  | comma => some ","
  | colon => some ":"
  | semicolon => some ";"
  | dot => some "."
  | plus => some "+"
  | minus => some "-"
  | star => some "*"
  | slash => some "/"
  | percent => some "%"
  | increment => some "++"
  | decrement => some "--"
  | plusEqual => some "+="
  | minusEqual => some "-="
  | starEqual => some "*="
  | slashEqual => some "/="
  | caretEqual => some "^="
  | bang => some "!"
  | bangEqual => some "!="
  | equal => some "="
  | equalEqual => some "=="
  | less => some "<"
  | lessEqual => some "<="
  | greater => some ">"
  | greaterEqual => some ">="
  | ampersand => some "&"
  | pipe => some "|"
  | caret => some "^"
  | shiftLeft => some "<<"
  | shiftRight => some ">>"
  | andAnd => some "&&"
  | orOr => some "||"
  | arrow => some "->"
  | leftArrow => some "<-"
  | fatArrow => some "=>"
  | _ => none

end Token.Kind

namespace Position

/-- The position behind the first characters of a source: one more than the line feeds among them,
and one more than the characters behind the last line feed. -/
def behind (before : List Char) : Position :=
  ⟨1 + before.count '\n', 1 + (before.reverse.takeWhile (· ≠ '\n')).length⟩

end Position

namespace Lexical

def Digits (base : Base) (text : List Char) : Prop := ∀ c ∈ text, base.isDigit c

inductive Fraction (base : Base) : List Char → Prop
  | none : Fraction base []
  | point {text : List Char} (digits : Digits base text) : Fraction base ('.' :: text)

/-- The texts of the tokens of a kind. -/
inductive IsLexeme : Token.Kind → List Char → Prop
  | sign {kind : Token.Kind} {text : String} (spelled : kind.sign? = some text) :
      IsLexeme kind text.toList
  | quoted {inner : List Char} (plain : '"' ∉ inner) : IsLexeme .quoted ('"' :: (inner ++ ['"']))
  | decimal {first : Char} {whole fraction : List Char} (digit : Base.decimal.isDigit first)
      (nonzero : first ≠ '0') (digits : Digits .decimal whole) (part : Fraction .decimal fraction) :
      IsLexeme .decimalNumber (first :: (whole ++ fraction))
  | octal {whole fraction : List Char} (digits : Digits .octal whole)
      (part : Fraction .octal fraction) : IsLexeme .octalNumber ('0' :: (whole ++ fraction))
  | marked {base : Base} {mark : Char} {whole fraction : List Char}
      (isMark : Base.ofMark? mark = some base) (digits : Digits base whole) (some : whole ≠ [])
      (part : Fraction base fraction) : IsLexeme base.kind ('0' :: mark :: (whole ++ fraction))
  | word {first : Char} {more : List Char} (starts : isWordStart first)
      (continues : ∀ c ∈ more, isWordChar c) :
      IsLexeme (.ofWord (String.ofList (first :: more))) (first :: more)

/-- `lexeme` is the longest lexeme at the front of `lexeme ++ rest`. -/
structure Longest (kind : Token.Kind) (lexeme rest : List Char) : Prop where
  isLexeme : IsLexeme kind lexeme
  longest : ∀ other longer, IsLexeme other longer → longer <+: lexeme ++ rest →
    longer.length ≤ lexeme.length

/-- What a zero begins, well-formed or not: a mark if there is one, digits of its base with a
fraction, and all letters, digits and underscores behind them. -/
inductive NumberLike : List Char → Prop
  | octal {whole fraction excess : List Char} (digits : Digits .octal whole)
      (part : Fraction .octal fraction) (continues : ∀ c ∈ excess, isWordChar c) :
      NumberLike ('0' :: (whole ++ fraction ++ excess))
  | marked {base : Base} {mark : Char} {whole fraction excess : List Char}
      (isMark : Base.ofMark? mark = some base) (digits : Digits base whole)
      (part : Fraction base fraction) (continues : ∀ c ∈ excess, isWordChar c) :
      NumberLike ('0' :: mark :: (whole ++ fraction ++ excess))

/-- A blank or a comment before `rest`. A line comment ends before a line feed or at the end, a
block comment with the first `*/` behind its `/*`. -/
inductive Skips : List Char → List Char → Prop
  | blank {c : Char} {rest : List Char} (blank : isBlank c) : Skips [c] rest
  | line {body rest : List Char} (inside : '\n' ∉ body) (ends : ∀ next ∈ rest.head?, next = '\n') :
      Skips ('/' :: '/' :: body) rest
  | block {body rest : List Char} (first : ¬ ['*', '/'] <:+: body ++ ['*']) :
      Skips ('/' :: '*' :: (body ++ ['*', '/'])) rest

def OpensComment (text : List Char) : Prop := ['/', '/'] <+: text ∨ ['/', '*'] <+: text

/-- A token before `rest`: the longest lexeme, which no comment is taken for. A number that begins
with a zero does not stand before a letter, a digit or an underscore. -/
structure Takes (kind : Token.Kind) (lexeme rest : List Char) : Prop where
  plain : ¬ OpensComment (lexeme ++ rest)
  longest : Longest kind lexeme rest
  whole : lexeme.head? = some '0' → ∀ next ∈ rest.head?, ¬ isWordChar next

/-- What is wrong with a text at which neither a blank, a comment nor a token stands, and the
characters that it concerns. -/
inductive Fails : Flaw → List Char → List Char → Prop
  | unterminatedString {text : List Char} (unclosed : '"' ∉ text) :
      Fails .unterminatedString ('"' :: text) []
  | unterminatedComment {text : List Char} (unclosed : ¬ ['*', '/'] <:+: text) :
      Fails .unterminatedComment ('/' :: '*' :: text) []
  | malformedNumber {kind : Token.Kind} {lexeme number more rest : List Char} {next : Char}
      (split : number ++ rest = lexeme ++ next :: more) (zero : lexeme.head? = some '0')
      (valid : Longest kind lexeme (next :: more)) (continues : isWordChar next)
      (like : NumberLike number)
      (longest : ∀ longer, NumberLike longer → longer <+: number ++ rest →
        longer.length ≤ number.length) :
      Fails (.malformedNumber (String.ofList number)) number rest
  | illegalCharacter {c : Char} {rest : List Char} (noBlank : isBlank c = false)
      (noQuote : c ≠ '"') (noLexeme : ∀ kind lexeme, IsLexeme kind lexeme → ¬ lexeme <+: c :: rest) :
      Fails (.illegalCharacter c) [c] rest

/-- Lexing `text`, which stands behind `before`, up to where `left` stands behind `reached`, with the
tokens found on the way. -/
inductive Lexes : List Char → List Char → List Token → List Char → List Char → Prop
  | here {before text : List Char} : Lexes before text [] before text
  | skip {before item rest reached left : List Char} {tokens : List Token}
      (skips : Skips item rest) (others : Lexes (before ++ item) rest tokens reached left) :
      Lexes before (item ++ rest) tokens reached left
  | token {before lexeme rest reached left : List Char} {kind : Token.Kind} {tokens : List Token}
      (takes : Takes kind lexeme rest) (others : Lexes (before ++ lexeme) rest tokens reached left) :
      Lexes before (lexeme ++ rest)
        (⟨kind, String.ofList lexeme, Position.behind before⟩ :: tokens) reached left

end Lexical

end YalSyntax
