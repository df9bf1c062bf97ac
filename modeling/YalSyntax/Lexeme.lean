import YalSyntax.Character
import YalSyntax.Error
import YalSyntax.Token.Spelling

namespace YalSyntax

/-- What makes a lexeme no token. -/
inductive Flaw
  | illegalCharacter (char : Char)
  | unterminatedString
  | unterminatedComment
  | malformedNumber (text : String)
deriving DecidableEq, Repr

def Flaw.report (position : Position) : Flaw → LexError
  | illegalCharacter char => .illegalCharacter char position
  | unterminatedString => .unterminatedString position
  | unterminatedComment => .unterminatedComment position
  | malformedNumber text => .malformedNumber text position

inductive Meaning
  | space
  | token (kind : Token.Kind)
  | flaw (flaw : Flaw)
deriving DecidableEq, Repr

/-- The front of a text: what it stands for, its characters, and the rest of the text. -/
structure Lexeme where
  meaning : Meaning
  text : List Char
  rest : List Char
deriving DecidableEq, Repr

namespace Lexeme

def word (c : Char) (text : List Char) : Lexeme :=
  let letters := c :: text.takeWhile isWordChar
  ⟨.token (.ofWord (String.ofList letters)), letters, text.dropWhile isWordChar⟩

def quoted (text : List Char) : Lexeme :=
  let inner := text.takeWhile (· ≠ '"')
  match text.dropWhile (· ≠ '"') with
  | [] => ⟨.flaw .unterminatedString, '"' :: inner, []⟩
  | quote :: rest => ⟨.token .quoted, '"' :: (inner ++ [quote]), rest⟩

/-- The digits at the front of a text, with a point and more digits if a point follows them. -/
def digits (base : Base) (text : List Char) : List Char × List Char :=
  let whole := text.takeWhile base.isDigit
  match text.dropWhile base.isDigit with
  | '.' :: rest => (whole ++ '.' :: rest.takeWhile base.isDigit, rest.dropWhile base.isDigit)
  | rest => (whole, rest)

def decimal (c : Char) (text : List Char) : Lexeme :=
  let (number, rest) := digits .decimal text
  ⟨.token .decimalNumber, c :: number, rest⟩

/-- The number whose leading zero and mark, if it has a mark, stand before `text`. A letter, digit
or underscore after it, or no digit after a mark, makes it malformed. -/
def basedNumber (base : Base) (start : List Char) (digitless : Bool) (text : List Char) : Lexeme :=
  let (number, rest) := digits base text
  let excess := rest.takeWhile isWordChar
  let whole := start ++ number ++ excess
  let meaning :=
    if digitless || !excess.isEmpty then .flaw (.malformedNumber (String.ofList whole))
    else .token base.kind
  ⟨meaning, whole, rest.dropWhile isWordChar⟩

def zero (text : List Char) : Lexeme :=
  match text with
  | [] => basedNumber .octal ['0'] false []
  | mark :: rest =>
    match Base.ofMark? mark with
    | none => basedNumber .octal ['0'] false (mark :: rest)
    | some base => basedNumber base ['0', mark] (rest.takeWhile base.isDigit).isEmpty rest

/-- The comment whose `//` stands before `text`. It ends before the next line feed. -/
def lineComment (text : List Char) : Lexeme :=
  ⟨.space, '/' :: '/' :: text.takeWhile (· ≠ '\n'), text.dropWhile (· ≠ '\n')⟩

/-- How many characters there are up to the end of the first `*/`, after `count` of them. -/
def commentSize? (count : Nat) : List Char → Option Nat
  | '*' :: '/' :: _ => some (count + 2)
  | _ :: rest => commentSize? (count + 1) rest
  | [] => none

def blockComment (text : List Char) : Lexeme :=
  match commentSize? 0 text with
  | none => ⟨.flaw .unterminatedComment, '/' :: '*' :: text, []⟩
  | some size => ⟨.space, '/' :: '*' :: text.take size, text.drop size⟩

def single (c : Char) (text : List Char) : Lexeme :=
  match Token.Kind.ofChar? c with
  | some kind => ⟨.token kind, [c], text⟩
  | none => ⟨.flaw (.illegalCharacter c), [c], text⟩

/-- The comment or the token with a fixed spelling at the front of `c :: text`. A comment goes
before a token, and a longer spelling before a shorter one. -/
def mark (c : Char) (text : List Char) : Lexeme :=
  match text with
  | [] => single c []
  | d :: rest =>
    if c = '/' ∧ d = '/' then lineComment rest
    else if c = '/' ∧ d = '*' then blockComment rest
    else match Token.Kind.ofPair? c d with
      | some kind => ⟨.token kind, [c, d], rest⟩
      | none => single c (d :: rest)

/-- The lexeme at the front of `c :: text`. -/
def first (c : Char) (text : List Char) : Lexeme :=
  if isBlank c then ⟨.space, [c], text⟩
  else if c = '"' then quoted text
  else if c = '0' then zero text
  else if Base.decimal.isDigit c then decimal c text
  else if isWordStart c then word c text
  else mark c text

theorem quoted_append (text : List Char) :
    (quoted text).text ++ (quoted text).rest = '"' :: text := by
  have whole := List.takeWhile_append_dropWhile (p := (· ≠ '"')) (l := text)
  unfold quoted
  split <;> rename_i left <;> rw [left] at whole
  · simpa using whole
  · simpa using whole

theorem digits_append (base : Base) (text : List Char) :
    (digits base text).1 ++ (digits base text).2 = text := by
  have whole := List.takeWhile_append_dropWhile (p := base.isDigit) (l := text)
  unfold digits
  split
  · rename_i rest left
    rw [left] at whole
    simpa using whole
  · exact whole

theorem basedNumber_append (base : Base) (start : List Char) (digitless : Bool)
    (text : List Char) :
    (basedNumber base start digitless text).text ++ (basedNumber base start digitless text).rest
      = start ++ text := by
  simp [basedNumber, digits_append]

theorem zero_append (text : List Char) : (zero text).text ++ (zero text).rest = '0' :: text := by
  unfold zero
  split
  · rw [basedNumber_append]; rfl
  · split <;> rw [basedNumber_append] <;> rfl

theorem blockComment_append (text : List Char) :
    (blockComment text).text ++ (blockComment text).rest = '/' :: '*' :: text := by
  unfold blockComment
  split <;> simp

theorem single_append (c : Char) (text : List Char) :
    (single c text).text ++ (single c text).rest = c :: text := by
  unfold single
  split <;> rfl

theorem mark_append (c : Char) (text : List Char) :
    (mark c text).text ++ (mark c text).rest = c :: text := by
  unfold mark
  split
  · exact single_append c []
  · split
    · rename_i both
      simp [lineComment, both]
    · split
      · rename_i both
        rw [blockComment_append, both.1, both.2]
      · split
        · rfl
        · exact single_append c _

theorem first_append (c : Char) (text : List Char) :
    (first c text).text ++ (first c text).rest = c :: text := by
  unfold first
  split
  · rfl
  · split
    · rename_i quote
      rw [quoted_append, quote]
    · split
      · rename_i nought
        rw [zero_append, nought]
      · split
        · simp [decimal, digits_append]
        · split
          · simp [word]
          · exact mark_append c text

theorem first_text_ne_nil (c : Char) (text : List Char) : (first c text).text ≠ [] := by
  unfold first quoted zero decimal word mark lineComment blockComment single basedNumber
  repeat' split
  all_goals simp

theorem first_rest_length (c : Char) (text : List Char) :
    (first c text).rest.length < (c :: text).length := by
  have whole := congrArg List.length (first_append c text)
  have some_char := List.length_pos_iff.mpr (first_text_ne_nil c text)
  simp only [List.length_append] at whole
  omega

end Lexeme

end YalSyntax
