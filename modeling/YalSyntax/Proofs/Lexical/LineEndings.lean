import Mathlib
import YalSyntax.Proofs.Rendering

namespace YalSyntax

/-- The text with a line feed for each carriage return and line feed. -/
def lf : List Char → List Char
  | [] => []
  | c :: text => if c = '\r' ∧ text.head? = some '\n' then lf text else c :: lf text

def lfText (text : String) : String := String.ofList (lf text.toList)

example : lfText "a\r\r\n\rb\r\n" = "a\r\n\rb\n" := by decide

section Text

theorem lf_pair (text : List Char) : lf ('\r' :: '\n' :: text) = lf ('\n' :: text) :=
  if_pos ⟨rfl, rfl⟩

theorem lf_cons {c : Char} {text : List Char} (other : ¬ (c = '\r' ∧ text.head? = some '\n')) :
    lf (c :: text) = c :: lf text :=
  if_neg other

theorem lf_cons_of_ne {c : Char} (other : c ≠ '\r') (text : List Char) :
    lf (c :: text) = c :: lf text :=
  lf_cons fun pair => other pair.1

theorem lf_cases (c : Char) (text : List Char) :
    (∃ more, c = '\r' ∧ text = '\n' :: more) ∨
      (¬ (c = '\r' ∧ text.head? = some '\n') ∧ lf (c :: text) = c :: lf text) := by
  by_cases pair : c = '\r' ∧ text.head? = some '\n'
  · obtain ⟨rfl, ahead⟩ := pair
    obtain ⟨more, rfl⟩ := List.head?_eq_some_iff.mp ahead
    exact .inl ⟨more, rfl, rfl⟩
  · exact .inr ⟨pair, lf_cons pair⟩

theorem lf_of_not_mem {text : List Char} (plain : '\r' ∉ text) : lf text = text := by
  induction text with
  | nil => rfl
  | cons c text further =>
    rw [lf_cons_of_ne (fun same => plain (by simp [same])),
      further fun inside => plain (List.mem_cons_of_mem c inside)]

theorem lf_append {left : List Char} (right : List Char)
    (edge : left.getLast? = some '\r' → right.head? ≠ some '\n') :
    lf (left ++ right) = lf left ++ lf right := by
  induction left with
  | nil => rfl
  | cons c left further =>
    have later : left.getLast? = some '\r' → right.head? ≠ some '\n' := by
      intro last
      refine edge ?_
      rw [List.getLast?_cons, last]
      rfl
    rcases lf_cases c left with ⟨more, rfl, rfl⟩ | ⟨other, kept⟩
    · rw [lf_pair, ← further later]
      exact lf_pair (more ++ right)
    · rw [kept, List.cons_append, List.cons_append, ← further later]
      refine lf_cons fun pair => ?_
      cases left with
      | nil => exact edge (by rw [pair.1]; rfl) pair.2
      | cons d left => exact other pair

section Class

variable {p : Char → Bool}

theorem takeWhile_lf (both : p '\r' = p '\n') (text : List Char) :
    (lf text).takeWhile p = lf (text.takeWhile p) := by
  induction text with
  | nil => rfl
  | cons c text further =>
    rcases lf_cases c text with ⟨more, rfl, rfl⟩ | ⟨other, kept⟩
    · rw [lf_pair, further]
      cases holds : p '\n' with
      | false => simp [both, holds]
      | true => simp [both, holds, lf_pair]
    · rw [kept]
      cases holds : p c with
      | false => simp [holds, lf]
      | true =>
        rw [List.takeWhile_cons_of_pos holds, List.takeWhile_cons_of_pos holds, further, lf_cons]
        rintro ⟨rfl, ahead⟩
        refine other ⟨rfl, ?_⟩
        cases text with
        | nil => cases ahead
        | cons d text =>
          rw [List.takeWhile_cons] at ahead
          split_ifs at ahead
          · exact ahead
          · cases ahead

theorem dropWhile_lf (both : p '\r' = p '\n') (text : List Char) :
    (lf text).dropWhile p = lf (text.dropWhile p) := by
  induction text with
  | nil => rfl
  | cons c text further =>
    rcases lf_cases c text with ⟨more, rfl, rfl⟩ | ⟨other, kept⟩
    · rw [lf_pair, further]
      cases holds : p '\n' with
      | false => simp [both, holds, lf_pair]
      | true => simp [both, holds]
    · rw [kept]
      cases holds : p c with
      | false => simp [holds, kept]
      | true => rw [List.dropWhile_cons_of_pos holds, List.dropWhile_cons_of_pos holds, further]

end Class

end Text

namespace Position

/-- In front of the text a line feed would make the two positions the same. -/
def SameBefore (rest : List Char) (first second : Position) : Prop :=
  second = first ∨ rest.head? = some '\n' ∧ second.line = first.line

theorem next_feed {first second : Position} (line : second.line = first.line) :
    second.next '\n' = first.next '\n' := by
  simp [next, line]

theorem SameBefore.next {c : Char} {rest : List Char} {first second : Position}
    (same : SameBefore (c :: rest) first second) : second.next c = first.next c := by
  rcases same with rfl | ⟨ahead, line⟩
  · rfl
  · obtain rfl := Option.some.inj ahead
    exact next_feed line

theorem SameBefore.eq {c : Char} {rest : List Char} {first second : Position}
    (same : SameBefore (c :: rest) first second) (other : c ≠ '\n') : second = first := by
  rcases same with equal | ⟨ahead, -⟩
  · exact equal
  · exact absurd (Option.some.inj ahead) other

theorem after_lf (position : Position) (text : List Char) :
    position.after (lf text) = position.after text := by
  induction text generalizing position with
  | nil => rfl
  | cons c text further =>
    rcases lf_cases c text with ⟨more, rfl, rfl⟩ | ⟨-, kept⟩
    · rw [lf_pair, further, after_cons, after_cons, after_cons, next_feed]
      rfl
    · rw [kept, after_cons, after_cons, further]

end Position

namespace Base

theorem isDigit_return (base : Base) : base.isDigit '\r' = false := by
  cases base <;> rfl

theorem isDigit_feed (base : Base) : base.isDigit '\n' = false := by
  cases base <;> rfl

end Base

namespace Lexical

theorem IsLexeme.lf_eq {kind : Token.Kind} {c : Char} {more : List Char}
    (is : IsLexeme kind (c :: more)) (noQuote : c ≠ '"') : lf (c :: more) = c :: more := by
  have plain : Lead.of c ≠ .quote := by
    unfold Lead.of
    split_ifs <;> simp_all
  refine lf_of_not_mem fun inside => ?_
  rcases List.mem_cons.mp inside with rfl | behind
  · exact is.not_blank rfl
  · exact is.shape.no_blank plain '\r' behind rfl

theorem IsLexeme.lf_of_not_quoted {kind : Token.Kind} {text : List Char} (is : IsLexeme kind text)
    (other : kind ≠ .quoted) : lf text = text := by
  cases text with
  | nil => rfl
  | cons c more =>
    refine is.lf_eq ?_
    rintro rfl
    exact other (show Shape kind '"' more .quote from is.shape).1

theorem infix_of_lf {text : List Char} (closed : ['*', '/'] <:+: lf text) :
    ['*', '/'] <:+: text := by
  induction text with
  | nil => exact closed
  | cons c text further =>
    rcases lf_cases c text with ⟨more, rfl, rfl⟩ | ⟨-, kept⟩
    · rw [lf_pair] at closed
      exact (further closed).trans (List.suffix_cons _ _).isInfix
    · rw [kept] at closed
      rcases List.infix_cons_iff.mp closed with opens | later
      · obtain ⟨rfl, behind⟩ := List.cons_prefix_cons.mp opens
        refine List.infix_cons_iff.mpr (.inl (List.cons_prefix_cons.mpr ⟨rfl, ?_⟩))
        cases text with
        | nil => simp [lf] at behind
        | cons d text =>
          rcases lf_cases d text with ⟨more, rfl, rfl⟩ | ⟨-, kept'⟩
          · rw [lf_pair, lf_cons_of_ne (by decide)] at behind
            exact absurd (List.cons_prefix_cons.mp behind).1 (by decide)
          · rw [kept'] at behind
            simpa using behind
      · exact (further later).trans (List.suffix_cons _ _).isInfix

theorem lf_line {body : List Char} (inside : '\n' ∉ body) (rest : List Char) :
    ∃ kept, lf (body ++ '\n' :: rest) = kept ++ '\n' :: lf rest ∧
      (body = kept ∨ body = kept ++ ['\r']) := by
  induction body with
  | nil => exact ⟨[], lf_cons_of_ne (by decide) rest, .inl rfl⟩
  | cons c body further =>
    obtain ⟨kept, line, same⟩ := further fun member => inside (List.mem_cons_of_mem c member)
    rcases lf_cases c (body ++ '\n' :: rest) with ⟨more, rfl, text⟩ | ⟨-, whole⟩
    · obtain rfl : body = [] := by
        cases body with
        | nil => rfl
        | cons d body =>
          obtain ⟨rfl, -⟩ := List.cons.inj text
          exact absurd (by simp) inside
      exact ⟨[], (lf_pair rest).trans (lf_cons_of_ne (by decide) rest), .inr rfl⟩
    · refine ⟨c :: kept, by rw [List.cons_append, whole, line]; rfl, ?_⟩
      rcases same with rfl | rfl
      · exact .inl rfl
      · exact .inr rfl

theorem lf_of_no_feed {text : List Char} (inside : '\n' ∉ text) : lf text = text := by
  induction text with
  | nil => rfl
  | cons c text further =>
    have absent : '\n' ∉ text := fun member => inside (List.mem_cons_of_mem c member)
    rw [lf_cons, further absent]
    exact fun pair => absent (List.mem_of_head? pair.2)

end Lexical

open Lexical

namespace Lexeme

/-- The lexeme at the front of a text, and what stands there without the carriage returns of the
line endings. A line comment may lose its last character, and then a line feed stands behind it. -/
structure Image (lexeme image : Lexeme) : Prop where
  meaning : image.meaning = lexeme.meaning
  rest : image.rest = lf lexeme.rest
  text : ∀ kind, lexeme.meaning = .token kind → image.text = lf lexeme.text
  place : ∀ position : Position,
    Position.SameBefore lexeme.rest (position.after lexeme.text) (position.after image.text)

theorem Image.of_text {lexeme image : Lexeme} (meaning : image.meaning = lexeme.meaning)
    (rest : image.rest = lf lexeme.rest) (text : image.text = lf lexeme.text) :
    Image lexeme image :=
  ⟨meaning, rest, fun _ _ => text, fun position => .inl (by rw [text, position.after_lf])⟩

theorem Image.of_rest {c : Char} {text : List Char} {lexeme image : Lexeme}
    (lawful : Lawful lexeme) (whole : lexeme.text ++ lexeme.rest = c :: text) (noQuote : c ≠ '"')
    (same : image = ⟨lexeme.meaning, lexeme.text, lf lexeme.rest⟩) : Image lexeme image := by
  subst same
  refine ⟨rfl, rfl, fun kind token => ?_, fun position => .inl rfl⟩
  rw [Lawful, token] at lawful
  have is := lawful.longest.isLexeme
  cases found : lexeme.text with
  | nil => exact absurd found is.ne_nil
  | cons d more =>
    rw [found] at is whole
    obtain ⟨rfl, -⟩ := List.cons.inj whole
    exact (is.lf_eq noQuote).symm

theorem takeWhile_lf_of_none {p : Char → Bool} (noReturn : p '\r' = false) (noFeed : p '\n' = false)
    (text : List Char) : (lf text).takeWhile p = text.takeWhile p := by
  rw [takeWhile_lf (noReturn.trans noFeed.symm)]
  refine lf_of_not_mem fun inside => ?_
  have holds := inside_takeWhile '\r' inside
  rw [noReturn] at holds
  cases holds

theorem word_lf (c : Char) (text : List Char) :
    word c (lf text) = ⟨(word c text).meaning, (word c text).text, lf (word c text).rest⟩ := by
  simp only [word, takeWhile_lf_of_none (p := isWordChar) rfl rfl, dropWhile_lf (p := isWordChar) rfl]

theorem digits_lf (base : Base) (text : List Char) :
    digits base (lf text) = ((digits base text).1, lf (digits base text).2) := by
  have taken := takeWhile_lf_of_none base.isDigit_return base.isDigit_feed
  have left := dropWhile_lf (base.isDigit_return.trans base.isDigit_feed.symm)
  unfold digits
  rw [taken, left]
  cases text.dropWhile base.isDigit with
  | nil => rfl
  | cons d rest =>
    by_cases point : d = '.'
    · subst point
      simp only [lf_cons_of_ne (show '.' ≠ '\r' by decide), taken, left]
    · rcases lf_cases d rest with ⟨more, rfl, rfl⟩ | ⟨-, kept⟩
      · simp [lf_pair, lf_cons_of_ne]
      · simp [kept, point]

theorem decimal_lf (c : Char) (text : List Char) :
    decimal c (lf text) =
      ⟨(decimal c text).meaning, (decimal c text).text, lf (decimal c text).rest⟩ := by
  simp only [decimal, digits_lf]

theorem basedNumber_lf (base : Base) (start : List Char) (digitless : Bool) (text : List Char) :
    basedNumber base start digitless (lf text) =
      ⟨(basedNumber base start digitless text).meaning,
        (basedNumber base start digitless text).text,
        lf (basedNumber base start digitless text).rest⟩ := by
  simp only [basedNumber, digits_lf, takeWhile_lf_of_none (p := isWordChar) rfl rfl,
    dropWhile_lf (p := isWordChar) rfl]

theorem zero_lf (text : List Char) :
    zero (lf text) = ⟨(zero text).meaning, (zero text).text, lf (zero text).rest⟩ := by
  cases text with
  | nil => exact basedNumber_lf .octal ['0'] false []
  | cons mark rest =>
    rcases lf_cases mark rest with ⟨more, rfl, rfl⟩ | ⟨-, kept⟩
    · have octal : zero (lf ('\r' :: '\n' :: more)) =
          basedNumber .octal ['0'] false (lf ('\r' :: '\n' :: more)) := by
        rw [lf_pair, lf_cons_of_ne (by decide)]
        rfl
      rw [octal]
      exact basedNumber_lf .octal ['0'] false ('\r' :: '\n' :: more)
    · cases isMark : Base.ofMark? mark with
      | none =>
        have octal : ∀ others : List Char,
            zero (mark :: others) = basedNumber .octal ['0'] false (mark :: others) := by
          intro others
          simp only [zero, isMark]
        rw [kept, octal, octal, ← kept]
        exact basedNumber_lf .octal ['0'] false (mark :: rest)
      | some base =>
        simp only [kept, zero, isMark, takeWhile_lf_of_none base.isDigit_return base.isDigit_feed]
        exact basedNumber_lf base _ _ rest

theorem quoted_image (text : List Char) : Image (quoted text) (quoted (lf text)) := by
  have boundary := takeWhile_boundary (p := (· ≠ '"')) text
  have taken := takeWhile_lf (p := (· ≠ '"')) rfl text
  have left := dropWhile_lf (p := (· ≠ '"')) rfl text
  unfold quoted
  rw [taken, left]
  cases found : text.dropWhile (· ≠ '"') with
  | nil => exact .of_text rfl rfl (lf_cons_of_ne (by decide) _).symm
  | cons quote rest =>
    rw [found] at boundary
    obtain rfl : quote = '"' := by simpa using boundary quote rfl
    rw [lf_cons_of_ne (by decide)]
    refine .of_text rfl rfl ?_
    rw [lf_cons_of_ne (by decide), lf_append _ (fun _ => by simp)]
    rfl

theorem lineComment_eq {body rest : List Char} (inside : '\n' ∉ body)
    (ends : ∀ next ∈ rest.head?, next = '\n') :
    lineComment (body ++ rest) = ⟨.space, '/' :: '/' :: body, rest⟩ := by
  have skips : Lawful ⟨.space, '/' :: '/' :: body, rest⟩ := Skips.line inside ends
  exact (lineComment_lawful _).unique skips (by simp [lineComment])

theorem lineComment_image (text : List Char) : Image (lineComment text) (lineComment (lf text)) := by
  have inside : '\n' ∉ text.takeWhile (· ≠ '\n') := fun member => by
    simpa using inside_takeWhile (p := (· ≠ '\n')) '\n' member
  have boundary : ∀ next ∈ (text.dropWhile (· ≠ '\n')).head?, next = '\n' := by
    simpa using takeWhile_boundary (p := (· ≠ '\n')) text
  rw [← List.takeWhile_append_dropWhile (p := (· ≠ '\n')) (l := text)]
  generalize text.takeWhile (· ≠ '\n') = body at inside
  generalize text.dropWhile (· ≠ '\n') = rest at boundary
  rw [lineComment_eq inside boundary]
  cases rest with
  | nil =>
    have last : lineComment body = ⟨.space, '/' :: '/' :: body, []⟩ := by
      simpa using lineComment_eq inside (show ∀ next ∈ [].head?, next = '\n' by simp)
    rw [List.append_nil, lf_of_no_feed inside, last]
    exact ⟨rfl, rfl, nofun, fun _ => .inl rfl⟩
  | cons feed rest =>
    obtain rfl := boundary feed rfl
    obtain ⟨kept, line, same⟩ := lf_line inside rest
    have shorter : '\n' ∉ kept := by
      rcases same with rfl | rfl
      · exact inside
      · exact fun member => inside (List.mem_append_left _ member)
    rw [line, lineComment_eq shorter (by simp)]
    refine ⟨rfl, (lf_cons_of_ne (by decide) rest).symm, nofun, fun position => ?_⟩
    rcases same with rfl | rfl
    · exact .inl rfl
    · -- the carriage return is the last character of the comment, and the line feed stands behind it
      refine .inr ⟨rfl, ?_⟩
      rw [← List.cons_append, ← List.cons_append, position.after_append]
      rfl

theorem blockComment_eq {body : List Char} (first : ¬ ['*', '/'] <:+: body ++ ['*'])
    (rest : List Char) :
    blockComment (body ++ ['*', '/'] ++ rest) =
      ⟨.space, '/' :: '*' :: (body ++ ['*', '/']), rest⟩ := by
  have skips : Lawful ⟨.space, '/' :: '*' :: (body ++ ['*', '/']), rest⟩ := Skips.block first
  exact (blockComment_lawful _).unique skips (by rw [blockComment_append]; rfl)

theorem blockComment_eq_flaw {text : List Char} (unclosed : ¬ ['*', '/'] <:+: text) :
    blockComment text = ⟨.flaw .unterminatedComment, '/' :: '*' :: text, []⟩ := by
  have fails : Lawful ⟨.flaw .unterminatedComment, '/' :: '*' :: text, []⟩ :=
    Fails.unterminatedComment unclosed
  exact (blockComment_lawful text).unique fails (by rw [blockComment_append]; simp)

theorem blockComment_image (text : List Char) :
    Image (blockComment text) (blockComment (lf text)) := by
  have opener : ∀ text, lf ('/' :: '*' :: text) = '/' :: '*' :: lf text := fun text => by
    rw [lf_cons_of_ne (by decide), lf_cons_of_ne (by decide)]
  cases closed : commentSize? 0 text with
  | none =>
    have unclosed := commentSize?_eq_none closed
    rw [blockComment_eq_flaw unclosed, blockComment_eq_flaw fun inside => unclosed (infix_of_lf inside)]
    exact .of_text rfl rfl (opener text).symm
  | some size =>
    obtain ⟨body, rest, rfl, -, first⟩ := commentSize?_eq_some closed
    have star : lf (body ++ ['*']) = lf body ++ ['*'] := lf_append _ fun _ => by simp
    have close : lf (body ++ ['*', '/']) = lf body ++ ['*', '/'] := lf_append _ fun _ => by simp
    have first' : ¬ ['*', '/'] <:+: lf body ++ ['*'] := fun inside =>
      first (infix_of_lf (star.symm ▸ inside))
    rw [lf_append rest (by simp), close, blockComment_eq first, blockComment_eq first']
    refine .of_text rfl rfl ?_
    rw [opener, close]

theorem single_lf (c : Char) (text : List Char) :
    single c (lf text) = ⟨(single c text).meaning, (single c text).text, lf (single c text).rest⟩ := by
  unfold single
  cases Token.Kind.ofChar? c <;> rfl

theorem mark_of_blank (c : Char) {text : List Char} (blank : ∀ d ∈ text.head?, isBlank d) :
    mark c text = single c text := by
  cases text with
  | nil => rfl
  | cons d rest =>
    have space := blank d rfl
    have noLine : d ≠ '/' := by rintro rfl; exact absurd space (by decide)
    have noBlock : d ≠ '*' := by rintro rfl; exact absurd space (by decide)
    have noPair : Token.Kind.ofPair? c d = none := by
      cases known : Token.Kind.ofPair? c d with
      | none => rfl
      | some kind => exact absurd space (ofPair?_no_blank known)
    simp [mark, noLine, noBlock, noPair]

theorem mark_image {c : Char} (text : List Char) (lead : Lead.of c = .other)
    (noBlank : isBlank c = false) (noQuote : c ≠ '"') : Image (mark c text) (mark c (lf text)) := by
  have unchanged : ∀ {image : Lexeme},
      image = ⟨(mark c text).meaning, (mark c text).text, lf (mark c text).rest⟩ →
        Image (mark c text) image :=
    .of_rest (mark_lawful text lead noBlank noQuote) (mark_append c text) noQuote
  cases text with
  | nil => exact unchanged (single_lf c [])
  | cons d rest =>
    rcases lf_cases d rest with ⟨more, rfl, rfl⟩ | ⟨-, kept⟩
    · refine unchanged ?_
      have first : mark c ('\r' :: '\n' :: more) = single c ('\r' :: '\n' :: more) :=
        mark_of_blank c (by simp [isBlank])
      have second : mark c (lf ('\r' :: '\n' :: more)) = single c (lf ('\r' :: '\n' :: more)) := by
        rw [lf_pair, lf_cons_of_ne (by decide)]
        exact mark_of_blank c (by simp [isBlank])
      rw [first, second]
      exact single_lf c _
    · rw [kept]
      by_cases line : c = '/' ∧ d = '/'
      · obtain ⟨rfl, rfl⟩ := line
        exact lineComment_image rest
      by_cases block : c = '/' ∧ d = '*'
      · obtain ⟨rfl, rfl⟩ := block
        exact blockComment_image rest
      · refine unchanged ?_
        simp only [mark, line, block, if_false]
        cases Token.Kind.ofPair? c d with
        | some kind => rfl
        | none =>
          rw [← kept]
          exact single_lf c (d :: rest)

theorem first_image (c : Char) (text : List Char) : Image (first c text) (first c (lf text)) := by
  unfold first
  split_ifs with blank quote zero digit starts
  · have alone : lf [c] = [c] := lf_cons (by simp)
    exact .of_text rfl rfl alone.symm
  · exact quoted_image text
  · exact .of_rest (zero_lawful text) (zero_append text) (by decide) (zero_lf text)
  · have whole : (decimal c text).text ++ (decimal c text).rest = c :: text := by
      simp [decimal, digits_append]
    exact .of_rest (decimal_lawful text digit zero) whole quote (decimal_lf c text)
  · have whole : (word c text).text ++ (word c text).rest = c :: text := by simp [word]
    exact .of_rest (word_lawful text starts) whole quote (word_lf c text)
  · have lead : Lead.of c = .other := by simp [Lead.of, blank, quote, zero, digit, starts]
    exact mark_image text lead (by simpa using blank) quote

end Lexeme

theorem Position.SameBefore.after {c : Char} {rest : List Char} {first second : Position}
    (same : SameBefore (c :: rest) first second) (others : List Char) :
    second.after (Lexeme.first c others).text = first.after (Lexeme.first c others).text := by
  have whole := Lexeme.first_append c others
  cases found : (Lexeme.first c others).text with
  | nil => exact absurd found (Lexeme.first_text_ne_nil c others)
  | cons d more =>
    rw [found] at whole
    obtain ⟨rfl, -⟩ := List.cons.inj whole
    rw [after_cons, after_cons, same.next]

theorem mapLf_token (kind : Token.Kind) (text : List Char) (position : Position) :
    Token.map lfText id ⟨kind, String.ofList text, position⟩ =
      ⟨kind, String.ofList (lf text), position⟩ := by
  simp [Token.map, lfText]

theorem Scan.run_lf (text : List Char) {position position' : Position} (collected : List Token)
    (same : Position.SameBefore text position position') :
    (Scan.run ⟨position', lf text, collected.map (Token.map lfText id)⟩).1 =
      (Scan.run ⟨position, text, collected⟩).1.map (List.map (Token.map lfText id)) := by
  cases text with
  | nil =>
    obtain rfl : position' = position := same.resolve_right fun ahead => by cases ahead.1
    rw [lf, run.eq_1, run.eq_1]
    simp [Except.map, Token.map, Token.finishAt, lfText, lf]
  | cons c more =>
    rcases lf_cases c more with ⟨others, rfl, rfl⟩ | ⟨-, kept⟩
    · have blank : Lexeme.first '\r' ('\n' :: others) = ⟨.space, ['\r'], '\n' :: others⟩ := rfl
      obtain rfl := same.eq (by decide)
      rw [lf_pair, run.eq_2 position', blank]
      exact run_lf ('\n' :: others) collected (.inr ⟨rfl, rfl⟩)
    · have image := Lexeme.first_image c more
      have advanced := same.after (lf more)
      have place := image.place position
      have shorter : (Lexeme.first c more).rest.length < more.length + 1 :=
        Lexeme.first_rest_length c more
      have visible : (Lexeme.first c more).meaning ≠ .space → position' = position := fun visible =>
        same.eq fun feed => visible (by rw [feed]; rfl)
      rw [← advanced] at place
      rw [kept, run.eq_2, run.eq_2, image.meaning, image.rest]
      cases meaning : (Lexeme.first c more).meaning with
      | space => exact run_lf _ collected place
      | token kind =>
        obtain rfl := visible (by simp [meaning])
        have further := run_lf _ (⟨kind, String.ofList (Lexeme.first c more).text, position'⟩ ::
          collected) place
        rwa [List.map_cons, mapLf_token, ← image.text kind meaning] at further
      | flaw flaw =>
        obtain rfl := visible (by simp [meaning])
        rfl
termination_by text.length
decreasing_by all_goals subst_vars; simp only [List.length_cons]; omega

theorem scan_lf (source : String) :
    scan (lfText source) = (scan source).map (List.map (Token.map lfText id)) := by
  have run := Scan.run_lf source.toList [] (.inl rfl : Position.SameBefore _ .start .start)
  rw [scan, scan, Scan.ofSource, Scan.ofSource, lfText, String.toList_ofList]
  exact run

end YalSyntax
