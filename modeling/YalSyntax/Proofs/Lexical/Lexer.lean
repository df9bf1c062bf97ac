import YalSyntax.Proofs.Lexical.Boundary

namespace YalSyntax

namespace Lexical

/-- What the scanner takes the front of a text for is what stands there. -/
def Lawful (lexeme : Lexeme) : Prop :=
  match lexeme.meaning with
  | .space => Skips lexeme.text lexeme.rest
  | .token kind => Takes kind lexeme.text lexeme.rest
  | .flaw flaw => Fails flaw lexeme.text lexeme.rest

theorem head_of_opensComment {c : Char} {text : List Char} (opens : OpensComment (c :: text)) :
    c = '/' := by
  rcases opens with line | block
  · exact (List.cons_prefix_cons.mp line).1.symm
  · exact (List.cons_prefix_cons.mp block).1.symm

theorem Longest.of_shape {kind : Token.Kind} {c : Char} {more rest : List Char}
    (is : IsLexeme kind (c :: more))
    (longest : ∀ other longer, Shape other c longer (Lead.of c) → longer <+: more ++ rest →
      longer.length ≤ more.length) : Longest kind (c :: more) rest := by
  refine ⟨is, fun other longer isOther opens => ?_⟩
  cases longer with
  | nil => simp
  | cons d longer =>
    obtain ⟨rfl, behind⟩ := List.cons_prefix_cons.mp opens
    have within := longest other longer isOther.shape behind
    simpa using within

theorem Takes.of_longest {kind : Token.Kind} {c : Char} {more rest : List Char}
    (noSlash : c ≠ '/') (nonzero : c ≠ '0') (longest : Longest kind (c :: more) rest) :
    Takes kind (c :: more) rest := by
  refine ⟨fun opens => noSlash (head_of_opensComment opens), longest, fun zero => ?_⟩
  exact absurd (Option.some.inj zero) nonzero

theorem quoted_lawful (text : List Char) : Lawful (Lexeme.quoted text) := by
  have whole := List.takeWhile_append_dropWhile (p := (· ≠ '"')) (l := text)
  have boundary := takeWhile_boundary (p := (· ≠ '"')) text
  have plain : '"' ∉ text.takeWhile (· ≠ '"') := by
    intro member
    have different := inside_takeWhile (p := (· ≠ '"')) '"' member
    simp at different
  unfold Lexeme.quoted
  split
  · exact .unterminatedString plain
  · rename_i quote rest left
    rw [left] at boundary whole
    obtain rfl : quote = '"' := by simpa using boundary quote rfl
    refine .of_longest (by decide) (by decide) (.of_shape (.quoted plain) ?_)
    intro other longer shape opens
    obtain ⟨-, inner, plain', rfl⟩ := shape
    have shorter := quote_longest plain' (by simpa using opens)
    simpa using shorter

theorem decimal_lawful {c : Char} (text : List Char) (digit : Base.decimal.isDigit c)
    (nonzero : c ≠ '0') : Lawful (Lexeme.decimal c text) := by
  obtain ⟨fraction, rest, part, ends, same, computed⟩ := digits_split .decimal text
  have lead := Lead.of_digit digit nonzero
  simp only [Lexeme.decimal, computed]
  refine .of_longest ?_ nonzero (.of_shape (.decimal digit nonzero inside_takeWhile part) ?_)
  · intro same
    subst same
    exact absurd digit (by decide)
  · intro other longer shape opens
    rw [lead] at shape
    obtain ⟨-, whole, fraction', digits, part', rfl⟩ := shape
    exact number_longest digits part' inside_takeWhile part ends opens

theorem word_lawful {c : Char} (text : List Char) (starts : isWordStart c) :
    Lawful (Lexeme.word c text) := by
  have lead := Lead.of_letter starts
  refine .of_longest ?_ ?_ (.of_shape (.word starts inside_takeWhile) ?_)
  · intro same
    subst same
    exact absurd starts (by decide)
  · intro same
    subst same
    exact absurd starts (by decide)
  · intro other longer shape opens
    rw [lead] at shape
    exact length_le_of_boundary shape.2 (takeWhile_boundary text) opens

section Zero

variable {base : Base} {whole fraction rest : List Char}

theorem octal_longest (noMark : ∀ mark ∈ (whole ++ fraction ++ rest).head?, Base.ofMark? mark = none)
    (digits : Digits .octal whole) (part : Fraction .octal fraction)
    (ends : Ends .octal fraction rest) : Longest .octalNumber ('0' :: (whole ++ fraction)) rest := by
  refine .of_shape (.octal digits part) ?_
  intro other longer shape opens
  rcases shape with ⟨-, whole', fraction', digits', part', rfl⟩ |
    ⟨base', mark, whole', fraction', -, isMark, -, -, -, rfl⟩
  · exact number_longest digits' part' digits part ends opens
  · obtain ⟨others, same⟩ := opens
    rw [← same] at noMark
    rw [noMark mark rfl] at isMark
    cases isMark

theorem octal_numberLike_longest {excess : List Char}
    (noMark : ∀ mark ∈ (whole ++ fraction ++ (excess ++ rest)).head?, Base.ofMark? mark = none)
    (digits : Digits .octal whole) (part : Fraction .octal fraction)
    (ends : Ends .octal fraction (excess ++ rest)) (boundary : ∀ next ∈ rest.head?, ¬ isWordChar next)
    (longer : List Char) (like : NumberLike longer)
    (opens : longer <+: '0' :: (whole ++ fraction ++ excess) ++ rest) :
    longer.length ≤ ('0' :: (whole ++ fraction ++ excess)).length := by
  cases like with
  | octal digits' part' continues' =>
    have behind := (List.cons_prefix_cons.mp opens).2
    have within := numberLike_longest digits' part' continues' digits part ends boundary behind
    simpa using within
  | marked isMark =>
    obtain ⟨others, same⟩ := (List.cons_prefix_cons.mp opens).2
    rw [← List.append_assoc, ← show _ = whole ++ fraction ++ excess ++ rest from same] at noMark
    rw [noMark _ rfl] at isMark
    cases isMark

theorem marked_longest {mark : Char} (isMark : Base.ofMark? mark = some base)
    (some : whole ≠ []) (digits : Digits base whole) (part : Fraction base fraction)
    (ends : Ends base fraction rest) :
    Longest base.kind ('0' :: mark :: (whole ++ fraction)) rest := by
  refine .of_shape (.marked isMark digits some part) ?_
  intro other longer shape opens
  rcases shape with ⟨-, whole', fraction', digits', part', rfl⟩ |
    ⟨base', mark', whole', fraction', -, isMark', digits', -, part', rfl⟩
  · obtain ⟨others, continued⟩ := opens
    obtain ⟨rfl, rfl⟩ := not_octal_of_mark isMark digits' part' continued
    simp
  · obtain ⟨rfl, behind⟩ := List.cons_prefix_cons.mp opens
    obtain rfl := Option.some.inj (isMark.symm.trans isMark')
    have within := number_longest digits' part' digits part ends behind
    simpa using within

theorem zero_longest {mark : Char} (isMark : Base.ofMark? mark = some base)
    (noDigit : ∀ next ∈ rest.head?, ¬ base.isDigit next) :
    Longest .octalNumber ['0'] (mark :: rest) := by
  refine .of_shape (@IsLexeme.octal [] [] (by simp [Digits]) .none) ?_
  intro other longer shape opens
  rcases shape with ⟨-, whole', fraction', digits', part', rfl⟩ |
    ⟨base', mark', whole', fraction', -, isMark', digits', some, -, rfl⟩
  · obtain ⟨others, continued⟩ := opens
    obtain ⟨rfl, rfl⟩ := not_octal_of_mark isMark digits' part' continued
    simp
  · obtain ⟨rfl, behind⟩ := List.cons_prefix_cons.mp opens
    obtain rfl := Option.some.inj (isMark.symm.trans isMark')
    cases whole' with
    | nil => exact absurd rfl some
    | cons digit whole' =>
      obtain ⟨others, rfl⟩ := behind
      exact absurd (digits' digit (by simp)) (noDigit digit rfl)

theorem marked_numberLike_longest {mark : Char} {excess : List Char}
    (isMark : Base.ofMark? mark = some base) (digits : Digits base whole)
    (part : Fraction base fraction) (ends : Ends base fraction (excess ++ rest))
    (boundary : ∀ next ∈ rest.head?, ¬ isWordChar next) (longer : List Char)
    (like : NumberLike longer)
    (opens : longer <+: '0' :: mark :: (whole ++ fraction ++ excess) ++ rest) :
    longer.length ≤ ('0' :: mark :: (whole ++ fraction ++ excess)).length := by
  cases like with
  | @octal whole' fraction' excess' digits' part' continues' =>
    have behind := (List.cons_prefix_cons.mp opens).2
    obtain ⟨others, continued⟩ := behind
    obtain ⟨rfl, rfl⟩ :=
      not_octal_of_mark isMark digits' part' ((List.append_assoc _ _ _).symm.trans continued)
    cases excess' with
    | nil => simp
    | cons c excess' =>
      obtain ⟨rfl, more⟩ := List.cons.inj continued
      have within := excess_within (q := isWordChar) (by decide)
        (fun d inside => continues' d (List.mem_cons_of_mem _ inside)) part boundary ⟨others, more⟩
      simpa using within
  | marked isMark' digits' part' continues' =>
    obtain ⟨rfl, behind⟩ := List.cons_prefix_cons.mp (List.cons_prefix_cons.mp opens).2
    obtain rfl := Option.some.inj (isMark.symm.trans isMark')
    have within := numberLike_longest digits' part' continues' digits part ends boundary behind
    simpa using within

theorem octal_lawful {text : List Char}
    (noMark : ∀ mark ∈ text.head?, Base.ofMark? mark = none) :
    Lawful (Lexeme.basedNumber .octal ['0'] false text) := by
  obtain ⟨fraction, rest, part, ends, same, computed⟩ := digits_split .octal text
  have digits : Digits .octal (text.takeWhile Base.octal.isDigit) := inside_takeWhile
  generalize text.takeWhile Base.octal.isDigit = whole at same computed digits
  subst same
  have boundary := takeWhile_boundary (p := isWordChar) rest
  have continues : ∀ c ∈ rest.takeWhile isWordChar, isWordChar c := inside_takeWhile
  have split := List.takeWhile_append_dropWhile (p := isWordChar) (l := rest)
  have longest := octal_longest noMark digits part ends
  change Longest Base.octal.kind _ _ at longest
  simp only [Lexeme.basedNumber, computed, Bool.false_or]
  generalize rest.dropWhile isWordChar = left at boundary split
  generalize rest.takeWhile isWordChar = excess at continues split
  subst split
  cases excess with
  | nil =>
    refine ⟨fun opens => absurd (head_of_opensComment opens) (by decide), ?_, fun _ => boundary⟩
    simpa using longest
  | cons next excess =>
    have malformed := octal_numberLike_longest noMark digits part ends boundary
    have like := NumberLike.octal digits part continues
    exact .malformedNumber (by simp) rfl longest (continues next (by simp)) like malformed

theorem marked_lawful {base : Base} {mark : Char} (isMark : Base.ofMark? mark = some base)
    (text : List Char) :
    Lawful (Lexeme.basedNumber base ['0', mark] (text.takeWhile base.isDigit).isEmpty text) := by
  obtain ⟨fraction, rest, part, ends, same, computed⟩ := digits_split base text
  have digits : Digits base (text.takeWhile base.isDigit) := inside_takeWhile
  have noDigit : text.takeWhile base.isDigit = [] → ∀ next ∈ text.head?, ¬ base.isDigit next := by
    intro none
    have kept := List.takeWhile_append_dropWhile (p := base.isDigit) (l := text)
    rw [none, List.nil_append] at kept
    exact kept ▸ takeWhile_boundary text
  generalize text.takeWhile base.isDigit = whole at same computed digits noDigit
  subst same
  have boundary := takeWhile_boundary (p := isWordChar) rest
  have continues : ∀ c ∈ rest.takeWhile isWordChar, isWordChar c := inside_takeWhile
  have split := List.takeWhile_append_dropWhile (p := isWordChar) (l := rest)
  simp only [Lexeme.basedNumber, computed]
  generalize rest.dropWhile isWordChar = left at boundary split
  generalize rest.takeWhile isWordChar = excess at continues split
  subst split
  have malformed := marked_numberLike_longest isMark digits part ends boundary
  have like := NumberLike.marked isMark digits part continues
  cases whole with
  | nil =>
    have longest := zero_longest isMark (noDigit rfl)
    exact .malformedNumber (by simp) rfl longest (Base.isWordChar_of_ofMark? isMark) like malformed
  | cons digit whole =>
    have longest := marked_longest isMark (by simp) digits part ends
    cases excess with
    | nil =>
      refine ⟨fun opens => absurd (head_of_opensComment opens) (by decide), ?_, fun _ => boundary⟩
      simpa using longest
    | cons next excess =>
      exact .malformedNumber (by simp) rfl longest (continues next (by simp)) like malformed

theorem zero_lawful (text : List Char) : Lawful (Lexeme.zero text) := by
  unfold Lexeme.zero
  split
  · exact octal_lawful (by simp)
  · split
    · rename_i mark rest noMark
      exact octal_lawful (by simpa using noMark)
    · rename_i mark rest _ base isMark
      exact marked_lawful isMark rest

end Zero

theorem lineComment_lawful (text : List Char) : Lawful (Lexeme.lineComment text) := by
  have boundary := takeWhile_boundary (p := (· ≠ '\n')) text
  refine Skips.line (fun member => ?_) fun next ahead => ?_
  · have different := inside_takeWhile (p := (· ≠ '\n')) '\n' member
    simp at different
  · simpa using boundary next ahead

theorem commentSize?_eq_some {text : List Char} {count size : Nat}
    (closed : Lexeme.commentSize? count text = some size) :
    ∃ body rest, text = body ++ ['*', '/'] ++ rest ∧ size = count + (body.length + 2) ∧
      ¬ ['*', '/'] <:+: body ++ ['*'] := by
  fun_induction Lexeme.commentSize? count text with
  | case1 count rest =>
    refine ⟨[], rest, rfl, (Option.some.inj closed).symm, fun inside => ?_⟩
    exact absurd inside.length_le (by simp)
  | case2 count c rest noClose further =>
    obtain ⟨body, left, rfl, rfl, first⟩ := further closed
    refine ⟨c :: body, left, rfl, by simp only [List.length_cons]; omega, fun inside => ?_⟩
    rcases List.infix_cons_iff.mp inside with opens | later
    · obtain ⟨rfl, next⟩ := List.cons_prefix_cons.mp opens
      cases body with
      | nil => exact absurd (List.cons_prefix_cons.mp next).1 (by decide)
      | cons d body =>
        obtain ⟨rfl, -⟩ := List.cons_prefix_cons.mp next
        exact noClose _ rfl rfl
    · exact first later
  | case3 => cases closed

theorem commentSize?_eq_none {text : List Char} {count : Nat}
    (unclosed : Lexeme.commentSize? count text = none) : ¬ ['*', '/'] <:+: text := by
  fun_induction Lexeme.commentSize? count text with
  | case1 => cases unclosed
  | case2 count c rest noClose further =>
    intro inside
    rcases List.infix_cons_iff.mp inside with opens | later
    · obtain ⟨rfl, more, rfl⟩ := List.cons_prefix_cons.mp opens
      exact noClose _ rfl rfl
    · exact further unclosed later
  | case3 => exact fun inside => absurd inside.length_le (by simp)

theorem blockComment_lawful (text : List Char) : Lawful (Lexeme.blockComment text) := by
  unfold Lexeme.blockComment
  split
  · rename_i unclosed
    exact .unterminatedComment (commentSize?_eq_none unclosed)
  · rename_i size closed
    obtain ⟨body, rest, rfl, rfl, first⟩ := commentSize?_eq_some closed
    have size : 0 + (body.length + 2) = (body ++ ['*', '/']).length := by simp
    simp only [size, List.take_left, List.drop_left]
    exact .block first

theorem single_lawful {c : Char} {text : List Char} (lead : Lead.of c = .other)
    (noBlank : isBlank c = false) (noQuote : c ≠ '"') (plain : ¬ OpensComment (c :: text))
    (noPair : ∀ d ∈ text.head?, Token.Kind.ofPair? c d = none) : Lawful (Lexeme.single c text) := by
  have noLonger : ∀ other longer, Shape other c longer (Lead.of c) → longer <+: text →
      Token.Kind.ofChar? c = some other ∧ longer = [] := by
    intro other longer shape opens
    rw [lead] at shape
    rcases shape with ⟨known, rfl⟩ | ⟨d, known, rfl⟩
    · exact ⟨known, rfl⟩
    · obtain ⟨others, rfl⟩ := opens
      rw [noPair d rfl] at known
      cases known
  unfold Lexeme.single
  split
  · rename_i kind known
    have is : IsLexeme kind [c] := by
      have spelled := IsLexeme.sign (Token.Kind.sign?_of_ofChar? known)
      rwa [String.toList_ofList] at spelled
    refine ⟨plain, .of_shape is fun other longer shape opens => ?_, fun zero => ?_⟩
    · obtain ⟨-, rfl⟩ := noLonger other longer shape opens
      exact Nat.le_refl 0
    · obtain rfl := Option.some.inj zero
      exact absurd lead (by decide)
  · rename_i unknown
    refine Fails.illegalCharacter noBlank noQuote fun other lexeme is opens => ?_
    cases lexeme with
    | nil => exact is.ne_nil rfl
    | cons d longer =>
      obtain ⟨rfl, behind⟩ := List.cons_prefix_cons.mp opens
      obtain ⟨known, -⟩ := noLonger other longer is.shape behind
      exact absurd known (by simp [unknown])

theorem pair_lawful {c d : Char} {kind : Token.Kind} {text : List Char}
    (known : Token.Kind.ofPair? c d = some kind) (plain : ¬ OpensComment (c :: d :: text)) :
    Takes kind [c, d] text := by
  obtain ⟨shorter, opens⟩ := Token.Kind.ofChar?_of_ofPair? known
  have lead := Token.Kind.lead_of_ofChar? opens
  have is : IsLexeme kind [c, d] := by
    have spelled := IsLexeme.sign (Token.Kind.sign?_of_ofPair? known)
    rwa [String.toList_ofList] at spelled
  refine ⟨plain, .of_shape is fun other longer shape behind => ?_, fun zero => ?_⟩
  · rw [lead] at shape
    rcases shape with ⟨-, rfl⟩ | ⟨e, -, rfl⟩ <;> simp
  · obtain rfl := Option.some.inj zero
    exact absurd lead (by decide)

theorem mark_lawful {c : Char} (text : List Char) (lead : Lead.of c = .other)
    (noBlank : isBlank c = false) (noQuote : c ≠ '"') : Lawful (Lexeme.mark c text) := by
  unfold Lexeme.mark
  split
  · refine single_lawful lead noBlank noQuote (fun opens => ?_) (by simp)
    rcases opens with line | block
    · exact absurd line.length_le (by simp)
    · exact absurd block.length_le (by simp)
  · rename_i d rest
    split
    · exact lineComment_lawful rest
    · split
      · exact blockComment_lawful rest
      · rename_i noLine noBlock
        have plain : ¬ OpensComment (c :: d :: rest) := by
          intro opens
          rcases opens with line | block
          · obtain ⟨rfl, behind⟩ := List.cons_prefix_cons.mp line
            exact noLine ⟨rfl, (List.cons_prefix_cons.mp behind).1.symm⟩
          · obtain ⟨rfl, behind⟩ := List.cons_prefix_cons.mp block
            exact noBlock ⟨rfl, (List.cons_prefix_cons.mp behind).1.symm⟩
        split
        · rename_i kind known
          exact pair_lawful known plain
        · rename_i noPair
          exact single_lawful lead noBlank noQuote plain (by simpa using noPair)

theorem first_lawful (c : Char) (text : List Char) : Lawful (Lexeme.first c text) := by
  unfold Lexeme.first
  split
  · rename_i blank
    exact Skips.blank blank
  split
  · exact quoted_lawful text
  split
  · exact zero_lawful text
  split
  · rename_i nonzero digit
    exact decimal_lawful text digit nonzero
  split
  · rename_i starts
    exact word_lawful text starts
  · rename_i noBlank noQuote nonzero noDigit noLetter
    have lead : Lead.of c = .other := by simp [Lead.of, noBlank, noQuote, nonzero, noDigit, noLetter]
    exact mark_lawful text lead (by simpa using noBlank) noQuote

example : Lexeme.first '<' ['-', '1'] = ⟨.token .leftArrow, ['<', '-'], ['1']⟩ := by
  decide

end Lexical

end YalSyntax
