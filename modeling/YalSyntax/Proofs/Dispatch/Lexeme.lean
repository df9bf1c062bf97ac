import YalSyntax.Proofs.Dispatch.Step
import YalSyntax.Proofs.Lexical.Lexer

namespace YalSyntax

namespace Lexer

/-- What is read from a lexer when a lexeme stands there. -/
def turnOf (lexer : Lexer) (lexeme : Lexeme) : Turn :=
  let later := lexer.mark.forward lexeme.text
  match lexeme.meaning with
  | .space => .goes .start later
  | .token kind => .goes .start (later.push kind (String.ofList lexeme.text))
  | .flaw flaw => .fails (flaw.report lexer.position) later

variable {lexer : Lexer} {front text more : List Char}

theorem taken_class (p : Char → Bool) (text : List Char) :
    taken (fun c _ => p c) text = text.takeWhile p := by
  induction text with
  | nil => rfl
  | cons c text further =>
    rw [taken, List.takeWhile_cons, further]

theorem rest_first (left : lexer.rest = front ++ text) : (lexer.mark.forward front).rest = text :=
  rest_forward (show lexer.mark.rest = _ from left)

theorem current?_first (left : lexer.rest = front ++ text) :
    (lexer.mark.forward front).current? = text.head? := by
  rw [current?_eq, rest_first left]

theorem advance_first {c : Char} (left : lexer.rest = front ++ c :: text) :
    (lexer.mark.forward front).advance = lexer.mark.forward (front ++ [c]) := by
  rw [advance_of_cons (rest_first left), forward_forward]

theorem skipWhile_first (p : Char → Bool) (left : lexer.rest = front ++ text) :
    (lexer.mark.forward front).skipWhile (fun c _ => p c) =
      ((text.takeWhile p).length, lexer.mark.forward (front ++ text.takeWhile p)) := by
  rw [skipWhile_eq, rest_first left, taken_class, forward_forward]

theorem cut_first (inside : Inside lexer) (left : lexer.rest = front ++ text)
    (use : String → Turn) : (lexer.mark.forward front).cut use = use (String.ofList front) := by
  have within := inside.leads_front left
  have same : (lexer.source.drop lexer.cursor).take (lexer.cursor + front.length - lexer.cursor) =
      front := by
    change lexer.rest.take _ = front
    rw [left, Nat.add_sub_cancel_left, List.take_left]
  rw [cut, within.inside.lexeme?_eq]
  exact congrArg (fun text => use (String.ofList text)) same

theorem skipNumber_first (base : Base) (left : lexer.rest = front ++ text) :
    (lexer.mark.forward front).skipNumber base =
      ((text.takeWhile base.isDigit).length,
        lexer.mark.forward (front ++ (Lexeme.digits base text).1)) := by
  have whole := List.takeWhile_append_dropWhile (p := base.isDigit) (l := text)
  unfold skipNumber Lexeme.digits
  rw [skipWhile_first base.isDigit left]
  generalize text.takeWhile base.isDigit = digits at whole
  have left' : lexer.rest = (front ++ digits) ++ text.dropWhile base.isDigit := by
    rw [List.append_assoc, whole, left]
  dsimp only
  rw [current?_first left']
  split
  · rename_i point
    obtain ⟨rest, behind⟩ := List.head?_eq_some_iff.mp point
    rw [behind] at left' ⊢
    have left'' := left'.trans (List.append_cons _ '.' rest)
    rw [advance_first left', skipWhile_first base.isDigit left'']
    simp only [List.append_assoc, List.singleton_append]
  · rename_i noPoint
    split
    · rename_i behind
      rw [behind] at noPoint
      exact absurd rfl noPoint
    · rfl

theorem emit_first (inside : Inside lexer) (left : lexer.rest = front ++ text) (kind : Token.Kind)
    (rest : List Char) :
    (lexer.mark.forward front).emit kind .start = lexer.turnOf ⟨.token kind, front, rest⟩ :=
  cut_first inside left _

theorem readQuoted_eq (inside : Inside lexer) (left : lexer.rest = ['"'] ++ text) :
    (lexer.mark.forward ['"']).readQuoted = lexer.turnOf (Lexeme.quoted text) := by
  have whole := List.takeWhile_append_dropWhile (p := (· ≠ '"')) (l := text)
  have behind : lexer.rest =
      (['"'] ++ text.takeWhile (· ≠ '"')) ++ text.dropWhile (· ≠ '"') := by
    rw [List.append_assoc, whole, left]
  unfold readQuoted Lexeme.quoted
  rw [skipWhile_first (· ≠ '"') left]
  dsimp only
  rw [current?_first behind]
  split
  · rename_i none
    rw [List.head?_eq_none_iff] at none
    rw [none]
    rfl
  · rename_i quote found
    obtain ⟨rest, last⟩ := List.head?_eq_some_iff.mp found
    rw [last] at behind ⊢
    have closed := behind.trans (List.append_cons _ quote rest)
    rw [advance_first behind]
    exact emit_first inside closed .quoted rest

theorem readDecimal_eq {c : Char} (inside : Inside lexer) (left : lexer.rest = [c] ++ text) :
    (lexer.mark.forward [c]).readDecimal = lexer.turnOf (Lexeme.decimal c text) := by
  have behind : lexer.rest = ([c] ++ (Lexeme.digits .decimal text).1) ++
      (Lexeme.digits .decimal text).2 := by
    rw [List.append_assoc, Lexeme.digits_append, left]
  unfold readDecimal
  rw [skipNumber_first .decimal left]
  exact emit_first inside behind _ _

theorem readWord_eq {c : Char} (inside : Inside lexer) (left : lexer.rest = [c] ++ text) :
    (lexer.mark.forward [c]).readWord = lexer.turnOf (Lexeme.word c text) := by
  have behind : lexer.rest = ([c] ++ text.takeWhile isWordChar) ++ text.dropWhile isWordChar := by
    rw [List.append_assoc, List.takeWhile_append_dropWhile, left]
  unfold readWord
  rw [skipWhile_first isWordChar left]
  exact cut_first inside behind _

theorem readDigits_eq (base : Base) (marked : Bool) (inside : Inside lexer)
    (left : lexer.rest = front ++ text) : (lexer.mark.forward front).readDigits base marked =
      lexer.turnOf (Lexeme.basedNumber base front
        (marked && (text.takeWhile base.isDigit).isEmpty) text) := by
  have number := Lexeme.digits_append base text
  unfold readDigits Lexeme.basedNumber
  rw [skipNumber_first base left]
  generalize Lexeme.digits base text = digits at number
  obtain ⟨digits, rest⟩ := digits
  have left' : lexer.rest = (front ++ digits) ++ rest := by rw [left, ← number, List.append_assoc]
  have whole := List.takeWhile_append_dropWhile (p := isWordChar) (l := rest)
  have left'' : lexer.rest =
      (front ++ digits ++ rest.takeWhile isWordChar) ++ rest.dropWhile isWordChar := by
    rw [List.append_assoc, whole, left']
  dsimp only
  rw [skipWhile_first isWordChar left']
  dsimp only
  -- The counts of the loops against the texts that they took.
  have test : ((marked = true ∧ (text.takeWhile base.isDigit).length = 0) ∨
      0 < (rest.takeWhile isWordChar).length) ↔ (marked && (text.takeWhile base.isDigit).isEmpty ||
        !(rest.takeWhile isWordChar).isEmpty) = true := by
    simp [List.length_pos_iff]
  by_cases malformed : (marked = true ∧ (text.takeWhile base.isDigit).length = 0) ∨
      0 < (rest.takeWhile isWordChar).length
  · rw [if_pos malformed, if_pos (test.mp malformed)]
    exact cut_first inside left'' _
  · rw [if_neg malformed, if_neg (malformed ∘ test.mpr)]
    exact emit_first inside left'' _ _

theorem readBasedNumber_eq (inside : Inside lexer) (left : lexer.rest = ['0'] ++ text) :
    (lexer.mark.forward ['0']).readBasedNumber = lexer.turnOf (Lexeme.zero text) := by
  unfold readBasedNumber Lexeme.zero
  rw [current?_first left]
  cases text with
  | nil => exact readDigits_eq .octal false inside left
  | cons mark rest =>
    dsimp only [List.head?_cons, Option.bind_some]
    cases Base.ofMark? mark with
    | none => exact readDigits_eq .octal false inside left
    | some base =>
      have marked : lexer.rest = ['0', mark] ++ rest := left
      dsimp only
      rw [advance_first left]
      exact readDigits_eq base true inside marked

theorem skipLineComment_eq (left : lexer.rest = ['/', '/'] ++ text) :
    (lexer.mark.forward ['/', '/']).skipLineComment = lexer.turnOf (Lexeme.lineComment text) := by
  rw [skipLineComment, skipWhile_first (· ≠ '\n') left]
  rfl

theorem taken_inComment {c : Char} {rest : List Char}
    (noClose : ∀ more, c = '*' → rest = '/' :: more → False) :
    taken inComment (c :: rest) = c :: taken inComment rest := by
  apply if_pos
  simp only [inComment, Bool.not_eq_true', decide_eq_false_iff_not, List.head?_eq_some_iff]
  rintro ⟨star, more, slash⟩
  exact noClose more star slash

theorem taken_of_closed {text : List Char} {count size : Nat}
    (closed : Lexeme.commentSize? count text = some size) : ∃ rest,
      text = taken inComment text ++ '*' :: '/' :: rest ∧
        size = count + ((taken inComment text).length + 2) := by
  fun_induction Lexeme.commentSize? count text with
  | case1 count rest => exact ⟨rest, rfl, (Option.some.inj closed).symm⟩
  | case2 count c rest noClose further =>
    obtain ⟨more, same, rfl⟩ := further closed
    refine ⟨more, ?_, ?_⟩
    · rw [taken_inComment noClose, List.cons_append, ← same]
    · rw [taken_inComment noClose, List.length_cons]
      omega
  | case3 => cases closed

theorem taken_of_unclosed {text : List Char} {count : Nat}
    (unclosed : Lexeme.commentSize? count text = none) : taken inComment text = text := by
  fun_induction Lexeme.commentSize? count text with
  | case1 => cases unclosed
  | case2 count c rest noClose further => rw [taken_inComment noClose, further unclosed]
  | case3 => rfl

theorem skipBlockComment_eq (left : lexer.rest = ['/', '*'] ++ text) :
    (lexer.mark.forward ['/', '*']).skipBlockComment =
      lexer.turnOf (Lexeme.blockComment text) := by
  unfold skipBlockComment Lexeme.blockComment
  rw [skipWhile_eq, rest_first left, forward_forward]
  dsimp only
  cases closed : Lexeme.commentSize? 0 text with
  | none =>
    rw [taken_of_unclosed closed, current?_first (left.trans (List.append_nil _).symm)]
    rfl
  | some size =>
    obtain ⟨rest, same, rfl⟩ := taken_of_closed closed
    generalize taken inComment text = body at same
    subst same
    have behind := left.trans (List.append_assoc ['/', '*'] body _).symm
    have star := behind.trans (List.append_cons _ '*' _)
    have size : (body ++ '*' :: '/' :: rest).take (0 + (body.length + 2)) = body ++ ['*', '/'] := by
      rw [Nat.zero_add, List.take_length_add_append]
      rfl
    rw [current?_first behind, advance_first behind, advance_first star]
    dsimp only [List.head?_cons, turnOf]
    rw [size]
    simp only [List.append_assoc, List.cons_append, List.nil_append]

/-- The lexeme that a state reads when its first character is taken. -/
def State.lexeme (state : State) (c : Char) (text : List Char) : Lexeme :=
  match state with
  | punctuation kind => ⟨.token kind, [c], text⟩
  | whitespace => ⟨.space, [c], text⟩
  | quoted => Lexeme.quoted text
  | basedNumber => Lexeme.zero text
  | decimal => Lexeme.decimal c text
  | word => Lexeme.word c text
  | _ => Lexeme.mark c text

theorem ofChar?_of_isBlank {c : Char} (blank : isBlank c) :
    State.ofChar? c = some .whitespace := by
  simp only [isBlank, Bool.or_eq_true, decide_eq_true_eq] at blank
  rcases blank with ((rfl | rfl) | rfl) | rfl <;> rfl

theorem ofChar?_of_isWordChar {c : Char} (inside : isWordChar c) (nonzero : c ≠ '0') :
    State.ofChar? c = if Base.decimal.isDigit c then some .decimal
      else if isWordStart c then some .word else none := by
  unfold State.ofChar?
  split
  all_goals first | exact absurd inside (by decide) | exact absurd rfl nonzero | rfl

theorem mark_of_ofChar? {c : Char} {text : List Char} (unknown : Token.Kind.ofChar? c = none) :
    Lexeme.mark c text = ⟨.flaw (.illegalCharacter c), [c], text⟩ := by
  have noSlash : c ≠ '/' := by
    rintro rfl
    cases unknown
  have alone : ∀ text, Lexeme.single c text = ⟨.flaw (.illegalCharacter c), [c], text⟩ := by
    intro text
    rw [Lexeme.single, unknown]
  unfold Lexeme.mark
  split
  · exact alone []
  · rename_i d rest
    rw [if_neg (fun both => noSlash both.1), if_neg (fun both => noSlash both.1)]
    cases known : Token.Kind.ofPair? c d with
    | none => exact alone (d :: rest)
    | some kind =>
      obtain ⟨shorter, opens⟩ := Token.Kind.ofChar?_of_ofPair? known
      rw [unknown] at opens
      cases opens

/-- A character that no lexeme begins with leads to no state, and every other one to the state that
reads its lexeme. -/
theorem first_eq (c : Char) (text : List Char) : Lexeme.first c text =
    match State.ofChar? c with
    | some state => state.lexeme c text
    | none => ⟨.flaw (.illegalCharacter c), [c], text⟩ := by
  unfold Lexeme.first
  split
  · rename_i blank
    rw [ofChar?_of_isBlank blank]
    rfl
  split
  · rename_i quote
    rw [quote]
    rfl
  split
  · rename_i nought
    rw [nought]
    rfl
  split
  · rename_i nonzero digit
    rw [ofChar?_of_isWordChar (Base.isWordChar_of_isDigit digit) nonzero, if_pos digit]
    rfl
  split
  · rename_i nonzero noDigit starts
    have inside : isWordChar c := by
      simp only [isWordStart, Bool.or_eq_true] at starts
      simp only [isWordChar, Char.isAlphanum, Bool.or_eq_true]
      exact starts.imp_left .inl
    rw [ofChar?_of_isWordChar inside nonzero, if_neg noDigit, if_pos starts]
    rfl
  -- What is left are the signs, each with a state of its own, and the characters that are illegal.
  · rename_i noBlank noQuote nonzero noDigit noStart
    cases known : Token.Kind.ofChar? c with
    | some kind =>
      unfold Token.Kind.ofChar? at known
      split at known <;> cases known <;> cases text <;> rfl
    | none =>
      have unknown : State.ofChar? c = none := by
        unfold State.ofChar?
        split
        all_goals
          first
          | exact absurd known (by decide)
          | exact absurd rfl noBlank
          | exact absurd rfl noQuote
          | exact absurd rfl nonzero
          | rw [if_neg noDigit, if_neg noStart]
      rw [unknown, mark_of_ofChar? known]

end Lexer

end YalSyntax
