import YalSyntax.Proofs.Lexical

namespace YalSyntax

namespace Base

theorem isWordChar_of_isDigit {base : Base} {c : Char} (digit : base.isDigit c) :
    isWordChar c := by
  have inHex : hex.isDigit c := by
    cases base
    all_goals
      simp only [isDigit, Bool.or_eq_true, Bool.and_eq_true, decide_eq_true_eq, Char.le_def,
        UInt32.le_iff_toNat_le, Char.reduceVal, UInt32.reduceToNat] at digit ⊢
      omega
  simp only [isDigit, Bool.or_eq_true, Bool.and_eq_true, decide_eq_true_eq, Char.le_def,
    UInt32.le_iff_toNat_le, Char.reduceVal, UInt32.reduceToNat] at inHex
  unfold isWordChar Char.isAlphanum Char.isAlpha Char.isUpper Char.isLower Char.isDigit
  simp only [UInt32.le_iff_toNat_le, ge_iff_le, Bool.or_eq_true, Bool.and_eq_true,
    decide_eq_true_eq, Char.reduceVal, UInt32.reduceToNat]
  omega

theorem isWordChar_of_ofMark? {base : Base} {c : Char} (isMark : Base.ofMark? c = some base) :
    isWordChar c := by
  unfold ofMark? at isMark
  split at isMark <;> first | decide | cases isMark

theorem ofMark?_not_octal {base : Base} {c : Char} (isMark : Base.ofMark? c = some base) :
    ¬ octal.isDigit c ∧ c ≠ '.' := by
  unfold ofMark? at isMark
  split at isMark <;> first | decide | cases isMark

theorem not_isDigit_point (base : Base) : ¬ base.isDigit '.' := by
  cases base <;> decide

end Base

inductive Lead
  | blank | quote | zero | digit | letter | other
deriving DecidableEq

namespace Lead

def of (c : Char) : Lead :=
  if isBlank c then blank
  else if c = '"' then quote
  else if c = '0' then zero
  else if Base.decimal.isDigit c then digit
  else if isWordStart c then letter
  else other

theorem of_digit {c : Char} (isDigit : Base.decimal.isDigit c) (nonzero : c ≠ '0') :
    of c = digit := by
  have noBlank : ¬ isBlank c := by
    intro blank
    simp only [isBlank, Bool.or_eq_true, decide_eq_true_eq] at blank
    rcases blank with ((rfl | rfl) | rfl) | rfl <;> exact absurd isDigit (by decide)
  have noQuote : c ≠ '"' := by
    intro same
    subst same
    exact absurd isDigit (by decide)
  simp [of, noBlank, noQuote, nonzero, isDigit]

theorem of_letter {c : Char} (starts : isWordStart c) : of c = letter := by
  have noBlank : ¬ isBlank c := by
    intro blank
    simp only [isBlank, Bool.or_eq_true, decide_eq_true_eq] at blank
    rcases blank with ((rfl | rfl) | rfl) | rfl <;> exact absurd starts (by decide)
  have noQuote : c ≠ '"' := by
    intro same
    subst same
    exact absurd starts (by decide)
  have noDigit : ¬ Base.decimal.isDigit c := by
    unfold isWordStart Char.isAlpha Char.isUpper Char.isLower at starts
    simp only [UInt32.le_iff_toNat_le, ge_iff_le, Bool.or_eq_true, Bool.and_eq_true,
      decide_eq_true_eq, Char.reduceVal, UInt32.reduceToNat] at starts
    simp only [Base.isDigit, Bool.and_eq_true, decide_eq_true_eq, Char.le_def,
      UInt32.le_iff_toNat_le, Char.reduceVal, UInt32.reduceToNat]
    rcases starts with letter | rfl
    · omega
    · decide
  have nonzero : c ≠ '0' := by
    intro same
    subst same
    exact absurd starts (by decide)
  simp [of, noBlank, noQuote, nonzero, noDigit, starts]

end Lead

namespace Token.Kind

theorem sign?_chars {kind : Kind} {text : String} (spelled : kind.sign? = some text) :
    (∃ c, text.toList = [c] ∧ ofChar? c = some kind) ∨
      ∃ c d, text.toList = [c, d] ∧ ofPair? c d = some kind := by
  cases kind <;>
    first
    | (cases spelled; done)
    | (cases spelled; exact .inl ⟨_, String.toList_ofList, rfl⟩)
    | (cases spelled; exact .inr ⟨_, _, String.toList_ofList, rfl⟩)

theorem sign?_of_ofChar? {c : Char} {kind : Kind} (known : ofChar? c = some kind) :
    kind.sign? = some (String.ofList [c]) := by
  unfold ofChar? at known
  split at known <;> cases known <;> rfl

theorem sign?_of_ofPair? {c d : Char} {kind : Kind} (known : ofPair? c d = some kind) :
    kind.sign? = some (String.ofList [c, d]) := by
  unfold ofPair? at known
  split at known <;> cases known <;> rfl

theorem lead_of_ofChar? {c : Char} {kind : Kind} (known : ofChar? c = some kind) :
    Lead.of c = .other := by
  unfold ofChar? at known
  split at known <;> first | (cases known; done) | decide

theorem ofChar?_of_ofPair? {c d : Char} {kind : Kind} (known : ofPair? c d = some kind) :
    ∃ shorter, ofChar? c = some shorter := by
  unfold ofPair? at known
  split at known <;> first | (cases known; done) | exact ⟨_, rfl⟩

end Token.Kind

namespace Lexical

/-- What is to be said of a lexeme `c :: more` when `c` is of a class. -/
def Shape (kind : Token.Kind) (c : Char) (more : List Char) : Lead → Prop
  | .blank => False
  | .quote => kind = .quoted ∧ ∃ inner, '"' ∉ inner ∧ more = inner ++ ['"']
  | .zero =>
    (kind = .octalNumber ∧ ∃ whole fraction, Digits .octal whole ∧ Fraction .octal fraction ∧
      more = whole ++ fraction) ∨
    ∃ base mark whole fraction, kind = base.kind ∧ Base.ofMark? mark = some base ∧
      Digits base whole ∧ whole ≠ [] ∧ Fraction base fraction ∧ more = mark :: (whole ++ fraction)
  | .digit =>
    kind = .decimalNumber ∧ ∃ whole fraction, Digits .decimal whole ∧ Fraction .decimal fraction ∧
      more = whole ++ fraction
  | .letter => kind = .ofWord (String.ofList (c :: more)) ∧ ∀ d ∈ more, isWordChar d
  | .other =>
    (Token.Kind.ofChar? c = some kind ∧ more = []) ∨
    ∃ d, Token.Kind.ofPair? c d = some kind ∧ more = [d]

theorem IsLexeme.ne_nil {kind : Token.Kind} {text : List Char} (is : IsLexeme kind text) :
    text ≠ [] := by
  cases is with
  | sign spelled =>
    rcases Token.Kind.sign?_chars spelled with ⟨c, equal, -⟩ | ⟨c, d, equal, -⟩ <;> simp [equal]
  | quoted | decimal | octal | marked | word => simp

theorem IsLexeme.shape {kind : Token.Kind} {c : Char} {more : List Char}
    (is : IsLexeme kind (c :: more)) : Shape kind c more (Lead.of c) := by
  generalize same : c :: more = text at is
  cases is with
  | sign spelled =>
    rcases Token.Kind.sign?_chars spelled with ⟨d, equal, known⟩ | ⟨d, e, equal, known⟩
    · obtain ⟨rfl, rfl⟩ := List.cons.inj (same.trans equal)
      rw [Token.Kind.lead_of_ofChar? known]
      exact .inl ⟨known, rfl⟩
    · obtain ⟨rfl, rfl⟩ := List.cons.inj (same.trans equal)
      obtain ⟨shorter, opens⟩ := Token.Kind.ofChar?_of_ofPair? known
      rw [Token.Kind.lead_of_ofChar? opens]
      exact .inr ⟨e, known, rfl⟩
  | quoted plain =>
    obtain ⟨rfl, rfl⟩ := List.cons.inj same
    exact ⟨rfl, _, plain, rfl⟩
  | decimal digit nonzero digits part =>
    obtain ⟨rfl, rfl⟩ := List.cons.inj same
    rw [Lead.of_digit digit nonzero]
    exact ⟨rfl, _, _, digits, part, rfl⟩
  | octal digits part =>
    obtain ⟨rfl, rfl⟩ := List.cons.inj same
    exact .inl ⟨rfl, _, _, digits, part, rfl⟩
  | marked isMark digits some part =>
    obtain ⟨rfl, rfl⟩ := List.cons.inj same
    exact .inr ⟨_, _, _, _, rfl, isMark, digits, some, part, rfl⟩
  | word starts continues =>
    obtain ⟨rfl, rfl⟩ := List.cons.inj same
    rw [Lead.of_letter starts]
    exact ⟨rfl, continues⟩

theorem not_octal_of_mark {base : Base} {mark : Char} {whole fraction more rest : List Char}
    (isMark : Base.ofMark? mark = some base) (digits : Digits .octal whole)
    (part : Fraction .octal fraction) (same : whole ++ fraction ++ rest = mark :: more) :
    whole = [] ∧ fraction = [] := by
  obtain ⟨noDigit, noPoint⟩ := Base.ofMark?_not_octal isMark
  cases whole with
  | cons c whole =>
    obtain ⟨rfl, -⟩ := List.cons.inj same
    exact absurd (digits c (by simp)) noDigit
  | nil =>
    cases part with
    | none => exact ⟨rfl, rfl⟩
    | point =>
      obtain ⟨rfl, -⟩ := List.cons.inj same
      exact absurd rfl noPoint

/-- A text is a lexeme of one kind at most. -/
theorem IsLexeme.kind_unique {kind other : Token.Kind} {text : List Char}
    (is : IsLexeme kind text) (isOther : IsLexeme other text) : kind = other := by
  cases text with
  | nil => exact absurd rfl is.ne_nil
  | cons c more =>
    have shape := is.shape
    have otherShape := isOther.shape
    generalize Lead.of c = lead at shape otherShape
    cases lead with
    | blank => exact shape.elim
    | quote => exact shape.1.trans otherShape.1.symm
    | digit => exact shape.1.trans otherShape.1.symm
    | letter => exact shape.1.trans otherShape.1.symm
    | zero =>
      rcases shape with ⟨octal, whole, fraction, digits, part, rfl⟩ |
          ⟨base, mark, whole, fraction, based, isMark, digits, some, part, rfl⟩ <;>
        rcases otherShape with ⟨octal', whole', fraction', digits', part', same⟩ |
          ⟨base', mark', whole', fraction', based', isMark', digits', some', part', same⟩
      · exact octal.trans octal'.symm
      · obtain ⟨rfl, rfl⟩ := not_octal_of_mark isMark' digits part
          ((List.append_nil _).trans same)
        cases same
      · obtain ⟨rfl, rfl⟩ := not_octal_of_mark isMark digits' part'
          ((List.append_nil _).trans same.symm)
        cases same
      · obtain ⟨rfl, -⟩ := List.cons.inj same
        obtain rfl := Option.some.inj (isMark.symm.trans isMark')
        exact based.trans based'.symm
    | other =>
      rcases shape with ⟨known, rfl⟩ | ⟨d, known, rfl⟩ <;>
        rcases otherShape with ⟨known', same⟩ | ⟨d', known', same⟩
      · exact Option.some.inj (known.symm.trans known')
      · cases same
      · cases same
      · obtain ⟨rfl, -⟩ := List.cons.inj same
        exact Option.some.inj (known.symm.trans known')

end Lexical

end YalSyntax
