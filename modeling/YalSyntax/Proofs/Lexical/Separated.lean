import YalSyntax.Proofs.Lexical.LongestMatch

namespace YalSyntax

/-- What a token is, apart from where it stands. -/
def Token.spelled (token : Token) : Token.Kind × String := (token.kind, token.text)

namespace Lexical

theorem not_isWordChar_of_isBlank {c : Char} (blank : isBlank c) : ¬ isWordChar c := by
  simp only [isBlank, Bool.or_eq_true, decide_eq_true_eq] at blank
  rcases blank with ((rfl | rfl) | rfl) | rfl <;> decide

theorem Digits.no_blank {base : Base} {text : List Char} (digits : Digits base text) :
    ∀ c ∈ text, ¬ isBlank c := by
  intro c inside blank
  exact not_isWordChar_of_isBlank blank (Base.isWordChar_of_isDigit (digits c inside))

theorem Fraction.no_blank {base : Base} {text : List Char} (part : Fraction base text) :
    ∀ c ∈ text, ¬ isBlank c := by
  cases part with
  | none => simp
  | point digits =>
    intro c inside
    rcases List.mem_cons.mp inside with rfl | digit
    · decide
    · exact digits.no_blank c digit

theorem ofPair?_no_blank {c d : Char} {kind : Token.Kind}
    (known : Token.Kind.ofPair? c d = some kind) : ¬ isBlank d := by
  unfold Token.Kind.ofPair? at known
  split at known <;> first | (cases known; done) | decide

theorem Shape.no_blank {kind : Token.Kind} {c : Char} {more : List Char} {lead : Lead}
    (shape : Shape kind c more lead) (plain : lead ≠ .quote) : ∀ d ∈ more, ¬ isBlank d := by
  have number : ∀ {base : Base} {whole fraction : List Char}, Digits base whole →
      Fraction base fraction → ∀ d ∈ whole ++ fraction, ¬ isBlank d := by
    intro base whole fraction digits part d inside
    rcases List.mem_append.mp inside with digit | other
    · exact digits.no_blank d digit
    · exact part.no_blank d other
  cases lead with
  | blank => exact shape.elim
  | quote => exact absurd rfl plain
  | zero =>
    rcases shape with ⟨-, whole, fraction, digits, part, rfl⟩ |
      ⟨base, mark, whole, fraction, -, isMark, digits, -, part, rfl⟩
    · exact number digits part
    · intro d inside blank
      rcases List.mem_cons.mp inside with rfl | behind
      · exact not_isWordChar_of_isBlank blank (Base.isWordChar_of_ofMark? isMark)
      · exact number digits part d behind blank
  | digit =>
    obtain ⟨-, whole, fraction, digits, part, rfl⟩ := shape
    exact number digits part
  | letter => exact fun d inside blank => not_isWordChar_of_isBlank blank (shape.2 d inside)
  | other =>
    rcases shape with ⟨-, rfl⟩ | ⟨d, known, rfl⟩
    · simp
    · simpa using ofPair?_no_blank known

theorem Shape.longest_before_blank {kind other : Token.Kind} {c : Char} {more longer rest : List Char}
    {lead : Lead} (shape : Shape kind c more lead) (shape' : Shape other c longer lead)
    (blank : ∀ next ∈ rest.head?, isBlank next) (opens : longer <+: more ++ rest) :
    longer.length ≤ more.length := by
  by_cases quoted : lead = .quote
  · subst quoted
    obtain ⟨-, inner, plain, rfl⟩ := shape
    obtain ⟨-, inner', plain', rfl⟩ := shape'
    have shorter := quote_longest plain' (by simpa using opens)
    simpa using shorter
  · have inside : ∀ d ∈ longer, !isBlank d := by simpa using shape'.no_blank quoted
    exact length_le_of_boundary inside (by simpa using blank) opens

theorem IsLexeme.takes {kind : Token.Kind} {lexeme rest : List Char} (is : IsLexeme kind lexeme)
    (blank : ∀ next ∈ rest.head?, isBlank next) : Takes kind lexeme rest := by
  obtain ⟨c, more, rfl⟩ := List.exists_cons_of_ne_nil is.ne_nil
  refine ⟨fun opens => ?_, ?_, fun zero next ahead => ?_⟩
  · obtain rfl := head_of_opensComment opens
    have shape : Shape kind '/' more .other := is.shape
    rcases shape with ⟨-, rfl⟩ | ⟨d, known, rfl⟩
    · rcases opens with line | block
      · obtain ⟨others, same⟩ := (List.cons_prefix_cons.mp line).2
        exact absurd (blank '/' (by rw [← show _ = rest from same]; rfl)) (by decide)
      · obtain ⟨others, same⟩ := (List.cons_prefix_cons.mp block).2
        exact absurd (blank '*' (by rw [← show _ = rest from same]; rfl)) (by decide)
    · rcases opens with line | block
      · obtain ⟨rfl, -⟩ := List.cons_prefix_cons.mp (List.cons_prefix_cons.mp line).2
        cases known
      · obtain ⟨rfl, -⟩ := List.cons_prefix_cons.mp (List.cons_prefix_cons.mp block).2
        cases known
  · exact .of_shape is fun other longer shape' opens =>
      is.shape.longest_before_blank shape' blank opens
  · exact not_isWordChar_of_isBlank (blank next ahead)

theorem lexes_joined (lexemes : List (Token.Kind × String))
    (are : ∀ lexeme ∈ lexemes, IsLexeme lexeme.1 lexeme.2.toList) (before : List Char) :
    ∃ tokens, tokens.map Token.spelled = lexemes ∧
      Lexes before ([' '].intercalate (lexemes.map (·.2.toList))) tokens
        (before ++ [' '].intercalate (lexemes.map (·.2.toList))) [] := by
  induction lexemes generalizing before with
  | nil => exact ⟨[], rfl, by simpa using Lexes.here⟩
  | cons lexeme others further =>
    obtain ⟨kind, text⟩ := lexeme
    have is : IsLexeme kind text.toList := are (kind, text) (by simp)
    cases others with
    | nil =>
      have takes : Takes kind text.toList [] := is.takes (by simp)
      refine ⟨[⟨kind, text, Position.behind before⟩], rfl, ?_⟩
      have lexes : Lexes before (text.toList ++ []) [⟨kind, _, Position.behind before⟩] _ [] :=
        .token takes .here
      simpa [String.ofList_toList] using lexes
    | cons next others =>
      obtain ⟨tokens, same, lexes⟩ := further (fun lexeme member => are lexeme (by simp [member]))
        (before ++ text.toList ++ [' '])
      refine ⟨⟨kind, text, Position.behind before⟩ :: tokens, by rw [List.map_cons, same]; rfl, ?_⟩
      have skips := Lexes.skip (.blank (show isBlank ' ' by decide)) lexes
      have whole := Lexes.token (is.takes (by simp [isBlank])) skips
      simpa [String.ofList_toList] using whole

end Lexical

end YalSyntax
