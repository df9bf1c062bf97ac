import YalSyntax.Proofs.Lexical.LongestMatch

namespace YalSyntax

namespace Position

instance : LT Position where
  lt first second :=
    first.line < second.line ∨ first.line = second.line ∧ first.column < second.column

instance : LE Position where
  le first second := first = second ∨ first < second

variable {first second third : Position}

theorem lt_iff : first < second ↔
    first.line < second.line ∨ first.line = second.line ∧ first.column < second.column := Iff.rfl

theorem lt_trans (before : first < second) (behind : second < third) : first < third := by
  rw [lt_iff] at *
  omega

theorem lt_of_lt_of_le (before : first < second) (behind : second ≤ third) : first < third := by
  rcases behind with rfl | behind
  · exact before
  · exact lt_trans before behind

theorem lt_next (position : Position) (c : Char) : position < position.next c := by
  rw [lt_iff]
  unfold next
  split
  · exact .inl (Nat.lt_succ_self _)
  · exact .inr ⟨rfl, Nat.lt_succ_self _⟩

theorem lt_after (position : Position) {text : List Char} (some : text ≠ []) :
    position < position.after text := by
  induction text generalizing position with
  | nil => exact absurd rfl some
  | cons c text further =>
    rw [after_cons]
    cases text with
    | nil => exact lt_next position c
    | cons => exact lt_trans (lt_next position c) (further _ (by simp))

theorem behind_lt_append (before : List Char) {text : List Char} (some : text ≠ []) :
    behind before < behind (before ++ text) := by
  rw [← after_behind]
  exact lt_after _ some

end Position

def Ascending (tokens : List Token) : Prop := tokens.Pairwise (·.position < ·.position)

namespace Lexical

theorem Lexes.ascending {before text reached left : List Char} {tokens : List Token}
    (lexes : Lexes before text tokens reached left) :
    Ascending tokens ∧ ∀ token ∈ tokens, Position.behind before ≤ token.position := by
  induction lexes with
  | here => simp [Ascending]
  | @skip before item _ _ _ _ skips _ further =>
    have onward := Position.behind_lt_append before skips.ne_nil
    refine ⟨further.1, fun token mem => .inr ?_⟩
    exact Position.lt_of_lt_of_le onward (further.2 token mem)
  | @token before lexeme _ _ _ _ tokens takes _ further =>
    have onward := Position.behind_lt_append before takes.ne_nil
    have above : ∀ token ∈ tokens, Position.behind before < token.position := fun token mem =>
      Position.lt_of_lt_of_le onward (further.2 token mem)
    refine ⟨List.pairwise_cons.mpr ⟨above, further.1⟩, ?_⟩
    intro token mem
    rcases List.mem_cons.mp mem with rfl | mem
    · exact .inl rfl
    · exact .inr (above token mem)

end Lexical

namespace Token.Kind

def isFixed : Kind → Bool
  | binaryNumber | octalNumber | decimalNumber | hexNumber | quoted | identifier | finish => false
  | _ => true

/-- The text of the tokens of a kind that is fixed. A reserved word is described by itself. -/
def spelling (kind : Kind) : String := kind.sign?.getD kind.describe

theorem spelling_of_keyword? {word : String} {kind : Kind} (reserved : keyword? word = some kind) :
    kind.spelling = word := by
  unfold keyword? at reserved
  split at reserved <;> cases reserved <;> rfl

end Token.Kind

namespace Lexical

theorem IsLexeme.eq_spelling {kind : Token.Kind} {text : List Char} (is : IsLexeme kind text)
    (fixed : kind.isFixed) : text = kind.spelling.toList := by
  cases is with
  | sign spelled => rw [Token.Kind.spelling, spelled, Option.getD_some]
  | quoted | decimal | octal => cases fixed
  | @marked base => cases base <;> cases fixed
  | @word first more =>
    cases reserved : Token.Kind.keyword? (String.ofList (first :: more)) with
    | none =>
      rw [Token.Kind.ofWord, reserved] at fixed
      cases fixed
    | some kind =>
      have same := Token.Kind.spelling_of_keyword? reserved
      rw [Token.Kind.ofWord, reserved, Option.getD_some, same, String.toList_ofList]

end Lexical

end YalSyntax
