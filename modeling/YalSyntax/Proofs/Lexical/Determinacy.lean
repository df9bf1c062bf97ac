import YalSyntax.Proofs.Lexical.Lexer

namespace YalSyntax

namespace Lexical

theorem IsLexeme.not_blank {kind : Token.Kind} {c : Char} {more : List Char}
    (is : IsLexeme kind (c :: more)) : ¬ isBlank c := by
  intro blank
  have shape := is.shape
  have lead : Lead.of c = .blank := by simp [Lead.of, blank]
  rw [lead] at shape
  exact shape

theorem isLexeme_slash : IsLexeme .slash ['/'] :=
  .sign (show Token.Kind.slash.sign? = some "/" from rfl)

theorem front_unique {first rest first' rest' : List Char}
    (same : first ++ rest = first' ++ rest') (le : first.length ≤ first'.length)
    (ge : first'.length ≤ first.length) : first = first' ∧ rest = rest' :=
  List.append_inj same (Nat.le_antisymm le ge)

theorem Longest.unique {kind kind' : Token.Kind} {lexeme rest lexeme' rest' : List Char}
    (longest : Longest kind lexeme rest) (longest' : Longest kind' lexeme' rest')
    (same : lexeme ++ rest = lexeme' ++ rest') : kind = kind' ∧ lexeme = lexeme' ∧ rest = rest' := by
  have le := longest'.longest kind lexeme longest.isLexeme
    (same ▸ List.prefix_append lexeme rest)
  have ge := longest.longest kind' lexeme' longest'.isLexeme
    (same ▸ List.prefix_append lexeme' rest')
  obtain ⟨rfl, rfl⟩ := front_unique same le ge
  exact ⟨longest.isLexeme.kind_unique longest'.isLexeme, rfl, rfl⟩

theorem close_is_first {body body' rest rest' : List Char} (first : ¬ ['*', '/'] <:+: body ++ ['*'])
    (same : body ++ ['*', '/'] ++ rest = body' ++ ['*', '/'] ++ rest') :
    body.length ≤ body'.length := by
  rcases Nat.lt_or_ge body'.length body.length with earlier | later
  · have opens : body' ++ ['*', '/'] <+: body ++ ['*'] := by
      have whole : body ++ ['*'] <+: body ++ ['*', '/'] ++ rest := ⟨'/' :: rest, by simp⟩
      rw [same] at whole
      exact List.prefix_of_prefix_length_le (List.prefix_append _ rest') whole
        (by simp only [List.length_append, List.length_cons, List.length_nil]; omega)
    obtain ⟨others, closed⟩ := opens
    exact absurd ⟨body', others, closed⟩ first
  · exact later

theorem Skips.unique {item rest item' rest' : List Char} (skips : Skips item rest)
    (skips' : Skips item' rest') (same : item ++ rest = item' ++ rest') :
    item = item' ∧ rest = rest' := by
  match skips, skips' with
  | .blank space, .blank _ =>
    obtain ⟨rfl, rfl⟩ := List.cons.inj same
    exact ⟨rfl, rfl⟩
  | .blank space, .line inside ends =>
    obtain ⟨rfl, -⟩ := List.cons.inj same
    exact absurd space (by decide)
  | .blank space, .block first =>
    obtain ⟨rfl, -⟩ := List.cons.inj same
    exact absurd space (by decide)
  | .line inside ends, .blank space =>
    obtain ⟨rfl, -⟩ := List.cons.inj same
    exact absurd space (by decide)
  | .block first, .blank space =>
    obtain ⟨rfl, -⟩ := List.cons.inj same
    exact absurd space (by decide)
  | .line inside ends, .block first => cases same
  | .block first, .line inside ends => cases same
  | @Skips.line body rest inside ends, @Skips.line body' rest' inside' ends' =>
    have same' : body ++ rest = body' ++ rest' := by simpa using same
    have le := length_le_of_boundary (forall_ne_of_not_mem inside)
      (fun next ahead => by simp [ends' next ahead])
      (same' ▸ List.prefix_append body rest)
    have ge := length_le_of_boundary (forall_ne_of_not_mem inside')
      (fun next ahead => by simp [ends next ahead])
      (same' ▸ List.prefix_append body' rest')
    obtain ⟨rfl, rfl⟩ := front_unique same' le ge
    exact ⟨rfl, rfl⟩
  | @Skips.block body rest first, @Skips.block body' rest' first' =>
    have same' : body ++ ['*', '/'] ++ rest = body' ++ ['*', '/'] ++ rest' := by simpa using same
    have le := close_is_first first same'
    have ge := close_is_first first' same'.symm
    obtain ⟨rfl, closed⟩ := front_unique (by simpa only [List.append_assoc] using same') le ge
    obtain rfl := List.append_cancel_left closed
    exact ⟨rfl, rfl⟩

theorem Skips.blank_or_comment {item rest : List Char} (skips : Skips item rest) :
    (∃ c, item = [c] ∧ isBlank c) ∨ OpensComment (item ++ rest) := by
  cases skips with
  | blank blank => exact .inl ⟨_, rfl, blank⟩
  | line => exact .inr (.inl ⟨_, rfl⟩)
  | block => exact .inr (.inr ⟨_, rfl⟩)

theorem Skips.not_takes {kind : Token.Kind} {item rest lexeme rest' : List Char}
    (skips : Skips item rest) (takes : Takes kind lexeme rest') :
    item ++ rest ≠ lexeme ++ rest' := by
  intro same
  rcases skips.blank_or_comment with ⟨c, rfl, blank⟩ | comment
  · cases lexeme with
    | nil => exact takes.longest.isLexeme.ne_nil rfl
    | cons d more =>
      obtain ⟨rfl, -⟩ := List.cons.inj same
      exact takes.longest.isLexeme.not_blank blank
  · exact takes.plain (same ▸ comment)

theorem Skips.not_fails {flaw : Flaw} {item rest lexeme rest' : List Char} (skips : Skips item rest)
    (fails : Fails flaw lexeme rest') : item ++ rest ≠ lexeme ++ rest' := by
  intro same
  cases fails with
  | unterminatedString unclosed =>
    rcases skips.blank_or_comment with ⟨c, rfl, blank⟩ | comment
    · obtain ⟨rfl, -⟩ := List.cons.inj same
      exact absurd blank (by decide)
    · rw [same] at comment
      exact absurd (head_of_opensComment comment) (by decide)
  | unterminatedComment unclosed =>
    cases skips with
    | blank blank =>
      obtain ⟨rfl, -⟩ := List.cons.inj same
      exact absurd blank (by decide)
    | line => cases same
    | @block body =>
      refine unclosed ⟨body, rest, ?_⟩
      simpa using same
  | @malformedNumber kind lexeme' _ more _ next split zero valid =>
    rw [split] at same
    rcases skips.blank_or_comment with ⟨c, rfl, blank⟩ | comment
    · cases lexeme' with
      | nil => cases zero
      | cons d digits =>
        obtain ⟨rfl, -⟩ := List.cons.inj same
        exact valid.isLexeme.not_blank blank
    · rw [same] at comment
      cases lexeme' with
      | nil => cases zero
      | cons d digits =>
        obtain rfl := Option.some.inj zero
        exact absurd (head_of_opensComment comment) (by decide)
  | illegalCharacter noBlank noQuote noLexeme =>
    rcases skips.blank_or_comment with ⟨c, rfl, blank⟩ | comment
    · obtain ⟨rfl, -⟩ := List.cons.inj same
      simp [noBlank] at blank
    · rw [same] at comment
      obtain rfl := head_of_opensComment comment
      exact noLexeme .slash ['/'] isLexeme_slash ⟨rest', rfl⟩

theorem Takes.not_fails {kind : Token.Kind} {flaw : Flaw} {lexeme rest lexeme' rest' : List Char}
    (takes : Takes kind lexeme rest) (fails : Fails flaw lexeme' rest') :
    lexeme ++ rest ≠ lexeme' ++ rest' := by
  intro same
  have is := takes.longest.isLexeme
  cases fails with
  | @unterminatedString text unclosed =>
    cases lexeme with
    | nil => exact is.ne_nil rfl
    | cons c more =>
      rw [List.append_nil] at same
      obtain ⟨rfl, rfl⟩ := List.cons.inj same
      obtain ⟨-, inner, -, rfl⟩ : Shape kind '"' more .quote := is.shape
      simp at unclosed
  | unterminatedComment =>
    refine takes.plain ?_
    rw [same]
    exact .inr ⟨_, rfl⟩
  | malformedNumber split zero valid continues =>
    obtain ⟨-, rfl, rfl⟩ := takes.longest.unique valid (same.trans split)
    exact takes.whole zero _ rfl continues
  | illegalCharacter noBlank noQuote noLexeme =>
    exact noLexeme kind lexeme is ⟨rest, same⟩

theorem Fails.unique {flaw flaw' : Flaw} {lexeme rest lexeme' rest' : List Char}
    (fails : Fails flaw lexeme rest) (fails' : Fails flaw' lexeme' rest')
    (same : lexeme ++ rest = lexeme' ++ rest') : flaw = flaw' ∧ lexeme = lexeme' ∧ rest = rest' := by
  have zeroFirst : ∀ {number left digits behind : List Char}, number ++ left = digits ++ behind →
      digits.head? = some '0' → ∃ more, number ++ left = '0' :: more := by
    intro number left digits behind split zero
    cases digits with
    | nil => cases zero
    | cons c digits =>
      obtain rfl := Option.some.inj zero
      exact ⟨digits ++ behind, split⟩
  match fails, fails' with
  | .unterminatedString _, .unterminatedString _ =>
    simp only [List.append_nil] at same
    exact ⟨rfl, same, rfl⟩
  | .unterminatedComment _, .unterminatedComment _ =>
    simp only [List.append_nil] at same
    exact ⟨rfl, same, rfl⟩
  | .illegalCharacter _ _ _, .illegalCharacter _ _ _ =>
    obtain ⟨rfl, rfl⟩ := List.cons.inj same
    exact ⟨rfl, rfl, rfl⟩
  | .malformedNumber _ _ _ _ like longest, .malformedNumber _ _ _ _ like' longest' =>
    have le := longest' _ like (same ▸ List.prefix_append _ _)
    have ge := longest _ like' (same ▸ List.prefix_append _ _)
    obtain ⟨rfl, rfl⟩ := front_unique same le ge
    exact ⟨rfl, rfl, rfl⟩
  | .unterminatedString _, .unterminatedComment _ => cases same
  | .unterminatedComment _, .unterminatedString _ => cases same
  | .unterminatedString _, .malformedNumber split zero _ _ _ _ =>
    obtain ⟨more, begins⟩ := zeroFirst split zero
    cases same.trans begins
  | .malformedNumber split zero _ _ _ _, .unterminatedString _ =>
    obtain ⟨more, begins⟩ := zeroFirst split zero
    cases same.symm.trans begins
  | .unterminatedComment _, .malformedNumber split zero _ _ _ _ =>
    obtain ⟨more, begins⟩ := zeroFirst split zero
    cases same.trans begins
  | .malformedNumber split zero _ _ _ _, .unterminatedComment _ =>
    obtain ⟨more, begins⟩ := zeroFirst split zero
    cases same.symm.trans begins
  | .unterminatedString _, .illegalCharacter _ noQuote _ =>
    obtain ⟨rfl, -⟩ := List.cons.inj same
    exact absurd rfl noQuote
  | .illegalCharacter _ noQuote _, .unterminatedString _ =>
    obtain ⟨rfl, -⟩ := List.cons.inj same
    exact absurd rfl noQuote
  | .unterminatedComment _, .illegalCharacter _ _ noLexeme =>
    obtain ⟨rfl, -⟩ := List.cons.inj same
    exact absurd ⟨_, rfl⟩ (noLexeme .slash ['/'] isLexeme_slash)
  | .illegalCharacter _ _ noLexeme, .unterminatedComment _ =>
    obtain ⟨rfl, -⟩ := List.cons.inj same
    exact absurd ⟨_, rfl⟩ (noLexeme .slash ['/'] isLexeme_slash)
  | .malformedNumber split _ valid _ _ _, .illegalCharacter _ _ noLexeme =>
    exact absurd ⟨_, split.symm.trans same⟩ (noLexeme _ _ valid.isLexeme)
  | .illegalCharacter _ _ noLexeme, .malformedNumber split _ valid _ _ _ =>
    exact absurd ⟨_, split.symm.trans same.symm⟩ (noLexeme _ _ valid.isLexeme)

theorem Lawful.unique : {lexeme other : Lexeme} → Lawful lexeme → Lawful other →
    lexeme.text ++ lexeme.rest = other.text ++ other.rest → lexeme = other
  | ⟨.space, _, _⟩, ⟨.space, _, _⟩, skips, skips', same => by
    obtain ⟨rfl, rfl⟩ := Skips.unique skips skips' same
    rfl
  | ⟨.space, _, _⟩, ⟨.token _, _, _⟩, skips, takes, same =>
    absurd same (Skips.not_takes skips takes)
  | ⟨.space, _, _⟩, ⟨.flaw _, _, _⟩, skips, fails, same => absurd same (Skips.not_fails skips fails)
  | ⟨.token _, _, _⟩, ⟨.space, _, _⟩, takes, skips, same =>
    absurd same.symm (Skips.not_takes skips takes)
  | ⟨.token _, _, _⟩, ⟨.token _, _, _⟩, takes, takes', same => by
    obtain ⟨rfl, rfl, rfl⟩ := Longest.unique (Takes.longest takes) (Takes.longest takes') same
    rfl
  | ⟨.token _, _, _⟩, ⟨.flaw _, _, _⟩, takes, fails, same => absurd same (Takes.not_fails takes fails)
  | ⟨.flaw _, _, _⟩, ⟨.space, _, _⟩, fails, skips, same =>
    absurd same.symm (Skips.not_fails skips fails)
  | ⟨.flaw _, _, _⟩, ⟨.token _, _, _⟩, fails, takes, same =>
    absurd same.symm (Takes.not_fails takes fails)
  | ⟨.flaw _, _, _⟩, ⟨.flaw _, _, _⟩, fails, fails', same => by
    obtain ⟨rfl, rfl, rfl⟩ := Fails.unique fails fails' same
    rfl

/-- What stands at the front of a text is what the scanner takes it for. -/
theorem first_eq {c : Char} {text : List Char} {lexeme : Lexeme} (lawful : Lawful lexeme)
    (whole : lexeme.text ++ lexeme.rest = c :: text) : Lexeme.first c text = lexeme :=
  (first_lawful c text).unique lawful ((Lexeme.first_append c text).trans whole.symm)

end Lexical

end YalSyntax
