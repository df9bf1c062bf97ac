import YalSyntax.Proofs.Lexical.Determinacy

namespace YalSyntax

namespace Position

theorem next_behind (before : List Char) (c : Char) :
    (behind before).next c = behind (before ++ [c]) := by
  by_cases feed : c = '\n'
  · simp only [next, behind, feed, ↓reduceIte, List.count_append, List.reverse_append,
      List.reverse_singleton, List.singleton_append]
    simp
    omega
  · simp only [next, behind, feed, ↓reduceIte, List.count_append, List.reverse_append,
      List.reverse_singleton, List.singleton_append]
    simp [feed]
    omega

theorem after_behind (before text : List Char) :
    (behind before).after text = behind (before ++ text) := by
  induction text generalizing before with
  | nil => simp
  | cons c text further =>
    rw [after_cons, next_behind, further]
    simp

end Position

namespace Lexical

theorem Skips.ne_nil {item rest : List Char} (skips : Skips item rest) : item ≠ [] := by
  cases skips <;> simp

theorem Takes.ne_nil {kind : Token.Kind} {lexeme rest : List Char} (takes : Takes kind lexeme rest) :
    lexeme ≠ [] :=
  takes.longest.isLexeme.ne_nil

theorem Fails.ne_nil {flaw : Flaw} {lexeme rest : List Char} (fails : Fails flaw lexeme rest) :
    lexeme ≠ [] := by
  cases fails with
  | malformedNumber _ _ _ _ like => cases like <;> simp
  | unterminatedString | unterminatedComment | illegalCharacter => simp

theorem Lawful.text_ne_nil : {lexeme : Lexeme} → Lawful lexeme → lexeme.text ≠ []
  | ⟨.space, _, _⟩, skips => Skips.ne_nil skips
  | ⟨.token _, _, _⟩, takes => Takes.ne_nil takes
  | ⟨.flaw _, _, _⟩, fails => Fails.ne_nil fails

theorem run_lawful (before : List Char) (lexeme : Lexeme) (collected : List Token)
    (lawful : Lawful lexeme) :
    Scan.run ⟨Position.behind before, lexeme.text ++ lexeme.rest, collected⟩ =
      match lexeme.meaning with
      | .space => Scan.run ⟨Position.behind (before ++ lexeme.text), lexeme.rest, collected⟩
      | .token kind => Scan.run ⟨Position.behind (before ++ lexeme.text), lexeme.rest,
          ⟨kind, String.ofList lexeme.text, Position.behind before⟩ :: collected⟩
      | .flaw flaw => (.error (flaw.report (Position.behind before)),
          ⟨Position.behind (before ++ lexeme.text), lexeme.rest, collected⟩) := by
  obtain ⟨c, more, opens⟩ := List.exists_cons_of_ne_nil lawful.text_ne_nil
  have whole : lexeme.text ++ lexeme.rest = c :: (more ++ lexeme.rest) := by simp [opens]
  have known := first_eq lawful whole
  obtain ⟨meaning, item, rest⟩ := lexeme
  rw [whole, Scan.run.eq_2]
  cases meaning <;> simp only [known, Position.after_behind]

theorem Lexes.run_eq {before text reached left : List Char} {tokens : List Token}
    (lexes : Lexes before text tokens reached left) (collected : List Token) :
    Scan.run ⟨Position.behind before, text, collected⟩ =
      Scan.run ⟨Position.behind reached, left, tokens.reverse ++ collected⟩ := by
  induction lexes generalizing collected with
  | here => rfl
  | @skip before item rest _ _ _ skips _ further =>
    have step := run_lawful before ⟨.space, item, rest⟩ collected skips
    exact step.trans (further collected)
  | @token before lexeme rest _ _ kind _ takes _ further =>
    have step := run_lawful before ⟨.token kind, lexeme, rest⟩ collected takes
    rw [List.reverse_cons, List.append_assoc]
    exact step.trans (further _)

theorem Lexes.keeps {before text reached left : List Char} {tokens : List Token}
    (lexes : Lexes before text tokens reached left) : before ++ text = reached ++ left := by
  induction lexes with
  | here => rfl
  | skip _ _ further => rw [← further, List.append_assoc]
  | token _ _ further => rw [← further, List.append_assoc]

theorem lexes_to_end_or_flaw (before text : List Char) :
    (∃ tokens, Lexes before text tokens (before ++ text) []) ∨
      ∃ tokens reached lexeme rest flaw, Lexes before text tokens reached (lexeme ++ rest) ∧
        Fails flaw lexeme rest := by
  match text with
  | [] => exact .inl ⟨[], by simpa using Lexes.here⟩
  | c :: text =>
    have lawful := first_lawful c text
    have whole := Lexeme.first_append c text
    have shorter : (Lexeme.first c text).rest.length < text.length + 1 :=
      Lexeme.first_rest_length c text
    generalize Lexeme.first c text = lexeme at lawful whole shorter
    obtain ⟨meaning, item, rest⟩ := lexeme
    simp only at whole shorter
    rw [← whole]
    cases meaning with
    | space =>
      rcases lexes_to_end_or_flaw (before ++ item) rest with
        ⟨tokens, others⟩ | ⟨tokens, reached, lexeme, left, flaw, others, fails⟩
      · exact .inl ⟨tokens, .skip lawful (by simpa using others)⟩
      · exact .inr ⟨tokens, reached, lexeme, left, flaw, .skip lawful others, fails⟩
    | token kind =>
      rcases lexes_to_end_or_flaw (before ++ item) rest with
        ⟨tokens, others⟩ | ⟨tokens, reached, lexeme, left, flaw, others, fails⟩
      · exact .inl ⟨_, .token lawful (by simpa using others)⟩
      · exact .inr ⟨_, reached, lexeme, left, flaw, .token lawful others, fails⟩
    | flaw flaw => exact .inr ⟨[], before, item, rest, flaw, .here, lawful⟩
termination_by text.length
decreasing_by all_goals subst_vars; simp only [List.length_cons]; omega

end Lexical

open Lexical

theorem scan_of_lexes_to_end {source : String} {tokens : List Token}
    (lexes : Lexes [] source.toList tokens source.toList []) :
    scan source = .ok (tokens ++ [Token.finishAt (Position.behind source.toList)]) := by
  have reached := lexes.run_eq []
  unfold scan Scan.ofSource
  rw [show Position.start = Position.behind [] from rfl, reached, Scan.run.eq_1]
  simp

theorem scan_of_lexes_to_flaw {source : String} {tokens : List Token} {flaw : Flaw}
    {before lexeme rest : List Char} (lexes : Lexes [] source.toList tokens before (lexeme ++ rest))
    (fails : Fails flaw lexeme rest) :
    scan source = .error (flaw.report (Position.behind before)) := by
  have reached := lexes.run_eq []
  have stops := run_lawful before ⟨.flaw flaw, lexeme, rest⟩ (tokens.reverse ++ []) fails
  unfold scan Scan.ofSource
  rw [show Position.start = Position.behind [] from rfl, reached, stops]

theorem lexes_of_scan {source : String} {tokens : List Token} (scanned : scan source = .ok tokens) :
    ∃ found, Lexes [] source.toList found source.toList [] ∧
      tokens = found ++ [Token.finishAt (Position.behind source.toList)] := by
  rcases lexes_to_end_or_flaw [] source.toList with
    ⟨found, lexes⟩ | ⟨found, before, lexeme, rest, flaw, lexes, fails⟩
  · have same := (scan_of_lexes_to_end lexes).symm.trans scanned
    exact ⟨found, lexes, (Except.ok.inj same).symm⟩
  · cases (scan_of_lexes_to_flaw lexes fails).symm.trans scanned

theorem flaw_of_scan {source : String} {error : LexError} (failed : scan source = .error error) :
    ∃ found before lexeme rest flaw, Lexes [] source.toList found before (lexeme ++ rest) ∧
      Fails flaw lexeme rest ∧ error = flaw.report (Position.behind before) := by
  rcases lexes_to_end_or_flaw [] source.toList with
    ⟨found, lexes⟩ | ⟨found, before, lexeme, rest, flaw, lexes, fails⟩
  · cases (scan_of_lexes_to_end lexes).symm.trans failed
  · have same := (scan_of_lexes_to_flaw lexes fails).symm.trans failed
    exact ⟨found, before, lexeme, rest, flaw, lexes, fails, (Except.error.inj same).symm⟩

/-- Scanning is longest-match lexing from the first character on: it succeeds just when the lexing
reaches the end of the source, with the tokens found and the end token behind them, and it fails
just when the lexing comes to a flaw, with the flaw that is there. -/
theorem scan_exact (source : String) :
    (∀ tokens, scan source = .ok tokens ↔
      ∃ found, Lexes [] source.toList found source.toList [] ∧
        tokens = found ++ [Token.finishAt (Position.behind source.toList)]) ∧
    ∀ error, scan source = .error error ↔
      ∃ found before lexeme rest flaw, Lexes [] source.toList found before (lexeme ++ rest) ∧
        Fails flaw lexeme rest ∧ error = flaw.report (Position.behind before) := by
  refine ⟨fun tokens => ⟨fun scanned => lexes_of_scan scanned, ?_⟩,
    fun error => ⟨fun failed => flaw_of_scan failed, ?_⟩⟩
  · intro reached
    obtain ⟨found, lexes, rfl⟩ := reached
    exact scan_of_lexes_to_end lexes
  · intro reached
    obtain ⟨found, before, lexeme, rest, flaw, lexes, fails, rfl⟩ := reached
    exact scan_of_lexes_to_flaw lexes fails

end YalSyntax
