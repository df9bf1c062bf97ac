import YalSyntax.Proofs.Lexical.Filler

namespace YalSyntax

namespace Position

def lower (lines : Nat) (position : Position) : Position := ⟨position.line + lines, position.column⟩

theorem next_lower (lines : Nat) (position : Position) (c : Char) :
    (position.lower lines).next c = (position.next c).lower lines := by
  by_cases feed : c = '\n'
  · simp only [next, lower, feed, ↓reduceIte]
    congr 1
    omega
  · simp only [next, lower, feed, ↓reduceIte]

theorem after_lower (lines : Nat) (position : Position) (text : List Char) :
    (position.lower lines).after text = (position.after text).lower lines := by
  induction text generalizing position with
  | nil => rfl
  | cons c text further => rw [after_cons, after_cons, next_lower, further]

theorem behind_feed (before : List Char) :
    behind (before ++ ['\n']) = start.lower ((before ++ ['\n']).count '\n') := by
  simp [behind, lower, start]

end Position

open Lexical

namespace Scan

/-- What is scanned so many lines further down, behind tokens found before. -/
def lowered (lines : Nat) (found : List Token) :
    Except LexError (List Token) → Except LexError (List Token)
  | .ok tokens => .ok (found ++ tokens.map (Token.map id (Position.lower lines)))
  | .error error => .error (error.map (Position.lower lines))

theorem run_lower (lines : Nat) (found : List Token) (scan : Scan) :
    (run ⟨scan.position.lower lines, scan.rest,
      scan.collected.map (Token.map id (Position.lower lines)) ++ found.reverse⟩).1 =
      lowered lines found scan.run.1 := by
  fun_induction run scan with
  | case1 position collected =>
    rw [run.eq_1]
    simp [lowered, Token.map, Token.finishAt]
  | case2 position c text collected lexeme after space further =>
    rw [run.eq_2]
    simp only [lexeme, after] at space further ⊢
    rw [space, Position.after_lower]
    exact further
  | case3 position c text collected lexeme after kind token further =>
    rw [run.eq_2]
    simp only [lexeme, after] at token further ⊢
    rw [token, Position.after_lower]
    exact further
  | case4 position c text collected lexeme after flaw broken =>
    rw [run.eq_2]
    simp only [lexeme] at broken ⊢
    rw [broken, lowered, Flaw.report_map]

end Scan

namespace Lexical

theorem prefix_of_no_feed {front text more : List Char} (plain : '\n' ∉ front)
    (ends : text.getLast? = some '\n') (opens : front <+: text ++ more) : front <+: text := by
  obtain ⟨body, rfl⟩ := List.getLast?_eq_some_iff.mp ends
  rw [List.append_assoc] at opens
  have within : front.length ≤ body.length :=
    length_le_of_boundary (forall_ne_of_not_mem plain) (by simp) opens
  have inside : front <+: body :=
    List.prefix_of_prefix_length_le opens (List.prefix_append body _) within
  exact inside.trans (List.prefix_append body ['\n'])

theorem IsLexeme.no_feed {kind : Token.Kind} {c : Char} {more : List Char}
    (is : IsLexeme kind (c :: more)) (noQuote : c ≠ '"') : '\n' ∉ c :: more := by
  have plain : Lead.of c ≠ .quote := by
    unfold Lead.of
    split_ifs <;> simp
  intro feed
  rcases List.mem_cons.mp feed with rfl | behind
  · exact is.not_blank rfl
  · exact is.shape.no_blank plain '\n' behind rfl

theorem IsLexeme.last_ne_feed {kind : Token.Kind} {lexeme : List Char} (is : IsLexeme kind lexeme) :
    lexeme.getLast? ≠ some '\n' := by
  obtain ⟨c, more, rfl⟩ := List.exists_cons_of_ne_nil is.ne_nil
  by_cases quote : c = '"'
  · subst quote
    obtain ⟨-, inner, -, rfl⟩ : Shape kind '"' more .quote := is.shape
    rw [← List.cons_append, List.getLast?_append]
    simp
  · exact fun ends => is.no_feed quote (List.mem_of_getLast? ends)

theorem NumberLike.no_feed {text : List Char} (like : NumberLike text) : '\n' ∉ text := by
  have plain : ∀ {base : Base} {whole fraction excess : List Char}, Digits base whole →
      Fraction base fraction → (∀ c ∈ excess, isWordChar c) →
      '\n' ∉ whole ++ fraction ++ excess := by
    intro base whole fraction excess digits part continues feed
    rcases List.mem_append.mp feed with number | behind
    · rcases List.mem_append.mp number with digit | other
      · exact digits.no_blank '\n' digit rfl
      · exact part.no_blank '\n' other rfl
    · exact absurd (continues '\n' behind) (by decide)
  cases like with
  | octal digits part continues =>
    exact List.not_mem_cons_of_ne_of_not_mem (by decide) (plain digits part continues)
  | marked isMark digits part continues =>
    refine List.not_mem_cons_of_ne_of_not_mem (by decide)
      (List.not_mem_cons_of_ne_of_not_mem ?_ (plain digits part continues))
    rintro rfl
    exact absurd (Base.isWordChar_of_ofMark? isMark) (by decide)

theorem Skips.eq_feed {item rest : List Char} (skips : Skips item rest)
    (ends : item.getLast? = some '\n') : item = ['\n'] := by
  cases skips with
  | blank => simpa using ends
  | line inside =>
    have feed := List.mem_of_getLast? ends
    simp [inside] at feed
  | block =>
    rw [← List.cons_append, ← List.cons_append, List.getLast?_append] at ends
    simp at ends

section

variable {rest : List Char} (ends : rest.getLast? = some '\n') (more : List Char)

include ends

theorem Skips.with_more {item : List Char} (skips : Skips item rest) :
    Skips item (rest ++ more) := by
  obtain ⟨middle, rfl⟩ := List.getLast?_eq_some_iff.mp ends
  rw [List.append_assoc]
  exact skips.before_feed

theorem Takes.with_more {kind : Token.Kind} {lexeme : List Char} (takes : Takes kind lexeme rest) :
    Takes kind lexeme (rest ++ more) := by
  obtain ⟨middle, rfl⟩ := List.getLast?_eq_some_iff.mp ends
  rw [List.append_assoc]
  exact takes.before_blank (by simp [isBlank])

end

/-- The lexing up to a place does not change when text is put behind the line feed at the end. -/
theorem Lexes.with_more {before text reached left : List Char} {tokens : List Token}
    (lexes : Lexes before text tokens reached left) (ends : left.getLast? = some '\n')
    (more : List Char) : Lexes before (text ++ more) tokens reached (left ++ more) := by
  have behind : ∀ {before rest : List Char} {tokens : List Token},
      Lexes before rest tokens reached left → rest.getLast? = some '\n' := by
    intro before rest tokens others
    obtain ⟨clean, rfl, -, -⟩ := others.up_to
    rw [List.getLast?_append, ends, Option.some_or]
  induction lexes with
  | here => exact .here
  | skip skips others further =>
    rw [List.append_assoc]
    exact .skip (skips.with_more (behind others) more) (further ends behind)
  | token takes others further =>
    rw [List.append_assoc]
    exact .token (takes.with_more (behind others) more) (further ends behind)

theorem Fails.with_more {flaw : Flaw} {lexeme rest : List Char} (fails : Fails flaw lexeme rest)
    (ends : (lexeme ++ rest).getLast? = some '\n')
    (closed : flaw ≠ .unterminatedString ∧ flaw ≠ .unterminatedComment) (more : List Char) :
    Fails flaw lexeme (rest ++ more) := by
  cases fails with
  | unterminatedString => exact absurd rfl closed.1
  | unterminatedComment => exact absurd rfl closed.2
  | @malformedNumber kind valid _ behind _ next split zero longest continues like most =>
    have split' : lexeme ++ (rest ++ more) = valid ++ next :: (behind ++ more) := by
      rw [← List.append_assoc, split, List.append_assoc, List.cons_append]
    refine .malformedNumber split' zero ⟨longest.isLexeme, fun other longer is opens => ?_⟩
      continues like fun longer like' opens => ?_
    · cases longer with
      | nil => exact Nat.zero_le _
      | cons c longer =>
        have sameHead : c = '0' := by
          cases valid with
          | nil => cases zero
          | cons d digits =>
            obtain rfl := Option.some.inj zero
            exact (List.cons_prefix_cons.mp opens).1
        have plain : '\n' ∉ c :: longer := is.no_feed (by rw [sameHead]; decide)
        rw [← List.cons_append, ← List.append_assoc] at opens
        exact longest.longest other _ is (prefix_of_no_feed plain (split ▸ ends) opens)
    · rw [← List.append_assoc] at opens
      exact most longer like' (prefix_of_no_feed like'.no_feed ends opens)
  | @illegalCharacter c rest noBlank noQuote noLexeme =>
    refine .illegalCharacter noBlank noQuote fun kind lexeme is opens => ?_
    obtain ⟨d, others, rfl⟩ := List.exists_cons_of_ne_nil is.ne_nil
    obtain rfl := (List.cons_prefix_cons.mp opens).1
    exact noLexeme kind _ is (prefix_of_no_feed (is.no_feed noQuote) ends opens)

theorem Lexes.of_nil {before reached left : List Char} {tokens : List Token}
    (lexes : Lexes before [] tokens reached left) : tokens = [] := by
  generalize none : ([] : List Char) = text at lexes
  cases lexes with
  | here => rfl
  | skip skips => exact absurd (List.append_eq_nil_iff.mp none.symm).1 skips.ne_nil
  | token takes => exact absurd (List.append_eq_nil_iff.mp none.symm).1 takes.ne_nil

theorem Lexes.to_last_feed {before text reached left : List Char} {tokens : List Token}
    (lexes : Lexes before text tokens reached left) (atEnd : left = [])
    (ends : text.getLast? = some '\n') :
    ∃ clean, text = clean ++ ['\n'] ∧ Lexes before text tokens (before ++ clean) ['\n'] := by
  induction lexes with
  | here =>
    subst atEnd
    cases ends
  | @skip before item rest _ _ _ skips others further =>
    by_cases last : rest = []
    · subst last
      rw [List.append_nil] at ends
      obtain rfl := skips.eq_feed ends
      obtain rfl := others.of_nil
      exact ⟨[], rfl, by simpa using Lexes.here⟩
    · rw [List.getLast?_append_of_ne_nil _ last] at ends
      obtain ⟨clean, same, lexes⟩ := further atEnd ends
      refine ⟨item ++ clean, by rw [same, List.append_assoc], ?_⟩
      rw [← List.append_assoc]
      exact .skip skips lexes
  | @token before lexeme rest _ _ _ _ takes others further =>
    by_cases last : rest = []
    · subst last
      rw [List.append_nil] at ends
      exact absurd ends takes.longest.isLexeme.last_ne_feed
    · rw [List.getLast?_append_of_ne_nil _ last] at ends
      obtain ⟨clean, same, lexes⟩ := further atEnd ends
      refine ⟨lexeme ++ clean, by rw [same, List.append_assoc], ?_⟩
      rw [← List.append_assoc]
      exact .token takes lexes

end Lexical

theorem scan_append_of_ok {first second : String} {tokens : List Token}
    (ends : first.toList.getLast? = some '\n') (scanned : scan first = .ok tokens) :
    scan (first ++ second) =
      Scan.lowered (first.toList.count '\n') tokens.dropLast (scan second) := by
  obtain ⟨found, lexes, rfl⟩ := lexes_of_scan scanned
  obtain ⟨clean, split, lexes⟩ := lexes.to_last_feed rfl ends
  have front := (lexes.with_more rfl second.toList).run_eq []
  have feed := run_lawful clean ⟨.space, ['\n'], second.toList⟩ (found.reverse ++ [])
    (Skips.blank rfl)
  have behind := Scan.run_lower (first.toList.count '\n') found (Scan.ofSource second)
  rw [List.dropLast_concat, scan, scan, ← behind, Scan.ofSource, String.toList_append]
  rw [show Position.start = Position.behind [] from rfl, front, List.nil_append, feed]
  rw [Position.behind_feed, ← split, List.append_nil]
  rfl

theorem scan_append_of_flaw {first second : String} {error : LexError}
    (ends : first.toList.getLast? = some '\n') (failed : scan first = .error error)
    (closed : ∀ position, error ≠ .unterminatedString position ∧
      error ≠ .unterminatedComment position) :
    scan (first ++ second) = .error error := by
  obtain ⟨found, before, lexeme, rest, flaw, lexes, fails, rfl⟩ := flaw_of_scan failed
  have behind : (lexeme ++ rest).getLast? = some '\n' := by
    obtain ⟨clean, split, -, -⟩ := lexes.up_to
    rw [split, List.getLast?_append_of_ne_nil _ (by simp [fails.ne_nil])] at ends
    exact ends
  have further := lexes.with_more behind second.toList
  rw [← String.toList_append, List.append_assoc] at further
  refine scan_of_lexes_to_flaw further (fails.with_more behind ⟨?_, ?_⟩ second.toList)
  · rintro rfl
    exact (closed _).1 rfl
  · rintro rfl
    exact (closed _).2 rfl

/-- Scanning composes at line boundaries. When a text that ends with a line feed is scanned, its
tokens stand before those of what follows, which are found as many lines further down as the text
has line feeds, and so is an error there. A character that begins no lexeme and a malformed number
are reported whatever follows. -/
theorem scan_append_lines (first second : String) (ends : first.toList.getLast? = some '\n') :
    (∀ tokens, scan first = .ok tokens →
      scan (first ++ second) =
        Scan.lowered (first.toList.count '\n') tokens.dropLast (scan second)) ∧
    (∀ char position, scan first = .error (.illegalCharacter char position) →
      scan (first ++ second) = .error (.illegalCharacter char position)) ∧
    ∀ text position, scan first = .error (.malformedNumber text position) →
      scan (first ++ second) = .error (.malformedNumber text position) :=
  ⟨fun _ scanned => scan_append_of_ok ends scanned,
    fun _ _ failed => scan_append_of_flaw ends failed fun _ => ⟨nofun, nofun⟩,
    fun _ _ failed => scan_append_of_flaw ends failed fun _ => ⟨nofun, nofun⟩⟩

theorem scan_append_lines_comment :
    let first := "a//\"\n\n"
    let second := "\"\n\" /*"
    first.toList.getLast? = some '\n' ∧
      scan (first ++ second) = .error (.unterminatedComment ⟨4, 3⟩) := by
  intro first second
  have ends : first.toList.getLast? = some '\n' := by cbv
  have scanned : scan first = .ok [⟨.identifier, "a", ⟨1, 1⟩⟩, ⟨.finish, "", ⟨3, 1⟩⟩] := by cbv
  have failed : scan second = .error (.unterminatedComment ⟨2, 3⟩) := by cbv
  have feeds : first.toList.count '\n' = 2 := by cbv
  have composed := (scan_append_lines first second ends).1 _ scanned
  rw [failed, feeds] at composed
  exact ⟨ends, composed⟩

end YalSyntax
