import YalSyntax.Proofs.Kinds
import YalSyntax.Proofs.Lexical.Resumption
import YalSyntax.Proofs.Rendering.RoundTrip

namespace YalSyntax

open Lexical

namespace Scan

def step? : Scan → Option Scan
  | ⟨_, [], _⟩ => none
  | ⟨position, c :: text, collected⟩ =>
    let lexeme := Lexeme.first c text
    let after := position.after lexeme.text
    match lexeme.meaning with
    | .space => some ⟨after, lexeme.rest, collected⟩
    | .token kind =>
      some ⟨after, lexeme.rest, ⟨kind, String.ofList lexeme.text, position⟩ :: collected⟩
    | .flaw _ => none

def steps? (scan : Scan) : Nat → Option Scan
  | 0 => some scan
  | count + 1 => scan.step?.bind (·.steps? count)

/-- The scanner comes to this offset of the source and is about to begin a lexeme there. -/
def StartsAt (source : String) (offset : Nat) : Prop :=
  ∃ count reached, (ofSource source).steps? count = some reached ∧
    offset + reached.rest.length = source.toList.length

theorem run_of_step? {scan next : Scan} (step : scan.step? = some next) : scan.run = next.run := by
  obtain ⟨position, text, collected⟩ := scan
  cases text with
  | nil => cases step
  | cons c text =>
    rw [run.eq_2]
    simp only [step?] at step
    cases meaning : (Lexeme.first c text).meaning <;> rw [meaning] at step <;> cases step <;> rfl

theorem run_of_steps? {scan reached : Scan} {count : Nat} (comes : scan.steps? count = some reached) :
    scan.run = reached.run := by
  induction count generalizing scan with
  | zero =>
    cases comes
    rfl
  | succ count further =>
    obtain ⟨next, step, comes⟩ := Option.bind_eq_some_iff.mp comes
    rw [run_of_step? step, further comes]

theorem lexes_of_step? {before text : List Char} {collected : List Token} {next : Scan}
    (step : step? ⟨Position.behind before, text, collected⟩ = some next) :
    ∃ item tokens, text = item ++ next.rest ∧
      next = ⟨Position.behind (before ++ item), next.rest, tokens.reverse ++ collected⟩ ∧
      ∀ {others : List Token} {reached left : List Char},
        Lexes (before ++ item) next.rest others reached left →
          Lexes before (item ++ next.rest) (tokens ++ others) reached left := by
  cases text with
  | nil => cases step
  | cons c text =>
    have lawful := first_lawful c text
    have whole := Lexeme.first_append c text
    simp only [step?, Position.after_behind] at step
    generalize Lexeme.first c text = lexeme at lawful whole step
    obtain ⟨meaning, item, rest⟩ := lexeme
    cases meaning with
    | flaw flaw => cases step
    | space =>
      cases step
      exact ⟨item, [], whole.symm, rfl, fun others => .skip lawful others⟩
    | token kind =>
      cases step
      exact ⟨item, [⟨kind, String.ofList item, Position.behind before⟩], whole.symm, rfl,
        fun others => .token lawful others⟩

theorem lexes_of_steps? {before text : List Char} {collected : List Token} {reached : Scan}
    {count : Nat}
    (comes : steps? ⟨Position.behind before, text, collected⟩ count = some reached) :
    ∃ tokens gone, Lexes before text tokens gone reached.rest ∧
      reached = ⟨Position.behind gone, reached.rest, tokens.reverse ++ collected⟩ := by
  induction count generalizing before text collected with
  | zero =>
    cases comes
    exact ⟨[], before, .here, rfl⟩
  | succ count further =>
    obtain ⟨next, step, comes⟩ := Option.bind_eq_some_iff.mp comes
    obtain ⟨item, tokens, whole, same, goes⟩ := lexes_of_step? step
    rw [same] at comes
    obtain ⟨others, gone, lexes, reaches⟩ := further comes
    refine ⟨tokens ++ others, gone, ?_, ?_⟩
    · rw [whole]
      exact goes lexes
    · rw [reaches, List.reverse_append, List.append_assoc]

end Scan

namespace Lexical

/-- Blanks and comments, each of them complete: behind a line comment stands its line feed. -/
inductive Filler : List Char → Prop
  | none : Filler []
  | blank {c : Char} {others : List Char} (blank : isBlank c) (more : Filler others) :
      Filler (c :: others)
  | line {body others : List Char} (inside : '\n' ∉ body) (more : Filler others) :
      Filler ('/' :: '/' :: (body ++ '\n' :: others))
  | block {body others : List Char} (first : ¬ ['*', '/'] <:+: body ++ ['*'])
      (more : Filler others) : Filler ('/' :: '*' :: (body ++ '*' :: '/' :: others))

theorem Filler.lexes {filler : List Char} (isFiller : Filler filler) (before rest : List Char) :
    Lexes before (filler ++ rest) [] (before ++ filler) rest := by
  induction isFiller generalizing before with
  | none => simpa using Lexes.here
  | @blank c others blank _ further =>
    have skips : Skips [c] (others ++ rest) := .blank blank
    simpa using Lexes.skip skips (further (before ++ [c]))
  | @line body others inside _ further =>
    have comment : Skips ('/' :: '/' :: body) ('\n' :: (others ++ rest)) := .line inside (by simp)
    have feed : Skips ['\n'] (others ++ rest) := .blank rfl
    simpa using Lexes.skip comment
      (Lexes.skip feed (further (before ++ '/' :: '/' :: body ++ ['\n'])))
  | @block body others first _ further =>
    have comment : Skips ('/' :: '*' :: (body ++ ['*', '/'])) (others ++ rest) := .block first
    simpa using Lexes.skip comment (further (before ++ '/' :: '*' :: (body ++ ['*', '/'])))

theorem Skips.before_feed {item middle left other : List Char} (skips : Skips item (middle ++ left)) :
    Skips item (middle ++ '\n' :: other) := by
  cases skips with
  | blank blank => exact .blank blank
  | block first => exact .block first
  | line inside ends =>
    apply Skips.line inside
    cases middle with
    | nil => simp
    | cons d middle => simpa using ends

theorem Lexes.before_feed {before text reached left : List Char} {tokens : List Token}
    (lexes : Lexes before text tokens reached left) :
    ∃ clean, text = clean ++ left ∧ reached = before ++ clean ∧
      ∀ other : List Char, Lexes before (clean ++ '\n' :: other) tokens reached ('\n' :: other) := by
  obtain ⟨clean, split, behind, others⟩ := lexes.up_to
  refine ⟨clean, split, behind, fun other => others ('\n' :: other) ?_ ?_⟩
  · simp [isBlank]
  · exact fun _ _ skips => skips.before_feed

end Lexical

def LexError.map (place : Position → Position) : LexError → LexError
  | illegalCharacter char position => illegalCharacter char (place position)
  | unterminatedString position => unterminatedString (place position)
  | unterminatedComment position => unterminatedComment (place position)
  | malformedNumber text position => malformedNumber text (place position)

theorem Flaw.report_map (flaw : Flaw) (place : Position → Position) (position : Position) :
    (flaw.report position).map place = flaw.report (place position) := by
  cases flaw <;> rfl

def spelledScan : Except LexError (List Token) → Except LexError (List (Token.Kind × String))
  | .ok tokens => .ok (tokens.map Token.spelled)
  | .error error => .error (error.map fun _ => .start)

def unplacedResult : Except SyntaxError Program → Except SyntaxError Program
  | .ok program => .ok program.unplaced
  | .error (.lex error) => .error (.lex (error.map fun _ => .start))
  | .error (.parse error) => .error (.parse (error.map id fun _ => .start))

theorem Scan.spelled_run (text : List Char) {position position' : Position}
    {collected collected' : List Token}
    (same : collected.map Token.spelled = collected'.map Token.spelled) :
    spelledScan (Scan.run ⟨position, text, collected⟩).1 =
      spelledScan (Scan.run ⟨position', text, collected'⟩).1 := by
  cases text with
  | nil =>
    rw [run.eq_1, run.eq_1]
    simp [spelledScan, same, Token.finishAt, Token.spelled]
  | cons c more =>
    have shorter : (Lexeme.first c more).rest.length < more.length + 1 :=
      Lexeme.first_rest_length c more
    rw [run.eq_2, run.eq_2]
    cases (Lexeme.first c more).meaning with
    | space => exact spelled_run _ same
    | token kind =>
      apply spelled_run
      rw [List.map_cons, List.map_cons, same]
      rfl
    | flaw flaw => simp only [spelledScan, Flaw.report_map]
termination_by text.length
decreasing_by all_goals subst_vars; simp only [List.length_cons]; omega

theorem spelled_eq_iff {tokens tokens' : List Token} :
    tokens.map Token.spelled = tokens'.map Token.spelled ↔
      tokens.map (Token.map id fun _ => .start) = tokens'.map (Token.map id fun _ => .start) := by
  have back : ∀ tokens : List Token, (tokens.map (Token.map id fun _ => .start)).map Token.spelled =
      tokens.map Token.spelled := by
    intro tokens
    rw [List.map_map]
    rfl
  have front : ∀ tokens : List Token, (tokens.map Token.spelled).map
      (fun word => Token.mk word.1 word.2 .start) = tokens.map (Token.map id fun _ => .start) := by
    intro tokens
    rw [List.map_map]
    rfl
  constructor
  · intro same
    rw [← front, same, front]
  · intro same
    rw [← back, same, back]

theorem unplaced_parseSource {source other : String}
    (same : spelledScan (scan source) = spelledScan (scan other)) :
    unplacedResult (parseSource source) = unplacedResult (parseSource other) := by
  have mapped : ∀ result : Except ParseError Program, unplacedResult (result.mapError .parse) =
      (mapAnswer id (fun _ => .start) result).mapError .parse := by
    intro result
    cases result <;> rfl
  cases scanned : scan source with
  | error error =>
    cases scanned' : scan other with
    | ok tokens =>
      rw [scanned, scanned'] at same
      cases same
    | error error' =>
      rw [scanned, scanned', spelledScan, spelledScan, Except.error.injEq] at same
      simp only [parseSource, scanned, scanned', unplacedResult, same]
  | ok tokens =>
    cases scanned' : scan other with
    | error error =>
      rw [scanned, scanned'] at same
      cases same
    | ok tokens' =>
      rw [scanned, scanned', spelledScan, spelledScan, Except.ok.injEq, spelled_eq_iff] at same
      rw [parseSource_of_scan scanned, parseSource_of_scan scanned', mapped, mapped,
        ← parseTokens_map id _ rfl tokens, same, parseTokens_map id _ rfl tokens']

/-- Blanks and comments are invisible. Put between two lexemes behind a line feed, or before a
flaw, or at the end, they change no more than positions: neither what is scanned nor what is read,
and of an error neither what it is nor what it tells. -/
theorem filler_invisible (source filler : String) (offset : Nat)
    (starts : Scan.StartsAt source offset) (isFiller : Filler filler.toList) :
    let filled := String.ofList (source.toList.take offset ++
      '\n' :: (filler.toList ++ source.toList.drop offset))
    spelledScan (scan filled) = spelledScan (scan source) ∧
      unplacedResult (parseSource filled) = unplacedResult (parseSource source) := by
  intro filled
  obtain ⟨count, reached, comes, length⟩ := starts
  have begins : ∀ text, Scan.ofSource text = ⟨Position.behind [], text.toList, []⟩ := fun _ => rfl
  have comes' := comes
  rw [begins] at comes'
  obtain ⟨tokens, gone, lexes, same⟩ := Scan.lexes_of_steps? comes'
  obtain ⟨clean, split, -, others⟩ := lexes.before_feed
  have taken : source.toList.take offset = clean ∧ source.toList.drop offset = reached.rest := by
    have sum := congrArg List.length split
    rw [List.length_append] at sum
    have size : offset = clean.length := by omega
    rw [split, size]
    exact ⟨List.take_left, List.drop_left⟩
  have text : filled.toList = clean ++ '\n' :: (filler.toList ++ reached.rest) := by
    rw [String.toList_ofList, taken.1, taken.2]
  have feed : Filler ('\n' :: filler.toList) := .blank rfl isFiller
  have scanned : spelledScan (scan filled) = spelledScan (scan source) := by
    have front := (others (filler.toList ++ reached.rest)).run_eq []
    have gap := (feed.lexes gone reached.rest).run_eq (tokens.reverse ++ [])
    rw [scan, scan, Scan.run_of_steps? comes, same, begins, text, front]
    rw [List.cons_append] at gap
    rw [gap]
    apply Scan.spelled_run
    simp
  exact ⟨scanned, unplaced_parseSource scanned⟩

/-- Behind a line comment and before a flaw. The quote and the parenthesis in the comments that are
put there open nothing. -/
theorem filler_invisible_before_flaw :
    let source := "a;//c\n#"
    let filler := "/*\"*/ //(\n"
    let filled := "a;//c\n/*\"*/ //(\n\n#"
    Scan.StartsAt source 5 ∧ Filler filler.toList ∧
      spelledScan (scan filled) = .error (.illegalCharacter '#' .start) ∧
      unplacedResult (parseSource filled) = .error (.lex (.illegalCharacter '#' .start)) := by
  intro source filler filled
  have starts : Scan.StartsAt source 5 := by
    let collected : List Token := [⟨.semicolon, ";", ⟨1, 2⟩⟩, ⟨.identifier, "a", ⟨1, 1⟩⟩]
    exact ⟨3, ⟨⟨1, 6⟩, ['\n', '#'], collected⟩, by cbv, by cbv⟩
  have isFiller : Filler filler.toList := by
    have text : filler.toList = '/' :: '*' :: (['"'] ++ '*' :: '/' :: ' ' :: '/' :: '/' ::
        (['('] ++ '\n' :: [])) := by cbv
    rw [text]
    exact .block (by decide) (.blank rfl (.line (by decide) .none))
  have text : String.ofList (source.toList.take 5 ++
      '\n' :: (filler.toList ++ source.toList.drop 5)) = filled := by cbv
  have failed : scan source = .error (.illegalCharacter '#' ⟨2, 1⟩) := by cbv
  have same := filler_invisible source filler 5 starts isFiller
  simp only [text, parseSource, failed] at same
  exact ⟨starts, isFiller, same.1, same.2⟩

end YalSyntax
