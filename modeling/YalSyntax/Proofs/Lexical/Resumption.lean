import Mathlib
import YalSyntax.Proofs.Lexical.Lossless
import YalSyntax.Proofs.Lexical.Separated

namespace YalSyntax

namespace Scan

/-- The scan after so many calls. -/
def resumed (scan : Scan) : Nat → Scan
  | 0 => scan
  | calls + 1 => scan.run.2.resumed calls

/-- What a call answers, when so many calls were made before. -/
def answer (source : String) (calls : Nat) : Except LexError (List Token) :=
  ((ofSource source).resumed calls).run.1

theorem resumed_succ (scan : Scan) (calls : Nat) :
    scan.resumed (calls + 1) = (scan.resumed calls).run.2 := by
  induction calls generalizing scan with
  | zero => rfl
  | succ calls further => exact further scan.run.2

end Scan

namespace Lexical

/-- What stands for a character that is struck out. Line feeds stay. -/
def blank (c : Char) : Char := if c = '\n' then '\n' else ' '

/-- `patched` is `text`, which stands behind `before`, with the first flaws in it struck out, so
many as `count`. A flaw is where the lexing comes to, and the lexing goes on behind it. -/
inductive Patches : Nat → List Char → List Char → List Char → Prop
  | none {before text : List Char} : Patches 0 before text text
  | flaw {count : Nat} {before clean lexeme rest patched : List Char} {tokens : List Token}
      {flaw : Flaw} (lexes : Lexes before (clean ++ (lexeme ++ rest)) tokens (before ++ clean)
        (lexeme ++ rest))
      (fails : Fails flaw lexeme rest)
      (others : Patches count (before ++ clean ++ lexeme) rest patched) :
      Patches (count + 1) before (clean ++ (lexeme ++ rest)) (clean ++ (lexeme.map blank ++ patched))

theorem Fails.head_ne_feed {flaw : Flaw} {lexeme rest : List Char} (fails : Fails flaw lexeme rest) :
    ∃ c more, lexeme = c :: more ∧ c ≠ '\n' := by
  cases fails with
  | unterminatedString | unterminatedComment => exact ⟨_, _, rfl, by decide⟩
  | malformedNumber _ _ _ _ like => cases like <;> exact ⟨_, _, rfl, by decide⟩
  | illegalCharacter noBlank =>
    refine ⟨_, _, rfl, fun feed => ?_⟩
    subst feed
    exact absurd noBlank (by decide)

theorem Skips.before_blank {item middle left other : List Char} (skips : Skips item (middle ++ left))
    (more : ∃ c ∈ left.head?, c ≠ '\n') : Skips item (middle ++ other) := by
  obtain ⟨c, ahead, plain⟩ := more
  cases skips with
  | blank blank => exact .blank blank
  | block first => exact .block first
  | line inside ends =>
    refine .line inside ?_
    cases middle with
    | nil => exact absurd (ends c ahead) plain
    | cons d middle => simpa using ends

theorem Takes.before_blank {kind : Token.Kind} {lexeme middle left other : List Char}
    (takes : Takes kind lexeme (middle ++ left)) (blank : ∀ next ∈ other.head?, isBlank next) :
    Takes kind lexeme (middle ++ other) := by
  have is := takes.longest.isLexeme
  have kept : ∀ text, text <+: lexeme ++ (middle ++ other) →
      text.length ≤ (lexeme ++ middle).length → text <+: lexeme ++ (middle ++ left) := by
    intro text opens short
    have inside : text <+: lexeme ++ middle :=
      List.prefix_of_prefix_length_le opens ⟨other, by simp⟩ short
    exact inside.trans ⟨left, by simp⟩
  cases middle with
  | nil => exact is.takes blank
  | cons next middle =>
    have room : 2 ≤ (lexeme ++ next :: middle).length := by
      have some := List.length_pos_iff.mpr takes.ne_nil
      simp only [List.length_append, List.length_cons]
      omega
    refine ⟨fun opens => takes.plain ?_, ⟨is, fun kind' longer isOther opens => ?_⟩, takes.whole⟩
    · exact opens.imp (kept _ · room) (kept _ · room)
    · obtain ⟨c, more, rfl⟩ := List.exists_cons_of_ne_nil takes.ne_nil
      obtain ⟨d, longer, rfl⟩ := List.exists_cons_of_ne_nil isOther.ne_nil
      obtain ⟨rfl, behind⟩ := List.cons_prefix_cons.mp opens
      refine takes.longest.longest kind' _ isOther (kept _ opens ?_)
      have shape := is.shape
      have otherShape := isOther.shape
      by_cases quoted : Lead.of d = .quote
      · rw [quoted] at shape otherShape
        obtain ⟨-, inner, plain, rfl⟩ := shape
        obtain ⟨-, inner', plain', rfl⟩ := otherShape
        have shorter := quote_longest plain' (by simpa using behind)
        simp only [List.length_append, List.length_cons, List.length_nil] at shorter ⊢
        omega
      · have inside : ∀ e ∈ longer, !isBlank e := by simpa using otherShape.no_blank quoted
        have shorter := length_le_of_boundary inside (by simpa using blank)
          (show longer <+: more ++ next :: middle ++ other by simpa using behind)
        simpa using shorter

theorem Lexes.up_to {before text reached left : List Char} {tokens : List Token}
    (lexes : Lexes before text tokens reached left) :
    ∃ clean, text = clean ++ left ∧ reached = before ++ clean ∧
      ∀ other : List Char, (∀ next ∈ other.head?, isBlank next) →
        (∀ item middle, Skips item (middle ++ left) → Skips item (middle ++ other)) →
          Lexes before (clean ++ other) tokens reached other := by
  induction lexes with
  | here => exact ⟨[], rfl, by simp, fun other _ _ => .here⟩
  | @skip before item rest _ _ _ skips _ further =>
    obtain ⟨clean, rfl, rfl, others⟩ := further
    refine ⟨item ++ clean, by simp, by simp, fun other blank ends => ?_⟩
    rw [List.append_assoc]
    exact .skip (ends item clean skips) (others other blank ends)
  | @token before lexeme rest _ _ _ _ takes _ further =>
    obtain ⟨clean, rfl, rfl, others⟩ := further
    refine ⟨lexeme ++ clean, by simp, by simp, fun other blank ends => ?_⟩
    rw [List.append_assoc]
    exact .token (takes.before_blank blank) (others other blank ends)

theorem Lexes.before_blank {before text reached left : List Char} {tokens : List Token}
    (lexes : Lexes before text tokens reached left) (more : ∃ c ∈ left.head?, c ≠ '\n') :
    ∃ clean, text = clean ++ left ∧ reached = before ++ clean ∧
      ∀ other : List Char, (∀ next ∈ other.head?, isBlank next) →
        Lexes before (clean ++ other) tokens reached other := by
  obtain ⟨clean, split, behind, others⟩ := lexes.up_to
  exact ⟨clean, split, behind, fun other blank =>
    others other blank fun _ _ skips => skips.before_blank more⟩

theorem isBlank_blank (c : Char) : isBlank (blank c) := by
  unfold blank
  split <;> decide

theorem next_blank (position : Position) (c : Char) : position.next (blank c) = position.next c := by
  by_cases feed : c = '\n' <;> simp [Position.next, blank, feed]

theorem run_blanks (position : Position) (text rest : List Char) (collected : List Token) :
    Scan.run ⟨position, text.map blank ++ rest, collected⟩ =
      Scan.run ⟨position.after text, rest, collected⟩ := by
  induction text generalizing position with
  | nil => rfl
  | cons c text further =>
    have first : Lexeme.first (blank c) (text.map blank ++ rest) =
        ⟨.space, [blank c], text.map blank ++ rest⟩ := by
      simp [Lexeme.first, isBlank_blank]
    rw [List.map_cons, List.cons_append, Scan.run.eq_2]
    simp only [first, Position.after_cons, Position.after_nil]
    rw [next_blank, further]

end Lexical

open Lexical

namespace Scan

theorem run_to_flaw {before text reached lexeme rest : List Char} {tokens collected : List Token}
    {flaw : Flaw} (lexes : Lexes before text tokens reached (lexeme ++ rest))
    (fails : Fails flaw lexeme rest) :
    run ⟨Position.behind before, text, collected⟩ =
      (.error (flaw.report (Position.behind reached)),
        ⟨Position.behind (reached ++ lexeme), rest, tokens.reverse ++ collected⟩) := by
  rw [lexes.run_eq collected]
  exact run_lawful reached ⟨.flaw flaw, lexeme, rest⟩ _ fails

/-- Going on behind the flaws that a text has first is scanning the text without them. -/
theorem run_resumed_of_patches {count : Nat} {before text patched : List Char}
    (patches : Patches count before text patched) (collected : List Token) :
    (resumed ⟨Position.behind before, text, collected⟩ count).run =
      run ⟨Position.behind before, patched, collected⟩ := by
  induction patches generalizing collected with
  | none => rfl
  | @flaw count before clean lexeme rest patched tokens flaw lexes fails _ further =>
    obtain ⟨c, more, rfl, plain⟩ := fails.head_ne_feed
    obtain ⟨clean', same, -, others⟩ := lexes.before_blank ⟨c, rfl, plain⟩
    obtain rfl := List.append_cancel_right same
    have blanked := others ((c :: more).map blank ++ patched) (by simp [isBlank_blank])
    rw [blanked.run_eq collected, run_blanks, Position.after_behind, resumed,
      run_to_flaw lexes fails, further]

theorem patches_of_resumed (calls : Nat) (before text : List Char) (collected : List Token)
    (failed : ∀ earlier < calls, ∃ error,
      (resumed ⟨Position.behind before, text, collected⟩ earlier).run.1 = .error error) :
    ∃ patched, Patches calls before text patched := by
  induction calls generalizing before text collected with
  | zero => exact ⟨text, .none⟩
  | succ calls further =>
    obtain ⟨error, first⟩ := failed 0 (Nat.succ_pos calls)
    rcases lexes_to_end_or_flaw before text with
      ⟨tokens, lexes⟩ | ⟨tokens, reached, lexeme, rest, flaw, lexes, fails⟩
    · rw [resumed, lexes.run_eq collected, run.eq_1] at first
      cases first
    · obtain ⟨c, more, rfl, plain⟩ := fails.head_ne_feed
      obtain ⟨clean, rfl, rfl, -⟩ := lexes.before_blank ⟨c, rfl, plain⟩
      obtain ⟨patched, patches⟩ := further (before ++ clean ++ c :: more) rest
        (tokens.reverse ++ collected) fun earlier bound => by
          have later := failed (earlier + 1) (Nat.succ_lt_succ bound)
          rwa [resumed, run_to_flaw lexes fails] at later
      exact ⟨_, .flaw lexes fails patches⟩

theorem run_position (scan : Scan) :
    scan.run.2.position.after scan.run.2.rest = scan.position.after scan.rest := by
  fun_induction run scan with
  | case1 => rfl
  | case2 position c text collected lexeme after space further =>
    rw [further, ← Lexeme.first_append c text, Position.after_append]
  | case3 position c text collected lexeme after kind token further =>
    rw [further, ← Lexeme.first_append c text, Position.after_append]
  | case4 position c text collected lexeme after flaw found =>
    rw [← Lexeme.first_append c text, Position.after_append]

theorem run_of_ok {scan : Scan} {tokens : List Token} (ended : scan.run.1 = .ok tokens) :
    scan.run.2 = ⟨scan.run.2.position, [], []⟩ := by
  fun_induction run scan with
  | case1 => rfl
  | case2 position c text collected lexeme after space further => exact further ended
  | case3 position c text collected lexeme after kind token further => exact further ended
  | case4 => cases ended

theorem run_rest_length (scan : Scan) :
    scan.run.2.rest.length + (if scan.run.1.isOk then 0 else 1) ≤ scan.rest.length := by
  fun_induction run scan with
  | case1 => exact Nat.le_refl 0
  | case2 position c text collected lexeme after space further =>
    exact Nat.le_trans further (Nat.le_of_lt (Lexeme.first_rest_length c text))
  | case3 position c text collected lexeme after kind token further =>
    exact Nat.le_trans further (Nat.le_of_lt (Lexeme.first_rest_length c text))
  | case4 position c text collected => exact Lexeme.first_rest_length c text

theorem resumed_position (scan : Scan) (calls : Nat) :
    (scan.resumed calls).position.after (scan.resumed calls).rest =
      scan.position.after scan.rest := by
  induction calls with
  | zero => rfl
  | succ calls further => rw [resumed_succ, run_position, further]

theorem failures_le (source : String) (calls : Nat) :
    (List.range calls).countP (fun call => !(answer source call).isOk) +
      ((ofSource source).resumed calls).rest.length ≤ source.length := by
  induction calls with
  | zero => simp [resumed, ofSource, String.length_toList]
  | succ calls further =>
    have taken := run_rest_length ((ofSource source).resumed calls)
    rw [List.range_succ, List.countP_append, resumed_succ]
    have one : [calls].countP (fun call => !(answer source call).isOk) =
        if ((ofSource source).resumed calls).run.1.isOk then 0 else 1 := by
      cases ended : ((ofSource source).resumed calls).run.1.isOk <;> simp [answer, ended]
    omega

theorem resumed_of_ok {source : String} {calls : Nat} {tokens : List Token}
    (ended : answer source calls = .ok tokens) (later : Nat) :
    (ofSource source).resumed (calls + 1 + later) =
      ⟨Position.behind source.toList, [], []⟩ := by
  induction later with
  | zero =>
    have same := run_of_ok ended
    have position := resumed_position (ofSource source) (calls + 1)
    rw [resumed_succ, same] at position
    rw [Nat.add_zero, resumed_succ, same]
    have start : (ofSource source).position.after (ofSource source).rest =
        Position.behind source.toList := Position.after_behind [] source.toList
    rw [start] at position
    exact congrArg (Scan.mk · [] []) position
  | succ later further => rw [← Nat.add_assoc, resumed_succ, further, run.eq_1]

end Scan

open Scan in
/-- When the first calls all failed, the next one answers what scanning the source answers with the
flaws struck out. No more calls fail than the source has characters, and behind a call that succeeds
every call answers the end token alone. -/
theorem scan_resumed (source : String) :
    (∀ calls, (∀ earlier < calls, ∃ error, answer source earlier = .error error) →
      (∃ patched, Patches calls [] source.toList patched) ∧
        ∀ patched, Patches calls [] source.toList patched →
          answer source calls = scan (String.ofList patched)) ∧
    (∀ calls, (List.range calls).countP (fun call => !(answer source call).isOk) ≤ source.length) ∧
    ∀ calls tokens, answer source calls = .ok tokens → ∀ later, calls < later →
      answer source later = .ok [Token.finishAt (Position.behind source.toList)] := by
  refine ⟨fun calls failed => ⟨?_, fun patched patches => ?_⟩, fun calls => ?_, ?_⟩
  · exact patches_of_resumed calls [] source.toList [] failed
  · have same := run_resumed_of_patches patches []
    have start : ofSource (String.ofList patched) = ⟨Position.behind [], patched, []⟩ := by
      rw [ofSource, String.toList_ofList]
      rfl
    rw [scan, start, ← same]
    rfl
  · exact Nat.le_of_add_right_le (failures_le source calls)
  · intro calls tokens ended later after
    obtain ⟨gap, rfl⟩ := Nat.exists_eq_add_of_lt after
    have reached := resumed_of_ok ended gap
    rw [answer, Nat.add_right_comm, reached, run.eq_1]
    rfl

theorem scan_resumed_behind_flaws :
    let source := "a $ 0x;\"b"
    (∀ earlier < 3, ∃ error, Scan.answer source earlier = .error error) ∧
      (∃ patched, Patches 3 [] source.toList patched ∧
        Scan.answer source 3 = scan (String.ofList patched)) ∧
      Scan.answer source 3 = .ok [⟨.identifier, "a", ⟨1, 1⟩⟩, ⟨.semicolon, ";", ⟨1, 7⟩⟩,
        ⟨.finish, "", ⟨1, 10⟩⟩] := by
  intro source
  have failed : ∀ earlier < 3, ∃ error, Scan.answer source earlier = .error error := by
    intro earlier bound
    have cases : earlier = 0 ∨ earlier = 1 ∨ earlier = 2 := by omega
    rcases cases with rfl | rfl | rfl
    · exact ⟨.illegalCharacter '$' ⟨1, 3⟩, by cbv⟩
    · exact ⟨.malformedNumber "0x" ⟨1, 5⟩, by cbv⟩
    · exact ⟨.unterminatedString ⟨1, 8⟩, by cbv⟩
  obtain ⟨⟨patched, patches⟩, same⟩ := (scan_resumed source).1 3 failed
  exact ⟨failed, ⟨patched, patches, same patched patches⟩, by cbv⟩

end YalSyntax
