import Mathlib
import YalSyntax.Proofs.CommandLine
import YalSyntax.Proofs.Grammar.Earliest
import YalSyntax.Proofs.Lexical.Order
import YalSyntax.Proofs.Rendering.RoundTrip

namespace YalSyntax

open Lexical Reading

namespace Position

theorem behind_inj {first rest other rest' : List Char} (same : first ++ rest = other ++ rest')
    (place : behind first = behind other) : first = other := by
  have irrefl : ∀ position : Position, ¬ position < position := fun position => by
    rw [lt_iff]
    omega
  rcases List.append_eq_append_iff.mp same with ⟨gap, rfl, -⟩ | ⟨gap, rfl, -⟩
  · by_cases none : gap = []
    · rw [none, List.append_nil]
    · have onward := behind_lt_append first none
      rw [place] at onward
      exact absurd onward (irrefl _)
  · by_cases none : gap = []
    · rw [none, List.append_nil]
    · have onward := behind_lt_append other none
      rw [place] at onward
      exact absurd onward (irrefl _)

end Position

namespace Excerpt

inductive Ending (line : List Char) : List Char → Prop
  | finish : Ending line []
  | feed {below : List Char} (plain : line.getLast? ≠ some '\r') : Ending line ('\n' :: below)
  | returnFeed {below : List Char} : Ending line ('\r' :: '\n' :: below)

/-- The line of the place between `before` and `rest`: `left` of the place and `right` of it. -/
structure OnLine (before rest left right : List Char) : Prop where
  starts : ∃ above, before = above ++ left ∧ (above = [] ∨ above.getLast? = some '\n')
  plain : '\n' ∉ left ++ right
  ends : ∃ below, rest = right ++ below ∧ Ending (left ++ right) below
  here : right.head? = rest.head?

theorem linesAfter_append {body : List Char} (plain : '\n' ∉ body) (read rest : List Char) :
    linesAfter read (body ++ rest) = linesAfter (body.reverse ++ read) rest := by
  induction body generalizing read with
  | nil => rfl
  | cons c body further =>
    have other : c ≠ '\n' := fun same => plain (same ▸ List.mem_cons_self)
    rw [List.cons_append, linesAfter, if_neg other,
      further (List.not_mem_of_not_mem_cons plain)]
    simp

theorem linesAfter_getElem? (above read text : List Char) (index : Nat) :
    (linesAfter read (above ++ '\n' :: text))[above.count '\n' + 1 + index]? =
      (lines text)[index]? := by
  induction above generalizing read with
  | nil =>
    rw [List.nil_append, linesAfter, if_pos rfl, List.count_nil, Nat.zero_add, Nat.add_comm,
      List.getElem?_cons_succ]
    rfl
  | cons c above further =>
    rw [List.cons_append, linesAfter]
    by_cases feed : c = '\n'
    · rw [if_pos feed, feed, List.count_cons_self, Nat.add_right_comm, List.getElem?_cons_succ]
      exact further []
    · rw [if_neg feed, List.count_cons_of_ne feed]
      exact further (c :: read)

theorem lines_head? {line below : List Char} (plain : '\n' ∉ line) (ends : Ending line below) :
    (lines (line ++ below))[0]? = if line ++ below = [] then none else some line := by
  rw [lines, linesAfter_append plain, List.append_nil]
  cases ends with
  | finish =>
    cases line <;> simp [linesAfter]
  | feed noReturn =>
    have kept : line.reverse.head? ≠ some '\r' := by rwa [List.head?_reverse]
    rw [linesAfter, if_pos rfl, if_neg kept]
    simp
  | returnFeed =>
    rw [linesAfter, if_neg (by decide), linesAfter, if_pos rfl]
    simp

theorem exists_lastLine (before : List Char) :
    ∃ above left, before = above ++ left ∧ '\n' ∉ left ∧
      (above = [] ∨ above.getLast? = some '\n') := by
  induction before using List.reverseRecOn with
  | nil => exact ⟨[], [], rfl, List.not_mem_nil, .inl rfl⟩
  | append_singleton before c further =>
    by_cases feed : c = '\n'
    · exact ⟨before ++ [c], [], by simp, List.not_mem_nil, .inr (by simp [feed])⟩
    · obtain ⟨above, left, rfl, plain, starts⟩ := further
      refine ⟨above, left ++ [c], by simp, fun member => ?_, starts⟩
      rcases List.mem_append.mp member with inside | last
      · exact plain inside
      · exact feed (List.mem_singleton.mp last).symm

theorem exists_ending {front rest : List Char}
    (before : rest.head? = some '\n' → front.getLast? ≠ some '\r') :
    ∃ right below, rest = right ++ below ∧ '\n' ∉ right ∧ Ending (front ++ right) below := by
  induction rest generalizing front with
  | nil => exact ⟨[], [], rfl, List.not_mem_nil, .finish⟩
  | cons c rest further =>
    by_cases feed : c = '\n'
    · subst feed
      refine ⟨[], '\n' :: rest, rfl, List.not_mem_nil, ?_⟩
      rw [List.append_nil]
      exact .feed (before rfl)
    · by_cases returns : c = '\r' ∧ rest.head? = some '\n'
      · obtain ⟨rfl, ahead⟩ := returns
        obtain ⟨below, rfl⟩ := List.head?_eq_some_iff.mp ahead
        exact ⟨[], '\r' :: '\n' :: below, rfl, List.not_mem_nil, .returnFeed⟩
      · obtain ⟨right, below, rfl, plain, ends⟩ := @further (front ++ [c]) fun ahead last => by
          rw [List.getLast?_concat, Option.some.injEq] at last
          exact returns ⟨last, ahead⟩
        refine ⟨c :: right, below, rfl, ?_, by simpa using ends⟩
        exact List.not_mem_cons_of_ne_of_not_mem (Ne.symm feed) plain

theorem exists_onLine (before : List Char) {rest : List Char}
    (visible : ∀ c ∈ rest.head?, c ≠ '\n' ∧ c ≠ '\r') :
    ∃ left right, OnLine before rest left right := by
  obtain ⟨above, left, rfl, plain, starts⟩ := exists_lastLine before
  obtain ⟨right, below, rfl, plain', ends⟩ := @exists_ending left rest fun feed =>
    absurd rfl (visible '\n' feed).1
  refine ⟨left, right, ⟨above, rfl, starts⟩, ?_, ⟨below, rfl, ends⟩, ?_⟩
  · exact fun member => (List.mem_append.mp member).elim plain plain'
  · cases right with
    | cons => rfl
    | nil =>
      cases ends with
      | finish => rfl
      | feed => exact absurd rfl (visible '\n' rfl).1
      | returnFeed => exact absurd rfl (visible '\r' rfl).2

namespace OnLine

variable {before rest left right : List Char}

theorem lines_getElem? (on : OnLine before rest left right) :
    (lines (before ++ rest))[before.count '\n']? =
      if left ++ right = [] then none else some (left ++ right) := by
  obtain ⟨⟨above, rfl, starts⟩, plain, ⟨below, rfl, ends⟩, here⟩ := on
  have leftPlain : '\n' ∉ left := fun member => plain (List.mem_append_left right member)
  have none : (left ++ right) ++ below = [] ↔ left ++ right = [] := by
    refine ⟨fun empty => (List.append_eq_nil_iff.mp empty).1, fun empty => ?_⟩
    obtain ⟨rfl, rfl⟩ := List.append_eq_nil_iff.mp empty
    exact List.head?_eq_none_iff.mp here.symm
  have first := lines_head? plain ends
  simp only [none] at first
  rw [List.count_append, List.count_eq_zero.mpr leftPlain, Nat.add_zero, ← first]
  rcases starts with rfl | last
  · simp
  · obtain ⟨above, rfl⟩ := List.getLast?_eq_some_iff.mp last
    have counted := linesAfter_getElem? above [] (left ++ right ++ below) 0
    simpa [lines] using counted

theorem column (on : OnLine before rest left right) :
    (Position.behind before).column = 1 + left.length := by
  obtain ⟨⟨above, rfl, starts⟩, plain, -, -⟩ := on
  have leftPlain : '\n' ∉ left := fun member => plain (List.mem_append_left right member)
  have ended : above.reverse.takeWhile (· ≠ '\n') = [] := by
    rcases starts with rfl | last
    · rfl
    · obtain ⟨above, rfl⟩ := List.getLast?_eq_some_iff.mp last
      simp
  have inside : ∀ c ∈ left.reverse, decide (c ≠ '\n') := fun c member =>
    forall_ne_of_not_mem leftPlain c (List.mem_reverse.mp member)
  rw [Position.behind, List.reverse_append, List.takeWhile_append_of_pos inside, ended]
  simp

end OnLine

def upper (left right : List Char) : List Char := ' ' :: ' ' :: (left ++ right)

def lower (left : List Char) : List Char := List.replicate (2 + left.length) ' ' ++ ['^']

theorem render?_of_onLine {source : String} {before rest left right : List Char}
    (whole : source.toList = before ++ rest) (on : OnLine before rest left right) :
    render? source (Position.behind before) =
      if left ++ right = [] then none
      else some (String.ofList (upper left right) ++ "\n" ++ String.ofList (lower left)) := by
  have line : (Position.behind before).line = before.count '\n' + 1 := Nat.add_comm ..
  rw [render?, line, if_neg (Nat.succ_ne_zero _), Nat.add_sub_cancel, whole, on.lines_getElem?,
    on.column, Nat.add_sub_cancel_left]
  split
  · rfl
  · rw [Option.map_some, Option.some.injEq, ← String.toList_inj]
    simp [upper, lower, List.replicate_add]

end Excerpt

namespace SyntaxError

/-- The text that an error concerns, behind what stands before it in the source: a flawed lexeme, or
the token that the error tells of. -/
inductive Concerns (source : String) : SyntaxError → List Char → List Char → List Char → Prop
  | lexeme {tokens : List Token} {before lexeme rest : List Char} {flaw : Flaw}
      (lexes : Lexes [] source.toList tokens before (lexeme ++ rest))
      (fails : Fails flaw lexeme rest) :
      Concerns source (.lex (flaw.report (Position.behind before))) before lexeme rest
  | token {tokens : List Token} {token : Token} {before rest : List Char} {error : ParseError}
      (scanned : scan source = .ok tokens) (member : token ∈ tokens) (tells : error.Tells token)
      (whole : source.toList = before ++ (token.text.toList ++ rest))
      (stands : token.position = Position.behind before) :
      Concerns source (.parse error) before token.text.toList rest

end SyntaxError

theorem ParseError.position_of_tells {error : ParseError} {token : Token}
    (tells : error.Tells token) : error.position = token.position := by
  cases error with
  | expected | expectedExpression => exact congrArg Token.position tells
  | assignmentTarget | tooDeep => exact tells.symm
  | suffixOperand => exact tells.2.symm

namespace Lexical

theorem Fails.not_blank {flaw : Flaw} {lexeme rest : List Char} (fails : Fails flaw lexeme rest) :
    ∀ c ∈ lexeme.head?, ¬ isBlank c := by
  cases fails with
  | unterminatedString | unterminatedComment => simp [isBlank]
  | malformedNumber _ _ _ _ like => cases like <;> simp [isBlank]
  | illegalCharacter noBlank => simp [noBlank]

theorem Lexes.stands {before text reached left : List Char} {tokens : List Token}
    (lexes : Lexes before text tokens reached left) {token : Token} (member : token ∈ tokens) :
    ∃ gone rest, before ++ text = gone ++ (token.text.toList ++ rest) ∧
      token.position = Position.behind gone ∧ IsLexeme token.kind token.text.toList := by
  induction lexes with
  | here => cases member
  | skip _ _ further =>
    rw [← List.append_assoc]
    exact further member
  | @token before lexeme rest _ _ kind _ takes _ further =>
    rcases List.mem_cons.mp member with rfl | member
    · refine ⟨before, rest, ?_, rfl, ?_⟩
      · simp
      · simpa using takes.longest.isLexeme
    · rw [← List.append_assoc]
      exact further member

end Lexical

theorem before_ne {text before lexeme rest : List Char} (whole : text = before ++ (lexeme ++ rest))
    (some : lexeme ≠ []) : before ≠ text := by
  rintro rfl
  have none := List.append_cancel_left ((List.append_nil _).trans whole)
  exact some (List.append_eq_nil_iff.mp none.symm).1

theorem scanned_stands {source : String} {tokens : List Token} (scanned : scan source = .ok tokens)
    {token : Token} (member : token ∈ tokens) :
    ∃ before rest, source.toList = before ++ (token.text.toList ++ rest) ∧
      token.position = Position.behind before ∧ (∀ c ∈ token.text.toList.head?, ¬ isBlank c) ∧
      (token.text.toList = [] ↔ before = source.toList) := by
  obtain ⟨found, lexes, rfl⟩ := lexes_of_scan scanned
  rcases List.mem_append.mp member with member | isLast
  · obtain ⟨before, rest, whole, stands, is⟩ := lexes.stands member
    refine ⟨before, rest, whole, stands, fun c first => ?_, ?_⟩
    · obtain ⟨more, spelled⟩ := List.head?_eq_some_iff.mp first
      rw [spelled] at is
      exact is.not_blank
    · exact ⟨fun none => absurd none is.ne_nil, fun all => absurd all (before_ne whole is.ne_nil)⟩
  · rw [List.mem_singleton.mp isLast]
    exact ⟨source.toList, [], by simp [Token.finishAt], rfl, by simp [Token.finishAt], by
      simp [Token.finishAt]⟩

theorem told_of_parseTokens {source : String} {tokens : List Token} {error : ParseError}
    (scanned : scan source = .ok tokens) (failed : parseTokens tokens = .error error) :
    ∃ token ∈ tokens, error.Tells token := by
  obtain ⟨found, lexes, rfl⟩ := lexes_of_scan scanned
  obtain ⟨fault, rest, stopped, rfl⟩ := run_eq_error failed
  rw [ofTokens_upcoming] at stopped
  have follows := Reader.declarations_follows (.levels nestingLimit) []
    (content (found ++ [.finishAt (Position.behind source.toList)]))
  rw [Follows, Reader.declarations, stopped] at follows
  obtain ⟨before, located, -⟩ := follows
  obtain ⟨token, there, tells⟩ := report_tells stopped located
  have finished : closed (found ++ [.finishAt (Position.behind source.toList)]) =
      found ++ [.finishAt (Position.behind source.toList)] := by
    simp [closed, Token.finishAt]
  rw [finished] at there
  exact ⟨token, List.mem_of_getElem? there, tells⟩

/-- What fails concerns a text at the position that is reported. -/
theorem concerns_of_parseSource {source : String} {error : SyntaxError}
    (failed : parseSource source = .error error) :
    ∃ before lexeme rest, error.Concerns source before lexeme rest ∧
      source.toList = before ++ (lexeme ++ rest) ∧ error.position = Position.behind before ∧
      (∀ c ∈ lexeme.head?, ¬ isBlank c) ∧ (lexeme = [] ↔ before = source.toList) := by
  cases scanned : scan source with
  | error flawed =>
    rw [parseSource, scanned] at failed
    obtain rfl := Except.error.inj failed
    obtain ⟨tokens, before, lexeme, rest, flaw, lexes, fails, rfl⟩ := flaw_of_scan scanned
    have whole : source.toList = before ++ (lexeme ++ rest) := lexes.keeps
    refine ⟨before, lexeme, rest, .lexeme lexes fails, whole, ?_, fails.not_blank, ?_⟩
    · cases flaw <;> rfl
    · exact ⟨fun none => absurd none fails.ne_nil, fun all => absurd all (before_ne whole fails.ne_nil)⟩
  | ok tokens =>
    rw [parseSource_of_scan scanned] at failed
    cases parsed : parseTokens tokens with
    | ok program =>
      rw [parsed] at failed
      cases failed
    | error stopped =>
      rw [parsed] at failed
      obtain rfl := Except.error.inj failed
      obtain ⟨token, member, tells⟩ := told_of_parseTokens scanned parsed
      obtain ⟨before, rest, whole, stands, visible, ended⟩ := scanned_stands scanned member
      have place := (ParseError.position_of_tells tells).trans stands
      exact ⟨before, _, rest, .token scanned member tells whole stands, whole, place, visible, ended⟩

theorem ne_nil_of_parseSource {source : String} {error : SyntaxError}
    (failed : parseSource source = .error error) : source.toList ≠ [] := by
  intro empty
  have none : source = "" := String.toList_inj.mp empty
  subst none
  have read : parseSource "" = .ok ⟨[]⟩ := by cbv
  rw [read] at failed
  cases failed

namespace CommandLine

theorem parseSource_of_document {options : Options} {source : String} {error : SyntaxError}
    (failed : options.document source = .error error) : parseSource source = .error error := by
  unfold Options.document at failed
  split at failed
  · cases scanned : scan source with
    | ok tokens =>
      rw [scanned] at failed
      cases failed
    | error flawed =>
      rw [scanned] at failed
      obtain rfl := Except.error.inj failed
      rw [parseSource, scanned]
  · cases parsed : parseSource source with
    | ok program =>
      rw [parsed] at failed
      cases failed
    | error stopped =>
      rw [parsed] at failed
      obtain rfl := Except.error.inj failed
      rfl

theorem report_of_onLine {source : String} {error : SyntaxError} {before rest left right : List Char}
    (whole : source.toList = before ++ rest) (place : error.position = Position.behind before)
    (on : Excerpt.OnLine before rest left right) :
    error.report source = if left ++ right = [] then error.message ++ "\n"
      else error.message ++ "\n" ++ (String.ofList (Excerpt.upper left right) ++ "\n" ++
        String.ofList (Excerpt.lower left)) ++ "\n" := by
  rw [SyntaxError.report, place, Excerpt.render?_of_onLine whole on]
  split_ifs <;> rfl

theorem left_eq_nil_iff {before left right : List Char} (some : before ≠ [])
    (on : Excerpt.OnLine before [] left right) : left = [] ↔ before.getLast? = .some '\n' := by
  obtain ⟨⟨above, rfl, starts⟩, plain, -, -⟩ := on
  constructor
  · rintro rfl
    rw [List.append_nil] at some ⊢
    exact starts.resolve_left some
  · intro last
    by_contra inside
    rw [List.getLast?_append_of_ne_nil _ inside] at last
    exact plain (List.mem_append_left right (List.mem_of_getLast? last))

/-- When a source cannot be scanned or read, the command shows the line on which the error stands,
as it is without its ending, and below it a caret. The caret stands under the first character of the
lexeme or token that the error concerns. If the error concerns the end of the source, the caret
stands behind the last character of the last line, and if the source ends with a line feed there is
no line to show. -/
theorem caret_stands_under {options : Options} {source : String} {error : SyntaxError}
    (failed : options.document source = .error error) :
    ∃ before lexeme rest left right, error.Concerns source before lexeme rest ∧
      source.toList = before ++ (lexeme ++ rest) ∧
      (∀ other behind, source.toList = other ++ behind →
        (error.position = Position.behind other ↔ other = before)) ∧
      Excerpt.OnLine before (lexeme ++ rest) left right ∧
      let upper := Excerpt.upper left right
      let excerpt := String.ofList upper ++ "\n" ++ String.ofList (Excerpt.lower left)
      let shown := error.message ++ "\n" ++ excerpt ++ "\n"
      let errors := (options.answerText source).errors
      (before ≠ source.toList →
        errors = shown ∧ lexeme ≠ [] ∧ upper[2 + left.length]? = lexeme.head?) ∧
      (before = source.toList → upper.length = 2 + left.length ∧
        errors = if source.toList.getLast? = some '\n' then error.message ++ "\n" else shown) := by
  have stopped := parseSource_of_document failed
  obtain ⟨before, lexeme, rest, concerns, whole, place, visible, ended⟩ :=
    concerns_of_parseSource stopped
  have none : before = source.toList → lexeme ++ rest = [] := fun all =>
    List.append_cancel_left ((whole.symm.trans all.symm).trans (List.append_nil _).symm)
  have shownChar : ∀ c ∈ (lexeme ++ rest).head?, c ≠ '\n' ∧ c ≠ '\r' := by
    intro c first
    by_cases all : before = source.toList
    · rw [none all] at first
      cases first
    · rw [List.head?_append_of_ne_nil _ (mt ended.mp all)] at first
      have noBlank := visible c first
      constructor <;> rintro rfl <;> exact noBlank rfl
  obtain ⟨left, right, on⟩ := Excerpt.exists_onLine before shownChar
  have printed : (options.answerText source).errors = error.report source := by
    rw [Options.answerText, failed]
  have reported := report_of_onLine whole place on
  refine ⟨before, lexeme, rest, left, right, concerns, whole, fun other behind split => ?_, on, ?_, ?_⟩
  · rw [place]
    refine ⟨fun same => ?_, fun same => by rw [same]⟩
    exact Position.behind_inj (split.symm.trans whole) same.symm
  · intro inside
    have some := mt ended.mp inside
    have head : right.head? = lexeme.head? := by
      rw [on.here, List.head?_append_of_ne_nil _ some]
    have visible : right ≠ [] := by
      rintro rfl
      exact some (List.head?_eq_none_iff.mp head.symm)
    rw [printed, reported, if_neg (by simp [visible])]
    refine ⟨rfl, some, ?_⟩
    rw [← head, Nat.add_comm 2]
    simp [Excerpt.upper, List.head?_eq_getElem?, List.getElem?_append_right]
  · intro all
    have empty := none all
    rw [empty] at on
    obtain rfl : right = [] := List.head?_eq_none_iff.mp on.here
    have edge := left_eq_nil_iff (all ▸ ne_nil_of_parseSource stopped) on
    rw [printed, reported, ← all]
    refine ⟨by simp [Excerpt.upper, Nat.add_comm 2], ?_⟩
    simp only [List.append_nil, edge]

theorem caret_stands_under_number :
    let source := "a = \"é\r\nü\" 5;\r\nb"
    let error : SyntaxError := .parse (.expected .semicolon ⟨.decimalNumber, "5", ⟨2, 4⟩⟩)
    Options.document ⟨"-", false, false⟩ source = .error error ∧
      (∃ before lexeme rest left right, error.Concerns source before lexeme rest ∧
        Excerpt.OnLine before (lexeme ++ rest) left right) ∧
      (Options.answerText ⟨"-", false, false⟩ source).errors =
        error.message ++ "\n" ++ "  ü\" 5;\n     ^" ++ "\n" := by
  intro source error
  have failed : Options.document ⟨"-", false, false⟩ source = .error error := by cbv
  have shown : Excerpt.render? source ⟨2, 4⟩ = some "  ü\" 5;\n     ^" := by cbv
  obtain ⟨before, lexeme, rest, left, right, concerns, -, -, on, -⟩ := caret_stands_under failed
  refine ⟨failed, ⟨before, lexeme, rest, left, right, concerns, on⟩, ?_⟩
  rw [Options.answerText, failed]
  simp only [SyntaxError.report, show error.position = ⟨2, 4⟩ from rfl, shown]

end CommandLine

end YalSyntax
