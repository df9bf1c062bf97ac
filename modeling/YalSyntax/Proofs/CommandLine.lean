import YalSyntax.CommandLine
import YalSyntax.Proofs.Encoding
import YalSyntax.Proofs.Json.Reader

namespace YalSyntax

namespace CommandLine

/-- The arguments that name the standard input, with the two options that matter for it. -/
def settings (tokens compact : Bool) : List String :=
  (if tokens then ["--tokens"] else []) ++ (if compact then ["--compact"] else []) ++ ["-"]

/-- What is asked for: the tokens of a source, or its program. -/
def outcome (tokens : Bool) (source : String) : Except SyntaxError (List Token ⊕ Program) :=
  if tokens then ((scan source).mapError .lex).map .inl else (parseSource source).map .inr

def encode : List Token ⊕ Program → Json
  | .inl tokens => .array (tokens.map Token.toJson)
  | .inr program => program.toJson

def decode? (document : Json) : Option (List Token ⊕ Program) :=
  match document.node? with
  | some (.program program) => some (.inr program)
  | some node => (node.list? Node.token?).map .inl
  | none => none

theorem decode?_encode (value : List Token ⊕ Program) : decode? (encode value) = some value := by
  cases value with
  | inl tokens =>
    have listed := Json.nodes?_map Token.node?_toJson tokens
    have back : Node.list? Node.token? (.list (tokens.map .token)) = some tokens :=
      Node.list?_map Node.token (fun _ => rfl) tokens
    rw [decode?, encode, Json.node?_array, listed]
    exact congrArg (Option.map Sum.inl) back
  | inr program => rw [decode?, encode, program.node?_toJson]

theorem document_eq (options : Options) (source : String) :
    options.document source = (outcome options.tokens source).map encode := by
  unfold Options.document outcome
  split
  · cases scan source <;> rfl
  · cases parseSource source <;> rfl

/-- What is read back from an output. -/
def readBack? (output : String) : Option (List Token ⊕ Program) := (Json.read? output).bind decode?

theorem readBack?_render (layout : Json.Layout) (value : List Token ⊕ Program) :
    readBack? ((encode value).render layout ++ "\n") = some value := by
  have blank : ∀ c ∈ "\n".toList, Json.isSpace c := by simp [Json.isSpace]
  rw [readBack?, Json.read?_render_append layout (encode value) blank, Option.bind_some,
    decode?_encode]

theorem readArguments_of_perm {tokens compact : Bool} {arguments : List String}
    (set : arguments.Perm (settings tokens compact)) :
    readArguments arguments = .ok ⟨"-", tokens, compact⟩ := by
  have listed := List.mem_permutations'.mpr set
  cases tokens <;> cases compact
  all_goals simp [settings, List.permutations'] at listed
  · subst listed
    rfl
  · rcases listed with rfl | rfl <;> rfl
  · rcases listed with rfl | rfl <;> rfl
  · rcases listed with rfl | rfl | rfl | rfl | rfl | rfl <;> rfl

theorem fromUTF8?_toUTF8 (source : String) : String.fromUTF8? source.toUTF8 = some source :=
  dif_pos source.isValidUTF8

section

variable {tokens compact : Bool} {arguments : List String}
  {read : String → Except ReadFailure ByteArray} {source : String}

theorem answer_eq (set : arguments.Perm (settings tokens compact))
    (given : read "-" = .ok source.toUTF8) :
    answer read arguments = Options.answerText ⟨"-", tokens, compact⟩ source := by
  rw [answer, readArguments_of_perm set]
  simp only [Options.answer, given, fromUTF8?_toUTF8]

theorem answer_of_ok (set : arguments.Perm (settings tokens compact))
    (given : read "-" = .ok source.toUTF8) {value : List Token ⊕ Program}
    (found : outcome tokens source = .ok value) :
    answer read arguments =
      ⟨0, (encode value).render (Options.layout ⟨"-", tokens, compact⟩) ++ "\n", ""⟩ := by
  rw [answer_eq set given, Options.answerText, document_eq, found]
  rfl

theorem answer_of_error (set : arguments.Perm (settings tokens compact))
    (given : read "-" = .ok source.toUTF8) {error : SyntaxError}
    (failed : outcome tokens source = .error error) :
    answer read arguments = ⟨1, "", error.report source⟩ := by
  rw [answer_eq set given, Options.answerText, document_eq, failed]
  rfl

end

theorem report_starts (source : String) (error : SyntaxError) :
    ∃ excerpt, error.report source = error.message ++ "\n" ++ excerpt := by
  unfold SyntaxError.report
  split
  · exact ⟨"", by simp⟩
  · rename_i excerpt _
    exact ⟨excerpt ++ "\n", by simp [String.append_assoc]⟩

/-- The command answers with the tokens of its input, or with its program, and nothing of them is
lost: what it prints, on one line or indented, is one document and a line feed, and the tokens or
the program are read back from it. If there are none, it reports why. -/
theorem answer_exact {tokens compact : Bool} {arguments : List String}
    {read : String → Except ReadFailure ByteArray} {source : String}
    (set : arguments.Perm (settings tokens compact)) (given : read "-" = .ok source.toUTF8) :
    let found := outcome tokens source
    let answer := answer read arguments
    (answer.code = 0 ↔ ∃ value, found = .ok value) ∧
    (∀ value, found = .ok value →
      answer.errors = "" ∧ readBack? answer.output = some value ∧
      ∃ text document, answer.output = text ++ "\n" ∧ Json.read? text = some document ∧
        (compact → '\n' ∉ text.toList)) ∧
    (∀ error, found = .error error →
      answer.code = 1 ∧ answer.output = "" ∧
      ∃ excerpt, answer.errors = error.message ++ "\n" ++ excerpt) ∧
    ∀ tokens' compact' arguments' read' source', arguments'.Perm (settings tokens' compact') →
      read' "-" = .ok source'.toUTF8 → answer.code = 0 →
      (CommandLine.answer read' arguments').output = answer.output →
      outcome tokens' source' = found := by
  intro found answer
  have answered : ∀ value, found = .ok value → answer.code = 0 ∧ answer.errors = "" ∧
      readBack? answer.output = some value ∧ ∃ text document, answer.output = text ++ "\n" ∧
        Json.read? text = some document ∧ (compact → '\n' ∉ text.toList) := by
    intro value holds
    rw [show answer = _ from answer_of_ok set given holds]
    refine ⟨rfl, rfl, readBack?_render _ value, _, encode value, rfl,
      Json.read?_render _ (encode value), fun one => ?_⟩
    rw [Options.layout, if_pos one]
    exact Json.lineFeed_notMem_render (encode value)
  have failed : ∀ error, found = .error error → answer = ⟨1, "", error.report source⟩ :=
    fun error fails => answer_of_error set given fails
  refine ⟨⟨fun zero => ?_, fun ⟨value, holds⟩ => (answered value holds).1⟩,
    fun value holds => (answered value holds).2, fun error fails => ?_, ?_⟩
  · cases result : found with
    | ok value => exact ⟨value, rfl⟩
    | error error =>
      rw [failed error result] at zero
      cases zero
  · rw [failed error fails]
    exact ⟨rfl, rfl, report_starts source error⟩
  · intro tokens' compact' arguments' read' source' set' given' zero same
    cases result : found with
    | error error =>
      rw [failed error result] at zero
      cases zero
    | ok value =>
      obtain ⟨-, -, back, -⟩ := answered value result
      cases result' : outcome tokens' source' with
      | ok value' =>
        rw [← same, answer_of_ok set' given' result', readBack?_render] at back
        rw [Option.some.inj back]
      | error error =>
        rw [← same, answer_of_error set' given' result'] at back
        cases back

theorem answer_exact_of_quoted :
    let source := "\"a\n\\\""
    let read : String → Except ReadFailure ByteArray := fun _ => .ok source.toUTF8
    let arguments := ["-", "--compact", "--tokens"]
    let tokens : List Token := [⟨.quoted, source, ⟨1, 1⟩⟩, ⟨.finish, "", ⟨2, 3⟩⟩]
    arguments.Perm (settings true true) ∧ read "-" = .ok source.toUTF8 ∧
      (answer read arguments).code = 0 ∧
      readBack? (answer read arguments).output = some (.inl tokens) ∧
      ∃ text, (answer read arguments).output = text ++ "\n" ∧ '\n' ∉ text.toList := by
  intro source read arguments tokens
  have set : arguments.Perm (settings true true) := by decide
  have given : read "-" = .ok source.toUTF8 := rfl
  have found : outcome true source = .ok (.inl tokens) := by cbv
  obtain ⟨succeeds, printed, -, -⟩ := answer_exact set given
  obtain ⟨-, back, text, document, whole, -, one⟩ := printed _ found
  exact ⟨set, given, succeeds.mpr ⟨_, found⟩, back, text, whole, one rfl⟩

end CommandLine

end YalSyntax
