import YalSyntax.Proofs.Grammar.Viability.Statement
import YalSyntax.Proofs.Parser

namespace YalSyntax

open Grammar Reading

namespace ParseError

/-- Whether the parser has taken the token that the error tells. -/
def isTaken : ParseError → Bool
  | assignmentTarget _ | suffixOperand _ _ => true
  | _ => false

def Tells (token : Token) : ParseError → Prop
  | expected _ found | expectedExpression found => found = token
  | assignmentTarget position | tooDeep position => token.position = position
  | suffixOperand operator position => token.text = operator ∧ token.position = position

end ParseError

theorem Fault.isTaken_report (fault : Fault) (found : Token) :
    (fault.report found).isTaken = fault.isPlaced := by
  cases fault <;> rfl

namespace Grammar

/-- The tokens of the stream before its first end token derive a program. -/
def Accepts (tokens : List Token) : Prop := ∃ program, Derives true (content tokens) program

/-- The error tells the token at an index, and is decided there. -/
structure Earliest (error : ParseError) (tokens : List Token) (index : Nat) : Prop where
  tells : ∃ token, (closed tokens)[index]? = some token ∧ error.Tells token
  stops : (Parser.ofTokens tokens).parse.1 = .error error ∧
    (Parser.ofTokens tokens).parse.2.cursor = if error.isTaken then index + 1 else index
  decided : ∀ others, (closed others).take (index + 1) = (closed tokens).take (index + 1) →
    parseTokens others = .error error
  viable : (∀ position, error ≠ .tooDeep position) →
    ∃ more, Accepts ((closed tokens).take index ++ more)
  hopeless : (∀ position, error ≠ .tooDeep position) → ∀ others,
    (closed others).take (index + 1) = (closed tokens).take (index + 1) → ¬ Accepts others

end Grammar

theorem Fault.At.cases {fault : Fault} {before used rest : List Token}
    (located : fault.At (used ++ rest) before rest) :
    (fault.isPlaced = true ∧ ∃ sign, used = before ++ [sign] ∧
      ∀ found, (fault.report found).Tells sign) ∨
    (fault.isPlaced = false ∧ used = before ∧ ∀ found, (fault.report found).Tells found) := by
  have behind : ∀ {sign}, used ++ rest = before ++ sign :: rest → used = before ++ [sign] :=
    fun split => List.append_cancel_right (split.trans (List.append_cons ..))
  cases fault with
  | assignmentTarget position =>
    obtain ⟨sign, split, known⟩ := located
    exact .inl ⟨rfl, sign, behind split, fun _ => known⟩
  | suffixOperand operator position =>
    obtain ⟨sign, split, known⟩ := located
    exact .inl ⟨rfl, sign, behind split, fun _ => known⟩
  | _ => exact .inr ⟨rfl, List.append_cancel_right located, fun _ => rfl⟩

namespace Reading

theorem declarations_decided {room : Allowance} {tokens rest : List Token} {fault : Fault}
    (found : declarations room [] tokens = (.error fault, rest)) :
    ∃ used, tokens = used ++ rest ∧ ∀ others, fault.isPlaced ∨ others.head? = rest.head? →
      declarations room [] (used ++ others) = (.error fault, others) := by
  obtain ⟨used, split, -, mirrors⟩ := Reader.declarations_mirrors id id room [] tokens
  have same : Token.map id id = id := rfl
  have kept : fault.map id id = fault := by cases fault <;> rfl
  rw [Reader.declarations, found] at split mirrors
  refine ⟨used, split, fun others sees => ?_⟩
  simp only [same, List.map_id, Option.map_id_fun, id_eq, mapResult, kept] at mirrors
  exact mirrors others sees

variable {tokens before rest : List Token} {fault : Fault}

theorem parseTokens_decided
    (found : declarations (.levels nestingLimit) [] (content tokens) = (.error fault, rest))
    (located : fault.At (content tokens) before rest) {others : List Token}
    (agrees : (closed others).take (before.length + 1) =
      (closed tokens).take (before.length + 1)) :
    parseTokens others = .error (fault.report (rest.headD (finishOf tokens))) := by
  obtain ⟨used, taken, again⟩ := declarations_decided found
  rw [taken] at located
  rcases located.cases with ⟨placed, sign, rfl, -⟩ | ⟨-, rfl, -⟩
  · rw [← List.append_cons] at taken
    obtain ⟨left, whole, begins, -⟩ := content_agrees taken agrees
    obtain ⟨behind, rfl⟩ := List.head?_eq_some_iff.mp begins
    have read := again behind (.inl placed)
    rw [← List.append_cons, ← whole, ← ofTokens_upcoming] at read
    rw [parseTokens, run_of_error read]
    cases fault <;> first | rfl | cases placed
  · obtain ⟨left, whole, begins, next⟩ := content_agrees taken agrees
    have read := again left (.inr begins)
    rw [← whole, ← ofTokens_upcoming] at read
    rw [parseTokens, run_of_error read, ← next]
    rfl

theorem parse_stops
    (found : declarations (.levels nestingLimit) [] (content tokens) = (.error fault, rest))
    (located : fault.At (content tokens) before rest) :
    (Parser.ofTokens tokens).parse.1 = .error (fault.report (rest.headD (finishOf tokens))) ∧
      (Parser.ofTokens tokens).parse.2.cursor =
        if fault.isPlaced then before.length + 1 else before.length := by
  obtain ⟨behind, stands⟩ := Parser.ofTokens_stands tokens
  obtain ⟨used, left, taken, after, ran⟩ := stands.parse
  simp only [run, found, Prod.mk.injEq, mk.injEq, and_true] at ran
  obtain ⟨answers, rfl⟩ := ran
  refine ⟨answers.symm, ?_⟩
  rw [after.cursor, List.nil_append]
  rw [taken] at located
  rcases located.cases with ⟨placed, sign, rfl, -⟩ | ⟨free, rfl, -⟩
  · rw [if_pos placed, List.length_append, List.length_singleton]
  · rw [if_neg (by simp [free])]

/-- The token that the error tells is the one behind those that can be continued. -/
theorem report_tells
    (found : declarations (.levels nestingLimit) [] (content tokens) = (.error fault, rest))
    (located : fault.At (content tokens) before rest) :
    ∃ token, (closed tokens)[before.length]? = some token ∧
      (fault.report (rest.headD (finishOf tokens))).Tells token := by
  obtain ⟨used, taken, -⟩ := declarations_decided found
  rw [taken] at located
  rcases located.cases with ⟨-, sign, rfl, tells⟩ | ⟨-, rfl, tells⟩
  · rw [← List.append_cons] at taken
    exact ⟨sign, (closed_take taken).2, tells _⟩
  · exact ⟨_, (closed_take taken).2, tells _⟩

theorem run_eq_error {reading : Reading} {room : Allowance} {error : ParseError}
    (read : (reading.run room).1 = .error error) :
    ∃ fault rest, declarations room [] reading.upcoming = (.error fault, rest) ∧
      error = fault.report (rest.headD reading.finish) := by
  rcases found : declarations room [] reading.upcoming with ⟨fault | program, rest⟩
  · rw [run_of_error found] at read
    cases read
    exact ⟨fault, rest, rfl, rfl⟩
  · rw [run_of_ok found] at read
    cases read

end Reading

theorem not_accepts_of_error {tokens : List Token} {error : ParseError}
    (failed : parseTokens tokens = .error error) (shallow : ∀ position, error ≠ .tooDeep position) :
    ¬ Accepts tokens := by
  rintro ⟨program, derived⟩
  obtain ⟨depth, -, reads, fails⟩ := parseTokens_of_derives derived
  rcases Nat.lt_or_ge nestingLimit depth with lack | covered
  · obtain ⟨position, deep⟩ := fails lack
    rw [failed, Except.error.injEq] at deep
    exact shallow position deep
  · rw [reads covered] at failed
    cases failed

theorem accepts_of_viable {before : List Token} (plain : ∀ token ∈ before, token.kind ≠ .finish)
    (viable : (Phrase.of (Declarations true)).Viable before) : ∃ more, Accepts (before ++ more) := by
  obtain ⟨more, plain', completes⟩ := viable
  obtain ⟨body, derived⟩ := completes []
  refine ⟨more, ⟨body⟩, ?_⟩
  rw [List.append_nil] at derived
  rw [content_of_plain fun token member => ?_]
  · exact derived
  · exact (List.mem_append.mp member).elim (plain token) (plain' token)

/-- The error of a reading tells a token that is the first one with which no stream of the grammar
goes on. The parser stops there, behind the token where that is the operator it refuses, and answers
every stream that begins with the same tokens with the same error. -/
theorem parseTokens_error_earliest (tokens : List Token) (error : ParseError)
    (failed : parseTokens tokens = .error error) : ∃ index, Earliest error tokens index := by
  obtain ⟨fault, rest, found, rfl⟩ := run_eq_error failed
  rw [ofTokens_upcoming] at found
  have follows := Reader.declarations_follows (.levels nestingLimit) [] (content tokens)
  rw [Follows, Reader.declarations, found] at follows
  obtain ⟨before, located, viable⟩ := follows
  obtain ⟨left, split⟩ := located.split
  have deep : (∀ position, fault.report (rest.headD (finishOf tokens)) ≠ .tooDeep position) →
      fault ≠ .tooDeep := by
    rintro shallow rfl
    exact shallow _ rfl
  refine ⟨before.length, report_tells found located, ?_, fun others => ?_, fun shallow => ?_,
    fun shallow others agrees => ?_⟩
  · rw [Fault.isTaken_report]
    exact parse_stops found located
  · exact parseTokens_decided found located
  · rw [(closed_take split).1]
    have plain : ∀ token ∈ before, token.kind ≠ .finish := fun token member =>
      content_plain tokens token (split ▸ List.mem_append_left left member)
    exact accepts_of_viable plain (viable (deep shallow))
  · exact not_accepts_of_error (parseTokens_decided found located agrees) shallow

/-- In `x + 1 = 2;` the `=` is refused, and it has been taken. -/
theorem parseTokens_error_earliest_assignment :
    let tokens : List Token := [⟨.identifier, "x", ⟨1, 1⟩⟩, ⟨.plus, "+", ⟨1, 3⟩⟩,
      ⟨.decimalNumber, "1", ⟨1, 5⟩⟩, ⟨.equal, "=", ⟨1, 7⟩⟩, ⟨.decimalNumber, "2", ⟨1, 9⟩⟩,
      ⟨.semicolon, ";", ⟨1, 10⟩⟩]
    let failure : ParseError := .assignmentTarget ⟨1, 7⟩
    parseTokens tokens = .error failure ∧ (Parser.ofTokens tokens).parse.2.cursor = 4 ∧
      Earliest failure tokens 3 := by
  intro tokens failure
  have failed : parseTokens tokens = .error failure := by cbv
  have cursor : (Parser.ofTokens tokens).parse.2.cursor = 4 := by cbv
  obtain ⟨index, earliest⟩ := parseTokens_error_earliest tokens failure failed
  obtain rfl : index = 3 := by
    have stops := earliest.stops.2
    rw [cursor] at stops
    exact (Nat.succ.inj stops).symm
  exact ⟨failed, cursor, earliest⟩

end YalSyntax
