import YalSyntax.Proofs.Parser

namespace YalSyntax

open Reading

section

variable (text : String → String) (place : Position → Position)

def ParseError.map : ParseError → ParseError
  | expected kind found => expected kind (found.map text place)
  | expectedExpression found => expectedExpression (found.map text place)
  | assignmentTarget position => assignmentTarget (place position)
  | suffixOperand operator position => suffixOperand (text operator) (place position)
  | tooDeep position => tooDeep (place position)

def mapAnswer : Except ParseError Program → Except ParseError Program
  | .ok program => .ok (program.map text place)
  | .error error => .error (error.map text place)

theorem Fault.report_map (fault : Fault) (found : Token) :
    (fault.map text place).report (found.map text place) =
      (fault.report found).map text place := by
  cases fault <;> rfl

theorem Mirrors.apply {α β : Type} {change : α → β} {reader : Reader α} {image : Reader β}
    {tokens : List Token} (mirrors : Mirrors text place change reader image tokens) :
    image (tokens.map (Token.map text place)) =
      (mapResult text place change (reader tokens).1,
        (reader tokens).2.map (Token.map text place)) := by
  obtain ⟨used, split, -, sees⟩ := mirrors
  have whole : tokens.map (Token.map text place) =
      used.map (Token.map text place) ++ (reader tokens).2.map (Token.map text place) := by
    conv_lhs => rw [split, List.map_append]
  rw [whole]
  apply sees
  right
  exact List.head?_map

namespace Reading

def map (reading : Reading) : Reading :=
  ⟨reading.upcoming.map (Token.map text place), reading.finish.map text place⟩

theorem content_map (tokens : List Token) :
    content (tokens.map (Token.map text place)) = (content tokens).map (Token.map text place) := by
  rw [content, List.takeWhile_map]
  rfl

theorem finishOf_map {tokens : List Token} (some : tokens ≠ []) (plain : text "" = "") :
    finishOf (tokens.map (Token.map text place)) = (finishOf tokens).map text place := by
  have same : isFinish ∘ Token.map text place = isFinish := rfl
  unfold finishOf
  rw [List.find?_map, same]
  cases tokens.find? isFinish with
  | some finish => rfl
  | none =>
    have last : tokens.getLast? = .some (tokens.getLast some) := List.getLast?_eq_some_getLast some
    simp [List.getLast?_map, last, Token.finishAt, Token.map, plain]

theorem ofTokens_map {tokens : List Token} (some : tokens ≠ []) (plain : text "" = "") :
    ofTokens (tokens.map (Token.map text place)) = (ofTokens tokens).map text place := by
  rw [ofTokens_eq, ofTokens_eq, content_map, finishOf_map text place some plain]
  rfl

theorem run_map (reading : Reading) (room : Allowance) :
    (reading.map text place).run room =
      (mapAnswer text place (reading.run room).1, (reading.run room).2.map text place) := by
  have mirrored : declarations room [] (reading.upcoming.map (Token.map text place)) = _ :=
    (Reader.declarations_mirrors text place room [] reading.upcoming).apply
  rw [Reader.declarations] at mirrored
  rcases found : declarations room [] reading.upcoming with ⟨result, rest⟩
  rw [found] at mirrored
  have next : (⟨rest.map (Token.map text place), reading.finish.map text place⟩ : Reading).next =
      (⟨rest, reading.finish⟩ : Reading).next.map text place := by
    cases rest <;> rfl
  cases result with
  | ok program => simp [run, map, mirrored, found, mapResult, mapAnswer, Except.mapError]
  | error fault =>
    simp [run, map, mirrored, found, mapResult, mapAnswer, Except.mapError, next,
      Fault.report_map]

theorem resumed_map (reading : Reading) (runs : Nat) :
    (reading.map text place).resumed runs = (reading.resumed runs).map text place := by
  induction runs with
  | zero => rfl
  | succ runs further => rw [resumed, resumed, further, run_map]

end Reading

namespace Parser

theorem cursor_add_upcoming (tokens : List Token) (calls : Nat) :
    (resumed tokens calls).cursor +
      ((Reading.ofTokens tokens).resumed calls).upcoming.length = (content tokens).length := by
  obtain ⟨behind, stands⟩ := resumed_stands tokens
  obtain ⟨before, upcoming, split, here, same⟩ := stands calls
  rw [here.cursor, same, split, List.length_append]

theorem answer_nil (calls : Nat) : answer [] calls = .ok ⟨[]⟩ := by
  have ended : (Reading.ofTokens []).resumed calls = Reading.ofTokens [] := by
    have fixed : (Reading.ofTokens []).resumed (0 + 1) = (Reading.ofTokens []).resumed 0 := by
      rw [Reading.resumed, Reading.resumed, ofTokens_eq]
      exact congrArg Prod.snd (run_nil _ _)
    have still := resumed_of_fixed fixed calls
    rwa [Nat.zero_add] at still
  rw [answer_eq, ended, ofTokens_eq]
  exact congrArg Prod.fst (run_nil _ _)

theorem answer_map (plain : text "" = "") (tokens : List Token) (calls : Nat) :
    answer (tokens.map (Token.map text place)) calls =
        mapAnswer text place (answer tokens calls) ∧
      (resumed (tokens.map (Token.map text place)) calls).cursor =
        (resumed tokens calls).cursor := by
  by_cases some : tokens = []
  · subst some
    rw [List.map_nil, answer_nil]
    exact ⟨rfl, rfl⟩
  · have upcoming : (Reading.ofTokens (tokens.map (Token.map text place))).resumed calls =
        ((Reading.ofTokens tokens).resumed calls).map text place := by
      rw [ofTokens_map text place some plain, resumed_map]
    refine ⟨?_, ?_⟩
    · rw [answer_eq, answer_eq, upcoming, run_map]
    · have moved := cursor_add_upcoming tokens calls
      have moved' := cursor_add_upcoming (tokens.map (Token.map text place)) calls
      rw [upcoming, content_map, List.length_map] at moved'
      have length : (((Reading.ofTokens tokens).resumed calls).map text place).upcoming.length =
          ((Reading.ofTokens tokens).resumed calls).upcoming.length := List.length_map _
      omega

end Parser

theorem parseTokens_map (plain : text "" = "") (tokens : List Token) :
    parseTokens (tokens.map (Token.map text place)) =
      mapAnswer text place (parseTokens tokens) := by
  have first : ∀ tokens, Parser.answer tokens 0 = parseTokens tokens :=
    fun tokens => Parser.answer_eq tokens 0
  rw [← first, ← first]
  exact (Parser.answer_map text place plain tokens 0).1

/-- Reading depends on the kinds of the tokens alone. Whatever stands for their texts and their
positions, a stream of the same kinds is answered with the same program or the same error, with what
stands for its texts and positions, and so is every later call, which leaves the cursor at the same
token. -/
theorem kinds_decide (plain : text "" = "") (tokens : List Token) :
    parseTokens (tokens.map (Token.map text place)) = mapAnswer text place (parseTokens tokens) ∧
      ∀ calls,
        Parser.answer (tokens.map (Token.map text place)) calls =
            mapAnswer text place (Parser.answer tokens calls) ∧
          (Parser.resumed (tokens.map (Token.map text place)) calls).cursor =
            (Parser.resumed tokens calls).cursor :=
  ⟨parseTokens_map text place plain tokens,
    fun calls => Parser.answer_map text place plain tokens calls⟩

end

theorem kinds_decide_doubled :
    let text := fun word : String => word ++ word
    let place := fun position : Position => Position.mk position.column position.line
    let tokens : List Token := [⟨.identifier, "x", ⟨1, 1⟩⟩, ⟨.semicolon, ";", ⟨1, 2⟩⟩,
      ⟨.plus, "+", ⟨2, 5⟩⟩]
    text "" = "" ∧
      Parser.answer (tokens.map (Token.map text place)) 1 =
        .error (.expectedExpression ⟨.plus, "++", ⟨5, 2⟩⟩) ∧
      (Parser.resumed (tokens.map (Token.map text place)) 1).cursor = 2 := by
  intro text place tokens
  have plain : text "" = "" := by decide
  have failed : Parser.answer tokens 1 = .error (.expectedExpression ⟨.plus, "+", ⟨2, 5⟩⟩) := by cbv
  have cursor : (Parser.resumed tokens 1).cursor = 2 := by cbv
  obtain ⟨answers, moves⟩ := (kinds_decide text place plain tokens).2 1
  rw [answers, moves, failed, cursor]
  exact ⟨plain, rfl, rfl⟩

end YalSyntax
