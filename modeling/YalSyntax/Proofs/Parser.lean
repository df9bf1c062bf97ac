import YalSyntax.Proofs.Grammar.Exactness
import YalSyntax.Proofs.Locality.Statement
import YalSyntax.Proofs.Nesting.Limit

namespace YalSyntax

open Reading

/-- The tokens, with an end token behind them if the last one is none. -/
def closed (tokens : List Token) : List Token :=
  if tokens.getLast?.map (·.kind) = some .finish then tokens
  else tokens ++ [.finishAt ((tokens.getLast?.map (·.position)).getD .start)]

structure Parser where
  tokens : List Token
  cursor : Nat
  depth : Nat
deriving DecidableEq, Repr

namespace Parser

def ofTokens (tokens : List Token) : Parser := ⟨closed tokens, 0, 0⟩

def peek? (parser : Parser) : Option Token := parser.tokens[parser.cursor]?

/-- The token behind the one at the cursor, or the last one. -/
def peekNext? (parser : Parser) : Option Token :=
  parser.tokens[min (parser.cursor + 1) (parser.tokens.length - 1)]?

def previous? (parser : Parser) : Option Token := parser.tokens[parser.cursor - 1]?

def reading (parser : Parser) : Reading := .ofTokens (parser.tokens.drop parser.cursor)

def parse (parser : Parser) : Except ParseError Program × Parser :=
  let upcoming := parser.reading.upcoming
  let counted := Counting.declarations (.levels nestingLimit) parser.depth [] upcoming
  let after : Parser :=
    ⟨parser.tokens, parser.cursor + (upcoming.length - counted.outcome.2.length), counted.depth⟩
  (counted.outcome.1.mapError (Fault.report after.reading.next), after)

/-- The parser after so many calls. -/
def resumed (tokens : List Token) : Nat → Parser
  | 0 => ofTokens tokens
  | calls + 1 => (resumed tokens calls).parse.2

/-- What a call answers, when so many calls were made before. -/
def answer (tokens : List Token) (calls : Nat) : Except ParseError Program :=
  (resumed tokens calls).parse.1

end Parser

theorem content_append {upcoming : List Token} {finish : Token} {behind : List Token}
    (plain : ∀ token ∈ upcoming, token.kind ≠ .finish) (ends : finish.kind = .finish) :
    content (upcoming ++ finish :: behind) = upcoming := by
  rw [content, List.takeWhile_append_of_pos (by simpa using plain)]
  simp [ends]

theorem content_plain (tokens : List Token) : ∀ token ∈ content tokens, token.kind ≠ .finish := by
  intro token member
  simpa using List.mem_takeWhile_imp member

theorem ofTokens_eq (tokens : List Token) :
    Reading.ofTokens tokens = ⟨content tokens, finishOf tokens⟩ := by
  rw [← ofTokens_upcoming]
  rfl

theorem finishOf_append {upcoming : List Token} {finish : Token} {behind : List Token}
    (plain : ∀ token ∈ upcoming, token.kind ≠ .finish) (ends : finish.kind = .finish) :
    finishOf (upcoming ++ finish :: behind) = finish := by
  have none : upcoming.find? isFinish = none := by simpa [isFinish] using plain
  simp [finishOf, List.find?_append, none, isFinish, ends]

theorem content_of_plain {tokens : List Token} (plain : ∀ token ∈ tokens, token.kind ≠ .finish) :
    content tokens = tokens :=
  List.takeWhile_eq_self_iff.mpr (by simpa using plain)

theorem finishOf_of_plain {tokens : List Token} (plain : ∀ token ∈ tokens, token.kind ≠ .finish) :
    finishOf tokens = .finishAt ((tokens.getLast?.map (·.position)).getD .start) := by
  have none : tokens.find? isFinish = none := by simpa [isFinish] using plain
  rw [finishOf, none]

theorem content_cases (tokens : List Token) :
    (∀ token ∈ tokens, token.kind ≠ .finish) ∨
    ∃ behind, tokens = content tokens ++ finishOf tokens :: behind ∧
      (finishOf tokens).kind = .finish := by
  cases found : tokens.find? isFinish with
  | none => exact .inl (by simpa [isFinish] using found)
  | some finish =>
    obtain ⟨ends, before, behind, split, plain⟩ := List.find?_eq_some_iff_append.mp found
    have ends : finish.kind = .finish := of_decide_eq_true ends
    have plain : ∀ token ∈ before, token.kind ≠ .finish := by simpa [isFinish] using plain
    refine .inr ⟨behind, ?_, ?_⟩
    · rw [split, content_append plain ends, finishOf_append plain ends]
    · rw [split, finishOf_append plain ends]
      exact ends

theorem closed_split (tokens : List Token) :
    ∃ behind, closed tokens = content tokens ++ finishOf tokens :: behind ∧
      (finishOf tokens).kind = .finish := by
  rcases content_cases tokens with plain | ⟨behind, split, ends⟩
  · have unfinished : tokens.getLast?.map (·.kind) ≠ some .finish := by
      intro last
      obtain ⟨token, isLast, ends⟩ := Option.map_eq_some_iff.mp last
      exact plain token (List.mem_of_getLast? isLast) ends
    refine ⟨[], ?_, by rw [finishOf_of_plain plain]; rfl⟩
    rw [closed, if_neg unfinished, content_of_plain plain, finishOf_of_plain plain]
  · unfold closed
    split
    · exact ⟨behind, split, ends⟩
    · refine ⟨behind ++ [.finishAt ((tokens.getLast?.map (·.position)).getD .start)], ?_, ends⟩
      rw [← List.cons_append, ← List.append_assoc, ← split]

theorem closed_ended (tokens : List Token) :
    (closed tokens).getLast?.map (·.kind) = some .finish := by
  unfold closed
  split
  · assumption
  · simp [Token.finishAt]

theorem content_closed (tokens : List Token) : content (closed tokens) = content tokens := by
  obtain ⟨behind, split, ends⟩ := closed_split tokens
  rw [split, content_append (content_plain tokens) ends]

theorem finishOf_closed (tokens : List Token) : finishOf (closed tokens) = finishOf tokens := by
  obtain ⟨behind, split, ends⟩ := closed_split tokens
  rw [split, finishOf_append (content_plain tokens) ends]

theorem closed_take {tokens before rest : List Token} (split : content tokens = before ++ rest) :
    (closed tokens).take before.length = before ∧
      (closed tokens)[before.length]? = some (rest.headD (finishOf tokens)) := by
  obtain ⟨behind, whole, -⟩ := closed_split tokens
  rw [whole, split, List.append_assoc]
  refine ⟨List.take_left, ?_⟩
  rw [List.getElem?_append_right (Nat.le_refl _), Nat.sub_self]
  cases rest <;> rfl

theorem content_agrees {tokens others before rest : List Token}
    (split : content tokens = before ++ rest)
    (same : (closed others).take (before.length + 1) = (closed tokens).take (before.length + 1)) :
    ∃ left, content others = before ++ left ∧ left.head? = rest.head? ∧
      left.headD (finishOf others) = rest.headD (finishOf tokens) := by
  obtain ⟨begins, next⟩ := closed_take split
  have plain : ∀ token ∈ before ++ rest, token.kind ≠ .finish := split ▸ content_plain tokens
  have whole : closed others = before ++ rest.headD (finishOf tokens) ::
      (closed others).drop (before.length + 1) := by
    conv_lhs => rw [← List.take_append_drop (before.length + 1) (closed others), same]
    rw [List.take_add_one, begins, next, List.append_assoc]
    rfl
  generalize (closed others).drop (before.length + 1) = behind at whole
  cases rest with
  | nil =>
    obtain ⟨-, -, ends⟩ := closed_split tokens
    have plain : ∀ token ∈ before, token.kind ≠ .finish := by simpa using plain
    refine ⟨[], ?_, rfl, ?_⟩
    · rw [← content_closed, whole, List.append_nil]
      exact content_append plain ends
    · rw [← finishOf_closed others, whole]
      exact finishOf_append plain ends
  | cons token rest =>
    refine ⟨token :: content behind, ?_, rfl, rfl⟩
    have ahead : ∀ token ∈ before, token.kind ≠ .finish := fun token member =>
      plain token (List.mem_append_left _ member)
    have isPlain : token.kind ≠ .finish := plain token (by simp)
    rw [← content_closed, whole, content, List.takeWhile_append_of_pos (by simpa using ahead)]
    simp [content, isPlain]

namespace Reading

theorem declarations_rest_of_ok (room : Allowance) (before : List Stmt) (tokens : List Token)
    {program : Program} {rest : List Token}
    (read : declarations room before tokens = (.ok program, rest)) : rest = [] := by
  rw [declarations_eq] at read
  split at read
  · cases read
    rfl
  · split at read
    · exact declarations_rest_of_ok room _ _ read
    · cases read
termination_by tokens.length

theorem run_split (reading : Reading) (room : Allowance) :
    ∃ used, reading.upcoming = used ++ (reading.run room).2.upcoming := by
  obtain ⟨used, split, -⟩ := Reader.declarations_mirrors id id room [] reading.upcoming
  exact ⟨used, split⟩

theorem run_nil (finish : Token) (room : Allowance) :
    (Reading.mk [] finish).run room = (.ok ⟨[]⟩, ⟨[], finish⟩) := by
  simp [run, declarations_eq, Except.mapError]

def resumed (reading : Reading) : Nat → Reading
  | 0 => reading
  | runs + 1 => ((reading.resumed runs).run (.levels nestingLimit)).2

theorem resumed_of_fixed {reading : Reading} {runs : Nat}
    (fixed : reading.resumed (runs + 1) = reading.resumed runs) (later : Nat) :
    reading.resumed (runs + later) = reading.resumed runs := by
  induction later with
  | zero => rfl
  | succ later further => rw [← Nat.add_assoc, resumed, further, ← resumed, fixed]

end Reading

namespace Parser

/-- Between two calls: what is before the cursor, what is still to be read, and the first end token
with what stands behind it. -/
structure Stands (parser : Parser) (before upcoming : List Token) (finish : Token)
    (behind : List Token) : Prop where
  tokens : parser.tokens = before ++ (upcoming ++ finish :: behind)
  cursor : parser.cursor = before.length
  depth : parser.depth = 0
  plain : ∀ token ∈ upcoming, token.kind ≠ .finish
  ends : finish.kind = .finish

namespace Stands

variable {parser : Parser} {before upcoming behind : List Token} {finish : Token}

theorem drop (stands : parser.Stands before upcoming finish behind) :
    parser.tokens.drop parser.cursor = upcoming ++ finish :: behind := by
  rw [stands.tokens, stands.cursor, List.drop_left]

theorem reading (stands : parser.Stands before upcoming finish behind) :
    parser.reading = ⟨upcoming, finish⟩ := by
  rw [Parser.reading, stands.drop, ofTokens_eq, content_append stands.plain stands.ends,
    finishOf_append stands.plain stands.ends]

theorem parse (stands : parser.Stands before upcoming finish behind) :
    ∃ used rest, upcoming = used ++ rest ∧
      parser.parse.2.Stands (before ++ used) rest finish behind ∧
      (Reading.mk upcoming finish).run (.levels nestingLimit) = (parser.parse.1, ⟨rest, finish⟩) := by
  obtain ⟨used, split⟩ := run_split ⟨upcoming, finish⟩ (.levels nestingLimit)
  have counted : (Counting.declarations (.levels nestingLimit) 0 [] upcoming).outcome =
      declarations (.levels nestingLimit) [] upcoming :=
    Counting.declarations_agrees (.levels nestingLimit) 0 [] upcoming
  change upcoming = used ++ (declarations (.levels nestingLimit) [] upcoming).2 at split
  have after : parser.parse.2.Stands (before ++ used)
      (declarations (.levels nestingLimit) [] upcoming).2 finish behind := by
    refine ⟨?_, ?_, ?_, fun token member => stands.plain token ?_, stands.ends⟩
    · rw [← List.append_assoc, List.append_assoc before, ← split, List.append_assoc]
      exact stands.tokens
    · have taken := congrArg List.length split
      rw [List.length_append] at taken
      simp only [Parser.parse, stands.reading, stands.depth, counted, stands.cursor,
        List.length_append]
      omega
    · simp only [Parser.parse, stands.reading, stands.depth]
      exact Counting.declarations_depth _ 0 [] upcoming
    · rw [split]
      exact List.mem_append_right used member
  refine ⟨used, _, split, after, ?_⟩
  have told := after.reading
  simp only [Parser.parse, stands.reading, stands.depth, counted] at told ⊢
  rw [run, told]

end Stands

theorem ofTokens_stands (tokens : List Token) :
    ∃ behind, (ofTokens tokens).Stands [] (content tokens) (finishOf tokens) behind := by
  obtain ⟨behind, split, ends⟩ := closed_split tokens
  exact ⟨behind, split, rfl, rfl, content_plain tokens, ends⟩

theorem resumed_stands (tokens : List Token) :
    ∃ behind, ∀ calls, ∃ before upcoming, content tokens = before ++ upcoming ∧
      (resumed tokens calls).Stands before upcoming (finishOf tokens) behind ∧
      (Reading.ofTokens tokens).resumed calls = ⟨upcoming, finishOf tokens⟩ := by
  obtain ⟨behind, start⟩ := ofTokens_stands tokens
  refine ⟨behind, fun calls => ?_⟩
  induction calls with
  | zero => exact ⟨[], content tokens, rfl, start, ofTokens_eq tokens⟩
  | succ calls further =>
    obtain ⟨before, upcoming, split, stands, same⟩ := further
    obtain ⟨used, rest, taken, after, ran⟩ := stands.parse
    refine ⟨before ++ used, rest, by rw [split, taken, List.append_assoc], after, ?_⟩
    rw [Reading.resumed, same, ran]

theorem answer_eq (tokens : List Token) (calls : Nat) :
    answer tokens calls =
      (((Reading.ofTokens tokens).resumed calls).run (.levels nestingLimit)).1 := by
  obtain ⟨behind, stands⟩ := resumed_stands tokens
  obtain ⟨before, upcoming, -, stands, same⟩ := stands calls
  obtain ⟨used, rest, -, -, ran⟩ := stands.parse
  rw [same, ran, answer]

theorem Stands.parse_congr {parser other : Parser}
    {before before' upcoming behind behind' : List Token} {finish finish' : Token}
    (stands : parser.Stands before upcoming finish behind)
    (stands' : other.Stands before' upcoming finish' behind')
    (same : upcoming = [] ∨ finish' = finish) :
    parser.parse.1 = other.parse.1 ∧ ∃ taken, parser.parse.2.cursor = parser.cursor + taken ∧
      other.parse.2.cursor = other.cursor + taken := by
  obtain ⟨used, rest, split, after, ran⟩ := stands.parse
  obtain ⟨used', rest', split', after', ran'⟩ := stands'.parse
  have alike : parser.parse.1 = other.parse.1 ∧ rest = rest' := by
    rcases same with rfl | rfl
    · rw [run_nil, Prod.mk.injEq, Reading.mk.injEq] at ran ran'
      exact ⟨ran.1.symm.trans ran'.1, ran.2.1.symm.trans ran'.2.1⟩
    · rw [ran, Prod.mk.injEq, Reading.mk.injEq] at ran'
      exact ⟨ran'.1, ran'.2.1⟩
  obtain ⟨answers, rfl⟩ := alike
  obtain rfl : used = used' := List.append_cancel_right (split.symm.trans split')
  refine ⟨answers, used.length, ?_, ?_⟩
  · rw [after.cursor, stands.cursor, List.length_append]
  · rw [after'.cursor, stands'.cursor, List.length_append]

theorem content_drop {tokens before upcoming : List Token}
    (split : content tokens = before ++ upcoming) :
    content (tokens.drop before.length) = upcoming ∧
      (upcoming = [] ∨ finishOf (tokens.drop before.length) = finishOf tokens) := by
  have plain : ∀ token ∈ upcoming, token.kind ≠ .finish := fun token member =>
    content_plain tokens token (by rw [split]; exact List.mem_append_right before member)
  rcases content_cases tokens with whole | ⟨behind, cut, ends⟩
  · rw [content_of_plain whole] at split
    subst split
    rw [List.drop_left]
    refine ⟨content_of_plain plain, or_iff_not_imp_left.mpr fun some => ?_⟩
    rw [finishOf_of_plain plain, finishOf_of_plain whole, List.getLast?_append_of_ne_nil _ some]
  · have dropped : tokens.drop before.length = upcoming ++ finishOf tokens :: behind := by
      conv_lhs => rw [cut, split, List.append_assoc, List.drop_left]
    rw [dropped, content_append plain ends, finishOf_append plain ends]
    exact ⟨rfl, .inr rfl⟩

theorem parse_fresh (tokens : List Token) (calls : Nat) (left : List Token)
    (isLeft : left = (resumed tokens calls).tokens.drop (resumed tokens calls).cursor ∨
      left = tokens.drop (resumed tokens calls).cursor) :
    answer tokens calls = parseTokens left ∧
      (resumed tokens (calls + 1)).cursor =
        (resumed tokens calls).cursor + (ofTokens left).parse.2.cursor := by
  obtain ⟨behind, stands⟩ := resumed_stands tokens
  obtain ⟨before, upcoming, split, stands, -⟩ := stands calls
  obtain ⟨rest, fresh⟩ := ofTokens_stands left
  have same : content left = upcoming ∧ (upcoming = [] ∨ finishOf left = finishOf tokens) := by
    rcases isLeft with rfl | rfl
    · rw [stands.drop, content_append stands.plain stands.ends,
        finishOf_append stands.plain stands.ends]
      exact ⟨rfl, .inr rfl⟩
    · rw [stands.cursor]
      exact content_drop split
  obtain ⟨rfl, same⟩ := same
  obtain ⟨answers, taken, moves, moves'⟩ := stands.parse_congr fresh same
  refine ⟨?_, ?_⟩
  · have first := answer_eq left 0
    exact answers.trans first
  · rw [moves', resumed, moves]
    simp [ofTokens]

theorem findIdx_closed (tokens : List Token) :
    (closed tokens).findIdx isFinish = (content tokens).length := by
  obtain ⟨behind, split, ends⟩ := closed_split tokens
  have none : (content tokens).findIdx isFinish = (content tokens).length := by
    rw [List.findIdx_eq_length]
    simpa [isFinish] using content_plain tokens
  rw [split, List.findIdx_append, none, if_neg (Nat.lt_irrefl _)]
  simp [isFinish, ends, List.findIdx_cons]

/-- The tokens up to the first end token decide what is read. -/
theorem reading_congr {tokens others : List Token}
    (same : (closed others).take ((closed tokens).findIdx isFinish + 1) =
      (closed tokens).take ((closed tokens).findIdx isFinish + 1)) :
    Reading.ofTokens others = Reading.ofTokens tokens := by
  rw [findIdx_closed] at same
  obtain ⟨left, whole, ended, finish⟩ := content_agrees (List.append_nil _).symm same
  obtain rfl := List.head?_eq_none_iff.mp ended
  have finish : finishOf others = finishOf tokens := finish
  rw [ofTokens_eq, ofTokens_eq, whole, List.append_nil, finish]

theorem resumed_tokens (tokens : List Token) (calls : Nat) :
    (resumed tokens calls).tokens = closed tokens := by
  induction calls with
  | zero => rfl
  | succ calls further => exact further

theorem resumed_bounds (tokens : List Token) (calls : Nat) :
    (resumed tokens calls).cursor ≤ (closed tokens).findIdx isFinish ∧
      (closed tokens).findIdx isFinish < (closed tokens).length := by
  obtain ⟨behind, stands⟩ := resumed_stands tokens
  obtain ⟨before, upcoming, split, stands, -⟩ := stands calls
  have whole := stands.tokens
  rw [resumed_tokens] at whole
  rw [findIdx_closed, stands.cursor, whole, split]
  simp only [List.length_append, List.length_cons]
  omega

theorem seen_of_inside {parser : Parser} (inside : parser.cursor < parser.tokens.length) :
    parser.peek?.isSome ∧ parser.peekNext?.isSome ∧ parser.previous?.isSome := by
  simp only [peek?, peekNext?, previous?, isSome_getElem?]
  omega

theorem answer_of_fixed {tokens : List Token} {calls : Nat}
    (fixed : (resumed tokens (calls + 1)).cursor = (resumed tokens calls).cursor) (later : Nat) :
    answer tokens (calls + later) = answer tokens calls := by
  obtain ⟨behind, stands⟩ := resumed_stands tokens
  obtain ⟨before, upcoming, split, here, same⟩ := stands calls
  obtain ⟨before', upcoming', split', there, same'⟩ := stands (calls + 1)
  rw [there.cursor, here.cursor] at fixed
  obtain ⟨-, rfl⟩ := List.append_inj (split'.symm.trans split) fixed
  rw [answer_eq, answer_eq, resumed_of_fixed (same'.trans same.symm)]

theorem answer_of_ok {tokens : List Token} {calls : Nat} {program : Program}
    (read : answer tokens calls = .ok program) (later : Nat) :
    answer tokens (calls + 1 + later) = .ok ⟨[]⟩ := by
  obtain ⟨behind, stands⟩ := resumed_stands tokens
  obtain ⟨before, upcoming, -, -, same⟩ := stands calls
  rw [answer_eq, same] at read
  obtain ⟨rest, found⟩ := run_eq_ok read
  obtain rfl := declarations_rest_of_ok _ _ _ found
  have ended : (Reading.ofTokens tokens).resumed (calls + 1) = ⟨[], finishOf tokens⟩ := by
    rw [Reading.resumed, same, run, found]
  have fixed : (Reading.ofTokens tokens).resumed (calls + 1 + 1) =
      (Reading.ofTokens tokens).resumed (calls + 1) := by
    rw [Reading.resumed, ended, run_nil]
  rw [answer_eq, resumed_of_fixed fixed, ended, run_nil]

theorem resumed_depth (tokens : List Token) (calls : Nat) : (resumed tokens calls).depth = 0 := by
  obtain ⟨behind, stands⟩ := resumed_stands tokens
  obtain ⟨before, upcoming, -, here, -⟩ := stands calls
  exact here.depth

theorem answer_congr {tokens others : List Token}
    (seen : (closed others).take ((closed tokens).findIdx isFinish + 1) =
      (closed tokens).take ((closed tokens).findIdx isFinish + 1)) (calls : Nat) :
    answer others calls = answer tokens calls ∧
      (resumed others calls).cursor = (resumed tokens calls).cursor := by
  have alike := reading_congr seen
  obtain ⟨_, stands⟩ := resumed_stands tokens
  obtain ⟨before, upcoming, split, here, same⟩ := stands calls
  obtain ⟨_, stands'⟩ := resumed_stands others
  obtain ⟨before', upcoming', split', here', same'⟩ := stands' calls
  refine ⟨by rw [answer_eq, answer_eq, alike], ?_⟩
  rw [alike, same, Reading.mk.injEq] at same'
  obtain ⟨rfl, -⟩ := same'
  have contents := congrArg Reading.upcoming alike
  rw [ofTokens_upcoming, ofTokens_upcoming, split, split'] at contents
  rw [here'.cursor, here.cursor, List.append_cancel_right contents]

/-- Between two calls no level is open, and the cursor stands at a token, at the first end token at
most. The next call answers what a fresh parser of the tokens from there on answers, and moves as
far; so the empty program follows on a success, and the same error on an error that took no token.
What stands behind the first end token does not matter. -/
theorem resumed_exact (tokens : List Token) (calls : Nat) :
    let parser := resumed tokens calls
    let after := resumed tokens (calls + 1)
    let last := (closed tokens).findIdx isFinish
    (parser.depth = 0 ∧ parser.tokens = closed tokens ∧ parser.cursor ≤ after.cursor ∧
      parser.cursor ≤ last ∧ last < (closed tokens).length ∧
      parser.peek?.isSome ∧ parser.peekNext?.isSome ∧ parser.previous?.isSome) ∧
    (∀ left, left = parser.tokens.drop parser.cursor ∨ left = tokens.drop parser.cursor →
      answer tokens calls = parseTokens left ∧
        after.cursor = parser.cursor + (ofTokens left).parse.2.cursor) ∧
    answer tokens calls =
      (((Reading.ofTokens tokens).resumed calls).run (.levels nestingLimit)).1 ∧
    (∀ program, answer tokens calls = .ok program →
      ∀ later, calls < later → answer tokens later = .ok ⟨[]⟩) ∧
    (∀ error, answer tokens calls = .error error → after.cursor = parser.cursor →
      ∀ later, calls < later → answer tokens later = .error error) ∧
    ∀ others, (closed others).take (last + 1) = (closed tokens).take (last + 1) →
      answer others calls = answer tokens calls ∧ (resumed others calls).cursor = parser.cursor := by
  intro parser after last
  obtain ⟨inside, bounded⟩ := resumed_bounds tokens calls
  have within : parser.cursor < parser.tokens.length := by
    rw [resumed_tokens]
    exact Nat.lt_of_le_of_lt inside bounded
  refine ⟨⟨resumed_depth tokens calls, resumed_tokens tokens calls, ?_, inside, bounded,
    seen_of_inside within⟩, parse_fresh tokens calls, answer_eq tokens calls, ?_, ?_,
    fun others seen => answer_congr seen calls⟩
  · obtain ⟨-, moves⟩ := parse_fresh tokens calls _ (.inl rfl)
    exact Nat.le.intro moves.symm
  · intro program read later behind
    obtain ⟨gap, rfl⟩ := Nat.exists_eq_add_of_lt behind
    rw [Nat.add_right_comm]
    exact answer_of_ok read gap
  · intro error failed stays later behind
    obtain ⟨gap, rfl⟩ := Nat.exists_eq_add_of_lt behind
    rw [Nat.add_assoc, answer_of_fixed stays, failed]

/-- The first call stops at the `)`, and every later one stops there again. -/
theorem resumed_exact_behind_fault :
    let tokens : List Token := [⟨.identifier, "x", ⟨1, 1⟩⟩, ⟨.semicolon, ";", ⟨1, 2⟩⟩,
      ⟨.rightParen, ")", ⟨1, 3⟩⟩, ⟨.finish, "", ⟨1, 4⟩⟩, ⟨.comma, ",", ⟨1, 5⟩⟩]
    let failure : ParseError := .expectedExpression ⟨.rightParen, ")", ⟨1, 3⟩⟩
    (resumed tokens 1).cursor = 2 ∧ answer tokens 1 = .error failure ∧
      answer tokens 4 = .error failure ∧
      answer (tokens.take 4) 1 = answer tokens 1 := by
  intro tokens failure
  have first : answer tokens 1 = .error failure := by cbv
  obtain ⟨-, -, -, -, again, seen⟩ := resumed_exact tokens 1
  exact ⟨by cbv, first, again failure first (by cbv) 4 (by decide), (seen _ (by cbv)).1⟩

end Parser

end YalSyntax
