import YalSyntax.Proofs.Cursor.Calls
import YalSyntax.Proofs.Cursor.Statement
import YalSyntax.Proofs.Parser

namespace YalSyntax

open Attempt

namespace Cursor

def ending (tokens : List Token) : Nat := tokens.findIdx Reading.isFinish

/-- Sixteen calls for every token from the cursor to the first end token. -/
def callsFrom (tokens : List Token) (cursor : Nat) : Nat := 16 * (ending tokens - cursor + 1)

section

variable {σ α β : Type} (tokens : List Token)

/-- After a success the cursor does not stand further back, nor behind the first end token. -/
def Keeps (attempt : Attempt α) : Prop := ∀ ⦃cursor value next⦄, cursor ≤ ending tokens →
  attempt cursor = some (.ok value, next) → cursor ≤ next ∧ next ≤ ending tokens

/-- After a success the cursor stands further on, but not behind the first end token. -/
def Advances (attempt : Attempt α) : Prop := ∀ ⦃cursor value next⦄, cursor ≤ ending tokens →
  attempt cursor = some (.ok value, next) → cursor < next ∧ next ≤ ending tokens

def Consumes (iteration : σ → Attempt (σ ⊕ α)) : Prop :=
  ∀ ⦃state cursor state' next⦄, cursor ≤ ending tokens →
    iteration state cursor = some (.ok (.inl state'), next) → cursor < next ∧ next ≤ ending tokens

/-- What an answer to the tokens that are left at a cursor tells from the cursor. -/
def told (cursor : Nat) (answer : Answer α) : Except ParseError α × Nat :=
  (answer.1.mapError
    (Fault.report (answer.2.headD (Reading.ofTokens (tokens.drop cursor)).finish)),
    ending tokens - answer.2.length)

/-- A production that takes a token before it succeeds. With enough calls it comes to what is read
from the tokens that are left, however many calls more there may be. -/
structure Progresses (production : Nat → Allowance → Attempt α)
    (outcome : Allowance → (rest : List Token) → Outcome α rest.length) : Prop where
  advances : ∀ calls room, Advances tokens (production calls room)
  reads : ∀ ⦃cursor calls⦄ room, cursor ≤ ending tokens → callsFrom tokens cursor ≤ calls →
    production calls room cursor = some (told tokens cursor
      (outcome room (Reading.ofTokens (tokens.drop cursor)).upcoming).answer)

variable {tokens}

theorem bind_eq_ok {attempt : Attempt α} {next : α → Attempt β} {cursor last : Nat} {value : β}
    (comes : (attempt >>= next) cursor = some (.ok value, last)) :
    ∃ first later, attempt cursor = some (.ok first, later) ∧
      next first later = some (.ok value, last) := by
  rw [bind_eq] at comes
  obtain ⟨⟨answer, later⟩, came, comes⟩ := Option.bind_eq_some_iff.mp comes
  cases answer with
  | ok first => exact ⟨first, later, came, comes⟩
  | error error => cases comes

theorem Keeps.done (value : α) : Keeps tokens (pure value) := by
  intro cursor value next inside comes
  cases comes
  exact ⟨Nat.le_refl _, inside⟩

theorem Keeps.bind {attempt : Attempt α} {next : α → Attempt β} (first : Keeps tokens attempt)
    (second : ∀ value, Keeps tokens (next value)) : Keeps tokens (attempt >>= next) := by
  intro cursor value last inside comes
  obtain ⟨value, later, came, comes⟩ := bind_eq_ok comes
  obtain ⟨onward, inside⟩ := first inside came
  obtain ⟨further, inside⟩ := second value inside comes
  exact ⟨Nat.le_trans onward further, inside⟩

theorem look_cursor {place : Nat → Nat} {cursor next : Nat} {answer : Except ParseError Token}
    (comes : look tokens place cursor = some (answer, next)) : next = cursor := by
  obtain ⟨token, -, same⟩ := Option.map_eq_some_iff.mp comes
  cases same
  rfl

theorem peek_bind {next : Token → Attempt β} {cursor last : Nat} {answer : Except ParseError β}
    (comes : (peek tokens >>= next) cursor = some (answer, last)) :
    ∃ token, tokens[cursor]? = some token ∧ next token cursor = some (answer, last) := by
  rw [bind_eq, peek, look, id] at comes
  cases found : tokens[cursor]? with
  | none => rw [found] at comes; cases comes
  | some token => rw [found] at comes; exact ⟨token, rfl, comes⟩

theorem Keeps.check (kind : Token.Kind) : Keeps tokens (Cursor.check tokens kind) := by
  intro cursor value next inside comes
  obtain ⟨token, -, goes⟩ := peek_bind comes
  cases goes
  exact ⟨Nat.le_refl _, inside⟩

theorem Keeps.advance : Keeps tokens (Cursor.advance tokens) := by
  intro cursor value next inside comes
  obtain ⟨atEnd, later, checked, goes⟩ := bind_eq_ok comes
  obtain ⟨token, found, checked⟩ := peek_bind checked
  cases checked
  by_cases ends : token.kind = .finish
  · simp only [ends, decide_true, Bool.not_true, Bool.false_eq_true, if_false] at goes
    obtain rfl := look_cursor goes
    exact ⟨Nat.le_refl _, inside⟩
  · simp only [ends, decide_false, Bool.not_false, if_true] at goes
    change previous tokens (cursor + 1) = _ at goes
    have moved := look_cursor goes
    obtain ⟨within, rfl⟩ := List.getElem?_eq_some_iff.mp found
    have before : cursor ≠ ending tokens := by
      rintro rfl
      exact ends (of_decide_eq_true (List.findIdx_getElem (p := Reading.isFinish) (w := within)))
    omega

theorem Keeps.ite {test : Prop} [Decidable test] {yes no : Attempt α} (first : Keeps tokens yes)
    (second : Keeps tokens no) : Keeps tokens (if test then yes else no) := by
  split
  · exact first
  · exact second

theorem Keeps.accept (kind : Token.Kind) : Keeps tokens (Cursor.accept tokens kind) :=
  (Keeps.check kind).bind fun _ => .ite (.bind .advance fun _ => .done _) (.done _)

section

variable {item : Attempt α} {declaration : Attempt Stmt} {operand : Attempt Expr}

theorem consumes_item (takes : Advances tokens item) :
    Consumes tokens (itemIteration tokens item) := by
  intro read cursor state' next inside comes
  obtain ⟨value, later, came, goes⟩ := bind_eq_ok comes
  obtain ⟨onward, inside⟩ := takes inside came
  obtain ⟨more, last, accepted, goes⟩ := bind_eq_ok goes
  obtain ⟨further, inside⟩ := Keeps.accept _ inside accepted
  cases more with
  | false => cases goes
  | true =>
    cases goes
    exact ⟨Nat.lt_of_lt_of_le onward further, inside⟩

theorem consumes_declaration (ends : Token.Kind → Bool) (takes : Advances tokens declaration) :
    Consumes tokens (declarationIteration tokens ends declaration) := by
  intro read cursor state' next inside comes
  obtain ⟨first, -, goes⟩ := peek_bind comes
  split at goes
  · cases goes
  · obtain ⟨stmt, later, came, goes⟩ := bind_eq_ok goes
    cases goes
    exact takes inside came

theorem consumes_operation (operator? : Token.Kind → Option Operator)
    (takes : Advances tokens operand) :
    Consumes tokens (operationIteration tokens operator? operand) := by
  intro left cursor state' next inside comes
  obtain ⟨first, -, goes⟩ := peek_bind comes
  cases chosen : operator? first.kind with
  | none => rw [chosen] at goes; cases goes
  | some operator =>
    rw [chosen] at goes
    obtain ⟨sign, later, taken, goes⟩ := bind_eq_ok goes
    obtain ⟨onward, inside⟩ := Keeps.advance inside taken
    obtain ⟨right, later, came, goes⟩ := bind_eq_ok goes
    cases goes
    obtain ⟨further, inside⟩ := takes inside came
    exact ⟨Nat.lt_of_le_of_lt onward further, inside⟩

end

theorem approximates_add {production : Nat → Attempt α}
    (grows : ∀ calls, Approximates (production calls) (production (calls + 1))) (calls more : Nat) :
    Approximates (production calls) (production (calls + more)) := by
  induction more with
  | zero => exact .refl _
  | succ more further => exact further.trans (grows (calls + more))

variable {reading : Reading}

theorem place_drop {cursor : Nat} (inside : cursor ≤ reading.upcoming.length) :
    place reading (reading.upcoming.drop cursor) = cursor := by
  rw [place, List.length_drop]
  omega

theorem Holds.ofTokens_drop (holds : Holds tokens reading) {cursor : Nat}
    (inside : cursor ≤ reading.upcoming.length) :
    Reading.ofTokens (tokens.drop cursor) = ⟨reading.upcoming.drop cursor, reading.finish⟩ := by
  obtain ⟨behind, split⟩ := holds.split
  have plain : ∀ token ∈ reading.upcoming.drop cursor, token.kind ≠ .finish := fun token member =>
    holds.plain token (List.mem_of_mem_drop member)
  rw [split, List.drop_append_of_le_length inside, ofTokens_eq, content_append plain holds.ends,
    finishOf_append plain holds.ends]

theorem Runs.comes (holds : Holds tokens reading) (last : ending tokens = reading.upcoming.length)
    {production : Nat → Attempt α} {answer : List Token → Answer α}
    (runs : ∀ calls rest, 16 * rest.length + 13 < calls →
      Runs reading (production calls) rest (answer rest))
    (cursor calls : Nat) (inside : cursor ≤ ending tokens)
    (enough : callsFrom tokens cursor ≤ calls) :
    production calls cursor =
      some (told tokens cursor (answer (Reading.ofTokens (tokens.drop cursor)).upcoming)) := by
  rw [callsFrom, last] at enough
  rw [last] at inside
  have fits : 16 * (reading.upcoming.drop cursor).length + 13 < calls := by
    rw [List.length_drop]
    omega
  have ran := (runs calls _ fits (List.drop_suffix ..)).2
  rw [place_drop inside] at ran
  rw [told, holds.ofTokens_drop inside, last]
  exact ran

theorem Progresses.of_runs (holds : Holds tokens reading)
    (last : ending tokens = reading.upcoming.length) {production : Nat → Allowance → Attempt α}
    {outcome : Allowance → (rest : List Token) → Outcome α rest.length}
    (grows : ∀ calls room, Approximates (production calls room) (production (calls + 1) room))
    (runs : ∀ calls room rest, 16 * rest.length + 13 < calls →
      Runs reading (production calls room) rest (outcome room rest).answer) :
    Progresses tokens production outcome := by
  have reads := fun room => Runs.comes holds last fun calls => runs calls room
  refine ⟨fun calls room cursor value next inside comes => ?_, fun cursor calls room =>
    reads room cursor calls⟩
  -- With enough calls more it comes to the same.
  have later := approximates_add (grows · room) calls (callsFrom tokens cursor) _ _ comes
  rw [reads room cursor _ inside (Nat.le_add_left _ calls)] at later
  have left : (Reading.ofTokens (tokens.drop cursor)).upcoming.length = ending tokens - cursor := by
    rw [holds.ofTokens_drop (last ▸ inside), List.length_drop, last]
  cases read : outcome room (Reading.ofTokens (tokens.drop cursor)).upcoming with
  | error fault rest => rw [read] at later; cases later
  | ok value rest shorter =>
    rw [read] at later
    cases later
    rw [left] at shorter
    simp only [Outcome.answer]
    omega

theorem Holds.ofTokens (ended : tokens.getLast?.map (·.kind) = some .finish) :
    Holds tokens (.ofTokens tokens) := by
  obtain ⟨behind, split, ends⟩ := closed_split tokens
  rw [closed, if_pos ended] at split
  rw [ofTokens_eq]
  exact ⟨content_plain tokens, ends, behind, split⟩

theorem ending_eq (ended : tokens.getLast?.map (·.kind) = some .finish) :
    ending tokens = (Reading.ofTokens tokens).upcoming.length := by
  have first := Parser.findIdx_closed tokens
  rw [closed, if_pos ended] at first
  rw [ofTokens_eq]
  exact first

variable (tokens)

structure ExpressionsProgress : Prop where
  expression : Progresses tokens (expression tokens) fun room tokens =>
    Reading.expression room tokens
  returnExpression : Progresses tokens (returnExpression tokens) returning
  assignment : Progresses tokens (assignment tokens) fun room tokens =>
    Reading.assignment room tokens
  logicOr : Progresses tokens (logicOr tokens) fun room tokens =>
    Reading.logicOr room tokens
  logicAnd : Progresses tokens (logicAnd tokens) fun room tokens =>
    Reading.logicAnd room tokens
  equality : Progresses tokens (equality tokens) fun room tokens =>
    Reading.equality room tokens
  term : Progresses tokens (term tokens) fun room tokens =>
    Reading.term room tokens
  factor : Progresses tokens (factor tokens) fun room tokens =>
    Reading.factor room tokens
  unary : Progresses tokens (unary tokens) fun room tokens =>
    Reading.unary room tokens
  operand : Progresses tokens (operand tokens) fun room tokens =>
    Reading.operand room tokens
  primary : Progresses tokens (primary tokens) fun room tokens =>
    Reading.primary room tokens
  call : Progresses tokens (call tokens) calling

structure StatementsProgress : Prop where
  declaration : Progresses tokens (declaration tokens) fun room tokens =>
    Reading.declaration room tokens
  letDeclaration : Progresses tokens (letDeclaration tokens) fun room =>
    preceded .letWord (Reading.letRest room)
  typeDefinition : Progresses tokens (fun _ _ => typeDefinition tokens) fun _ =>
    preceded .typeWord Reading.typeRest
  statement : Progresses tokens (statement tokens) fun room tokens =>
    Reading.statement room tokens
  functionDeclaration : Progresses tokens (functionDeclaration tokens) fun room =>
    headed .fnWord (Reading.functionRest room)
  forStatement : Progresses tokens (forStatement tokens) fun room =>
    headed .forWord (Reading.forRest room)
  whileStatement : Progresses tokens (whileStatement tokens) fun room =>
    headed .whileWord (Reading.whileRest room)
  ifStatement : Progresses tokens (ifStatement tokens) fun room =>
    headed .ifWord (Reading.ifRest room)
  block : Progresses tokens (block tokens) fun room =>
    headed .leftBrace fun position _ => Reading.blockRest room position []
  expressionStatement : Progresses tokens (expressionStatement tokens) fun room tokens =>
    Reading.expressionStatement room tokens
  binding : Progresses tokens (fun _ _ => binding tokens) fun _ => Reading.binding

/-- The iterations over the declarations of a program and of a block, over arguments, over
parameters, and over the operations of each tier. -/
structure LoopsProgress (calls : Nat) (room : Allowance) : Prop where
  program : Consumes tokens
    (declarationIteration tokens endsProgram (declaration tokens calls room))
  block : Consumes tokens (declarationIteration tokens endsBlock (declaration tokens calls room))
  arguments : Consumes tokens (itemIteration tokens (expression tokens calls room))
  parameters : Consumes tokens (itemIteration tokens (binding tokens))
  logicOr : Consumes tokens
    (operationIteration tokens (Operator.logical? .disjunction) (logicAnd tokens calls room))
  logicAnd : Consumes tokens
    (operationIteration tokens (Operator.logical? .conjunction) (equality tokens calls room))
  equality : Consumes tokens
    (operationIteration tokens (Operator.binary? 3) (term tokens calls room))
  term : Consumes tokens
    (operationIteration tokens (Operator.binary? 4) (factor tokens calls room))
  factor : Consumes tokens
    (operationIteration tokens (Operator.binary? (unaryStrength - 1)) (unary tokens calls room))

variable {tokens}

theorem expressions_progress (holds : Holds tokens reading)
    (last : ending tokens = reading.upcoming.length) : ExpressionsProgress tokens where
  expression := .of_runs holds last expression_approximates fun calls room rest _ =>
    expression_run holds calls room rest (by omega)
  returnExpression := .of_runs holds last returnExpression_approximates fun calls room rest _ =>
    returnExpression_run holds calls room rest (by omega)
  assignment := .of_runs holds last assignment_approximates fun calls room rest _ =>
    assignment_run holds calls room rest (by omega)
  logicOr := .of_runs holds last logicOr_approximates fun calls room rest _ =>
    logicOr_run holds calls room rest (by omega)
  logicAnd := .of_runs holds last logicAnd_approximates fun calls room rest _ =>
    logicAnd_run holds calls room rest (by omega)
  equality := .of_runs holds last equality_approximates fun calls room rest _ =>
    equality_run holds calls room rest (by omega)
  term := .of_runs holds last term_approximates fun calls room rest _ =>
    term_run holds calls room rest (by omega)
  factor := .of_runs holds last factor_approximates fun calls room rest _ =>
    factor_run holds calls room rest (by omega)
  unary := .of_runs holds last unary_approximates fun calls room rest _ =>
    unary_run holds calls room rest (by omega)
  operand := .of_runs holds last operand_approximates fun calls room rest _ =>
    operand_run holds calls room rest (by omega)
  primary := .of_runs holds last primary_approximates fun calls room rest _ =>
    primary_run holds calls room rest (by omega)
  call := .of_runs holds last call_approximates fun calls room rest _ =>
    call_run holds calls room rest (by omega)

theorem statements_progress (holds : Holds tokens reading)
    (last : ending tokens = reading.upcoming.length) : StatementsProgress tokens where
  declaration := .of_runs holds last declaration_approximates fun calls room rest enough =>
    declaration_run holds calls room rest enough
  letDeclaration := .of_runs holds last letDeclaration_approximates fun _ room _ _ =>
    letDeclaration_run holds room (by omega)
  typeDefinition := .of_runs holds last (fun _ _ => .refl _) fun _ _ rest _ =>
    typeDefinition_run holds rest
  statement := .of_runs holds last statement_approximates fun calls room rest _ =>
    statement_run holds calls room rest (by omega)
  functionDeclaration := .of_runs holds last functionDeclaration_approximates fun calls room rest _ =>
    functionDeclaration_run holds calls room rest (by omega)
  forStatement := .of_runs holds last forStatement_approximates fun calls room rest _ =>
    forStatement_run holds calls room rest (by omega)
  whileStatement := .of_runs holds last whileStatement_approximates fun calls room rest _ =>
    whileStatement_run holds calls room rest (by omega)
  ifStatement := .of_runs holds last ifStatement_approximates fun calls room rest _ =>
    ifStatement_run holds calls room rest (by omega)
  block := .of_runs holds last block_approximates fun calls room rest _ =>
    block_run holds calls room rest (by omega)
  expressionStatement := .of_runs holds last expressionStatement_approximates fun _ room _ _ =>
    expressionStatement_run holds room (by omega)
  binding := .of_runs holds last (fun _ _ => .refl _) fun _ _ rest _ => binding_run holds rest

theorem loops_progress (expressions : ExpressionsProgress tokens)
    (statements : StatementsProgress tokens) (calls : Nat) (room : Allowance) :
    LoopsProgress tokens calls room where
  program := consumes_declaration _ (statements.declaration.advances calls room)
  block := consumes_declaration _ (statements.declaration.advances calls room)
  arguments := consumes_item (expressions.expression.advances calls room)
  parameters := consumes_item (statements.binding.advances calls room)
  logicOr := consumes_operation _ (expressions.logicAnd.advances calls room)
  logicAnd := consumes_operation _ (expressions.equality.advances calls room)
  equality := consumes_operation _ (expressions.term.advances calls room)
  term := consumes_operation _ (expressions.factor.advances calls room)
  factor := consumes_operation _ (expressions.unary.advances calls room)

theorem parse_comes (ended : tokens.getLast?.map (·.kind) = some .finish) (room : Allowance)
    (cursor calls : Nat) (inside : cursor ≤ ending tokens)
    (enough : callsFrom tokens cursor ≤ calls) :
    let run := (Reading.ofTokens (tokens.drop cursor)).run room
    parse tokens calls room cursor = some (run.1, ending tokens - run.2.upcoming.length) :=
  Runs.comes (.ofTokens ended) (ending_eq ended) (fun _ _ => parse_run (.ofTokens ended) room)
    cursor calls inside enough

/-- Every production takes a token before it succeeds, and comes to what is read from the tokens that
are left; every iteration of a loop takes a token before the next one. So nothing goes on for ever,
whether or not the nesting is limited: from a cursor at the first end token at most, sixteen nested
calls for every token that is left are enough to parse a program, and it is the one that is read by
recursion on these tokens. -/
theorem productions_progress (ended : tokens.getLast?.map (·.kind) = some .finish) :
    ExpressionsProgress tokens ∧ StatementsProgress tokens ∧
    (∀ calls room, LoopsProgress tokens calls room) ∧
    ∀ room cursor calls, cursor ≤ ending tokens → callsFrom tokens cursor ≤ calls →
      let run := (Reading.ofTokens (tokens.drop cursor)).run room
      parse tokens calls room cursor = some (run.1, ending tokens - run.2.upcoming.length) := by
  have holds := Holds.ofTokens ended
  have last := ending_eq ended
  have expressions := expressions_progress holds last
  have statements := statements_progress holds last
  exact ⟨expressions, statements, loops_progress expressions statements, parse_comes ended⟩

theorem productions_progress_call :
    let tokens : List Token := [⟨.identifier, "f", ⟨1, 1⟩⟩, ⟨.leftParen, "(", ⟨1, 2⟩⟩,
      ⟨.rightParen, ")", ⟨1, 3⟩⟩, ⟨.semicolon, ";", ⟨1, 4⟩⟩, ⟨.finish, "", ⟨1, 5⟩⟩]
    let called : Expr := .call "f" [] ⟨1, 1⟩
    tokens.getLast?.map (·.kind) = some .finish ∧
      call tokens 1 .unlimited 0 = some (.ok called, 3) ∧ 0 < 3 ∧ 3 ≤ ending tokens ∧
      parse tokens 80 .unlimited 0 = some (.ok ⟨[.expression called ⟨1, 1⟩]⟩, 4) := by
  intro tokens called
  have ended : tokens.getLast?.map (·.kind) = some .finish := rfl
  have comes : call tokens 1 .unlimited 0 = some (.ok called, 3) := by cbv
  obtain ⟨expressions, -, -, parses⟩ := productions_progress ended
  have inside : 0 ≤ ending tokens := Nat.zero_le _
  obtain ⟨onward, within⟩ := expressions.call.advances 1 .unlimited inside comes
  refine ⟨ended, comes, onward, within, ?_⟩
  have read := parses .unlimited 0 80 inside (by decide)
  exact read.trans (by cbv)

/-- A call on a parser answers what the productions come to from its cursor, and leaves the cursor
where they leave it. -/
theorem parse_resumed (tokens : List Token) (runs : Nat) {calls : Nat}
    (enough : callsFrom (closed tokens) (Parser.resumed tokens runs).cursor ≤ calls) :
    parse (closed tokens) calls (.levels nestingLimit) (Parser.resumed tokens runs).cursor =
      some (Parser.answer tokens runs, (Parser.resumed tokens (runs + 1)).cursor) := by
  obtain ⟨behind, stands⟩ := Parser.resumed_stands tokens
  obtain ⟨before, upcoming, split, here, -⟩ := stands runs
  obtain ⟨used, rest, taken, there, ran⟩ := here.parse
  have left : Reading.ofTokens ((closed tokens).drop (Parser.resumed tokens runs).cursor) =
      ⟨upcoming, Reading.finishOf tokens⟩ := by
    rw [← Parser.resumed_tokens tokens runs]
    exact here.reading
  have last : ending (closed tokens) = (before ++ used).length + rest.length := by
    rw [ending, Parser.findIdx_closed, split, taken, ← List.append_assoc, List.length_append]
  have inside := (Parser.resumed_bounds tokens runs).1
  rw [parse_comes (closed_ended tokens) _ _ _ inside enough, left, ran, last, Parser.resumed,
    there.cursor, Nat.add_sub_cancel, Parser.answer]

end

end Cursor

end YalSyntax
