import YalSyntax.Proofs.Locality.Extension
import YalSyntax.Proofs.Parser

namespace YalSyntax

namespace Reader

variable {room : Allowance} {before : List Stmt} {tokens more rest : List Token} {stmt : Stmt}

theorem declarations_nil : declarations room before [] = (.ok ⟨before.reverse⟩, []) := by
  rw [declarations_eq]
  rfl

theorem declarations_cons (first : Token) (tokens : List Token) :
    declarations room before (first :: tokens) =
      (declaration room).andThen (fun stmt => declarations room (stmt :: before))
        (first :: tokens) := by
  rw [declarations_eq]
  rfl

theorem declarations_of_declaration (read : declaration room tokens = (.ok stmt, rest)) :
    declarations room before tokens = declarations room (stmt :: before) rest := by
  cases tokens with
  | nil => exact absurd read (NeedsToken.of_outcome stmt rest)
  | cons first tokens => rw [declarations_cons, andThen, read]

theorem declarations_eq_ok {first : Token} {program : Program}
    (read : declarations room before (first :: tokens) = (.ok program, rest)) :
    ∃ stmt middle, declaration room (first :: tokens) = (.ok stmt, middle) ∧
      declarations room (stmt :: before) middle = (.ok program, rest) := by
  rw [declarations_cons, andThen] at read
  split at read
  · rename_i stmt middle found
    exact ⟨stmt, middle, found, read⟩
  · cases read

theorem declarations_after (room : Allowance) (earlier before : List Stmt) (tokens : List Token) :
    declarations room (before ++ earlier) tokens =
      (declarations room before tokens).map
        (Except.map fun program => ⟨earlier.reverse ++ program.statements⟩) id := by
  cases tokens with
  | nil =>
    rw [declarations_nil, declarations_nil, List.reverse_append]
    rfl
  | cons first tokens =>
    rw [declarations_cons, declarations_cons, andThen, andThen]
    cases read : declaration room (first :: tokens) with
    | mk result rest =>
      cases result with
      | ok stmt =>
        obtain ⟨shorter, -⟩ := Outcome.answer_eq_ok read
        exact declarations_after room earlier (stmt :: before) rest
      | error fault => rfl
termination_by tokens.length
decreasing_by exact shorter

/-- What is read as a program is read in front of more tokens as well. -/
theorem declarations_append (noElse : ∀ next ∈ more.head?, next.kind ≠ .elseWord)
    (before : List Stmt) (tokens : List Token) {program : Program}
    (read : declarations room before tokens = (.ok program, [])) :
    declarations room before (tokens ++ more) =
      declarations room program.statements.reverse more := by
  cases tokens with
  | nil =>
    rw [declarations_nil, Prod.mk.injEq, Except.ok.injEq] at read
    rw [List.nil_append, ← read.1, List.reverse_reverse]
  | cons first tokens =>
    obtain ⟨stmt, middle, found, left⟩ := declarations_eq_ok read
    obtain ⟨shorter, -⟩ := Outcome.answer_eq_ok found
    rw [declarations_of_declaration (declaration_extends noElse room _ _ _ found)]
    exact declarations_append noElse (stmt :: before) middle left
termination_by tokens.length
decreasing_by subst_vars; exact shorter

theorem ne_rightBrace_of_declaration {first : Token}
    (read : declaration room (first :: tokens) = (.ok stmt, rest)) : first.kind ≠ .rightBrace := by
  obtain ⟨shorter, read⟩ := Outcome.answer_eq_ok read
  obtain ⟨_, _, split, opens⟩ := (Reading.declaration_sound room _ read).starts
  cases split
  intro isClose
  rw [isClose] at opens
  cases opens

theorem blockRest_append {closer : Token} (isClose : closer.kind = .rightBrace)
    (position : Position) (before : List Stmt) (tokens : List Token) {program : Program}
    (read : declarations room before tokens = (.ok program, [])) :
    blockRest room position before (tokens ++ closer :: more) =
      (.ok (.block program.statements position), more) := by
  cases tokens with
  | nil =>
    rw [declarations_nil, Prod.mk.injEq, Except.ok.injEq] at read
    rw [List.nil_append, blockRest_eq, takeKind_of_eq isClose, ← read.1]
    rfl
  | cons first tokens =>
    obtain ⟨stmt, middle, found, left⟩ := declarations_eq_ok read
    obtain ⟨shorter, -⟩ := Outcome.answer_eq_ok found
    have noElse : ∀ next ∈ (closer :: more).head?, next.kind ≠ .elseWord := by simp [isClose]
    have again := declaration_extends noElse room _ _ _ found
    rw [List.cons_append] at again ⊢
    rw [blockRest_eq, takeKind_of_ne (ne_rightBrace_of_declaration found), branch,
      if_neg (by simp), andThen, again]
    exact blockRest_append isClose position (stmt :: before) middle left
termination_by tokens.length
decreasing_by subst_vars; exact shorter

theorem declarations_block {inner : Allowance} (opens : room.open? = some inner)
    {opener closer : Token} (isOpen : opener.kind = .leftBrace)
    (isClose : closer.kind = .rightBrace) {program : Program}
    (read : declarations inner [] tokens = (.ok program, [])) :
    declarations room [] (opener :: tokens ++ [closer]) =
      (.ok ⟨[.block program.statements opener.position]⟩, []) := by
  have block : blockRest inner opener.position [] (tokens ++ [closer]) =
      (.ok (.block program.statements opener.position), []) :=
    blockRest_append isClose opener.position [] tokens read
  have braced : declaration room (opener :: tokens ++ [closer]) =
      (.ok (.block program.statements opener.position), []) := by
    rw [List.cons_append, declaration_eq, takeKind_of_ne (by simp [isOpen]),
      takeKind_of_ne (by simp [isOpen]), statement_eq, nested, opens]
    dsimp only
    rw [takeKind_of_ne (by simp [isOpen]), takeKind_of_ne (by simp [isOpen]),
      takeKind_of_ne (by simp [isOpen]), takeKind_of_ne (by simp [isOpen]), takeKind_of_eq isOpen]
    exact block
  rw [declarations_of_declaration braced, declarations_nil]
  rfl

end Reader

open Reading

theorem content_plain_append {tokens : List Token} (plain : ∀ token ∈ tokens, token.kind ≠ .finish)
    (more : List Token) : content (tokens ++ more) = tokens ++ content more :=
  List.takeWhile_append_of_pos (by simpa using plain)

theorem mem_head?_of_content {tokens : List Token} {first : Token}
    (member : first ∈ (content tokens).head?) : first ∈ tokens.head? := by
  cases tokens with
  | nil => exact member
  | cons next tokens =>
    rw [content, List.takeWhile_cons] at member
    split at member
    · exact member
    · cases member

theorem finishOf_plain_append {tokens more : List Token}
    (plain : ∀ token ∈ tokens, token.kind ≠ .finish) (some : more ≠ []) :
    finishOf (tokens ++ more) = finishOf more := by
  have none : tokens.find? isFinish = none := by simpa [isFinish] using plain
  rw [finishOf, finishOf, List.find?_append, none, Option.none_or,
    List.getLast?_append_of_ne_nil tokens some]

theorem declarations_of_run {tokens : List Token} {room : Allowance}
    (plain : ∀ token ∈ tokens, token.kind ≠ .finish) {program : Program}
    (read : ((Reading.ofTokens tokens).run room).1 = .ok program) :
    declarations room [] tokens = (.ok program, []) := by
  obtain ⟨rest, found⟩ := run_eq_ok read
  obtain rfl := declarations_rest_of_ok _ _ _ found
  rwa [ofTokens_upcoming, content_of_plain plain] at found

theorem parseTokens_append {tokens more : List Token}
    (plain : ∀ token ∈ tokens, token.kind ≠ .finish) {program : Program}
    (read : parseTokens tokens = .ok program)
    (noElse : ∀ next ∈ more.head?, next.kind ≠ .elseWord) :
    parseTokens (tokens ++ more) =
      (parseTokens more).map fun others => ⟨program.statements ++ others.statements⟩ := by
  cases more with
  | nil =>
    rw [List.append_nil, read, parseTokens, ofTokens_eq, content, List.takeWhile_nil, run_nil]
    simp [Except.map]
  | cons next more =>
    have ahead : ∀ first ∈ (content (next :: more)).head?, first.kind ≠ .elseWord :=
      fun first member => noElse first (mem_head?_of_content member)
    -- the end is the same as well: where it is not given, the last token places it
    have joined := Reader.declarations_append ahead [] tokens (declarations_of_run plain read)
    have after := Reader.declarations_after (.levels nestingLimit) program.statements.reverse []
      (content (next :: more))
    rw [List.nil_append, List.reverse_reverse] at after
    rw [after] at joined
    change declarations _ _ _ = Prod.map _ _ (declarations _ _ _) at joined
    rw [parseTokens, parseTokens, ofTokens_eq, ofTokens_eq, content_plain_append plain,
      finishOf_plain_append plain (List.cons_ne_nil next more), run, run]
    dsimp only
    rw [joined]
    cases declarations (.levels nestingLimit) [] (content (next :: more)) with
    | mk result rest => cases result <;> rfl

theorem run_block {tokens : List Token} {room inner : Allowance} (opens : room.open? = some inner)
    {opener closer : Token} (isOpen : opener.kind = .leftBrace)
    (isClose : closer.kind = .rightBrace) {program : Program}
    (read : declarations inner [] tokens = (.ok program, [])) (finish : Token) :
    ((Reading.mk (opener :: tokens ++ [closer]) finish).run room).1 =
      .ok ⟨[.block program.statements opener.position]⟩ :=
  run_of_ok (Reader.declarations_block opens isOpen isClose read)

theorem ofTokens_block {tokens behind : List Token} {opener closer : Token}
    (plain : ∀ token ∈ tokens, token.kind ≠ .finish) (isOpen : opener.kind = .leftBrace)
    (isClose : closer.kind = .rightBrace) (ended : ∀ next ∈ behind.head?, next.kind = .finish) :
    ∃ finish, Reading.ofTokens (opener :: tokens ++ closer :: behind) =
      ⟨opener :: tokens ++ [closer], finish⟩ := by
  have nothing : content behind = [] := by
    cases behind with
    | nil => rfl
    | cons next behind => simp [content, ended next rfl]
  have inside : ∀ token ∈ opener :: tokens ++ [closer], token.kind ≠ .finish := by
    intro token member
    simp only [List.cons_append, List.mem_cons, List.mem_append, List.not_mem_nil, or_false]
      at member
    rcases member with rfl | member | rfl
    · simp [isOpen]
    · exact plain token member
    · simp [isClose]
  refine ⟨finishOf (opener :: tokens ++ closer :: behind), ?_⟩
  rw [ofTokens_eq, List.append_cons, content_plain_append inside, nothing, List.append_nil]

/-- A program and what follows it are read as they are read apart, unless an `else` follows, and
between braces a program is a block. Only the nesting limit can refuse the block, and it does not if
the program itself is one level below the limit. -/
theorem parseTokens_composes {tokens : List Token} {program : Program}
    (plain : ∀ token ∈ tokens, token.kind ≠ .finish) (read : parseTokens tokens = .ok program) :
    (∀ more : List Token, (∀ next ∈ more.head?, next.kind ≠ .elseWord) →
      (∀ others, parseTokens more = .ok others →
        parseTokens (tokens ++ more) = .ok ⟨program.statements ++ others.statements⟩) ∧
      ∀ error, parseTokens more = .error error → parseTokens (tokens ++ more) = .error error) ∧
    ∀ (opener closer : Token) (behind : List Token), opener.kind = .leftBrace →
      closer.kind = .rightBrace → (∀ next ∈ behind.head?, next.kind = .finish) →
      let block : Program := ⟨[.block program.statements opener.position]⟩
      let braced := parseTokens (opener :: tokens ++ closer :: behind)
      (braced = .ok block ∨ ∃ position, braced = .error (.tooDeep position)) ∧
      (((Reading.ofTokens tokens).run (.levels (nestingLimit - 1))).1 = .ok program →
        braced = .ok block) := by
  refine ⟨fun more noElse => ?_, fun opener closer behind isOpen isClose ended => ?_⟩
  · have joined := parseTokens_append plain read noElse
    refine ⟨fun others found => ?_, fun error failed => ?_⟩
    · rw [joined, found]
      rfl
    · rw [joined, failed]
      rfl
  · intro block braced
    obtain ⟨finish, inside⟩ := ofTokens_block plain isOpen isClose ended
    have same : braced = ((Reading.mk (opener :: tokens ++ [closer]) finish).run
        (.levels nestingLimit)).1 := by
      simp only [braced, parseTokens, inside]
    refine ⟨?_, fun below => ?_⟩
    · -- without a limit the block is read, and a limit can only stop that reading
      have unlimited : ((Reading.ofTokens tokens).run .unlimited).1 = .ok program := by
        rcases run_levels_cases (Reading.ofTokens tokens) nestingLimit with
          ⟨-, alike⟩ | ⟨_, beyond, _, _, _, _, stopped⟩
        · rw [← alike]
          exact read
        · rw [parseTokens, stopped] at read
          cases read
      have opens : Allowance.unlimited.open? = some .unlimited := rfl
      have whole := run_block opens isOpen isClose (declarations_of_run plain unlimited) finish
      rcases run_levels_cases ⟨opener :: tokens ++ [closer], finish⟩ nestingLimit with
        ⟨-, alike⟩ | ⟨_, beyond, _, _, _, _, stopped⟩
      · exact .inl (by rw [same, alike, whole])
      · exact .inr ⟨_, by rw [same, stopped]; rfl⟩
    · rw [same]
      exact run_block rfl isOpen isClose (declarations_of_run plain below) finish

theorem parseTokens_composes_conditional :
    let tokens : List Token := [⟨.ifWord, "if", ⟨1, 1⟩⟩, ⟨.leftParen, "(", ⟨1, 3⟩⟩,
      ⟨.identifier, "x", ⟨1, 4⟩⟩, ⟨.rightParen, ")", ⟨1, 5⟩⟩, ⟨.identifier, "y", ⟨1, 7⟩⟩,
      ⟨.semicolon, ";", ⟨1, 8⟩⟩]
    let statement : Stmt := .conditional (.ident "x" ⟨1, 4⟩)
      (.expression (.ident "y" ⟨1, 7⟩) ⟨1, 7⟩) none ⟨1, 1⟩
    let closer : Token := ⟨.rightBrace, "\x7d", ⟨2, 1⟩⟩
    (∀ token ∈ tokens, token.kind ≠ .finish) ∧ parseTokens tokens = .ok ⟨[statement]⟩ ∧
      parseTokens (tokens ++ [closer]) = .error (.expectedExpression closer) ∧
      parseTokens (⟨.leftBrace, "\x7b", ⟨1, 0⟩⟩ :: tokens ++ [closer]) =
        .ok ⟨[.block [statement] ⟨1, 0⟩]⟩ := by
  intro tokens statement closer
  have plain : ∀ token ∈ tokens, token.kind ≠ .finish := by decide
  have read : parseTokens tokens = .ok ⟨[statement]⟩ := by cbv
  obtain ⟨behind, between⟩ := parseTokens_composes plain read
  refine ⟨plain, read, (behind [closer] (by decide)).2 _ (by cbv), ?_⟩
  exact (between _ closer [] rfl rfl (by simp)).2 (by cbv)

end YalSyntax
