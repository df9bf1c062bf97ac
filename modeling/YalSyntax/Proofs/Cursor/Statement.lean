import YalSyntax.Proofs.Cursor.Expression

namespace YalSyntax

open Attempt

namespace Cursor

section

variable {α β : Type} {tokens : List Token} {reading : Reading}

theorem typeMark_run (holds : Holds tokens reading) (rest : List Token) :
    Runs reading (typeMark tokens) rest (Reading.typeMark rest).answer := by
  rw [typeMark, Reading.typeMark]
  cases marked : Reading.skip? .colon rest with
  | none => exact .accept_of_none holds (by decide) marked (.done none)
  | some behind =>
    refine .accept_of_some holds marked ?_
    exact .andThen (.consume holds (by decide) behind) fun _ _ _ => .done _

theorem binding_run (holds : Holds tokens reading) (rest : List Token) :
    Runs reading (binding tokens) rest (Reading.binding rest).answer := by
  rw [binding, Reading.binding]
  refine .andThen (.consume holds (by decide) rest) fun name later shorter => ?_
  exact .andThen (typeMark_run holds later) fun _ _ _ => .done _

theorem readsItems_parameters :
    ReadsItems Reading.binding fun _ => Reading.moreParameters :=
  ⟨fun _ _ _ _ => Reading.moreParameters.eq_def ..⟩

theorem initialValue_run (holds : Holds tokens reading) {calls : Nat} (room : Allowance)
    {rest : List Token} (enough : 16 * rest.length + 11 < calls) :
    Runs reading (initialValue tokens calls room) rest (Reading.initialValue room rest).answer := by
  rw [initialValue, Reading.initialValue]
  cases marked : Reading.skip? .equal rest with
  | none => exact .accept_of_none holds (by decide) marked (.done none)
  | some behind =>
    obtain ⟨later, shorter⟩ := behind
    refine .accept_of_some holds marked ?_
    exact .andThen (expression_run holds calls room later (by omega)) fun _ _ _ => .done _

/-- A word and what is read behind it. -/
def headed (kind : Token.Kind)
    (others : Position → {bound : Nat} → (rest : List Token) → rest.length < bound →
      Outcome α bound)
    (tokens : List Token) : Outcome α tokens.length :=
  (Reading.expect kind tokens).andThen fun word rest shorter => others word.position rest shorter

theorem headed_of_kind {kind : Token.Kind} {word : Token} (same : word.kind = kind)
    (others : Position → {bound : Nat} → (rest : List Token) → rest.length < bound →
      Outcome α bound)
    (rest : List Token) :
    headed kind others (word :: rest) =
      others word.position rest (Nat.lt_succ_self _) := by
  rw [headed, Reading.expect_of_kind same, Outcome.andThen_ok]

def preceded (kind : Token.Kind) (others : Position → (rest : List Token) → Outcome α rest.length) :
    (tokens : List Token) → Outcome α tokens.length :=
  headed kind fun position _ rest within => widened within (others position rest)

theorem letDeclaration_run (holds : Holds tokens reading) {calls : Nat} (room : Allowance)
    {rest : List Token} (enough : 16 * rest.length < calls) :
    Runs reading (letDeclaration tokens calls room) rest
      (preceded .letWord (Reading.letRest room) rest).answer := by
  rw [letDeclaration, preceded, headed]
  refine .andThen (.consume holds (by decide) rest) fun word later shorter => ?_
  rw [answer_widened, Reading.letRest]
  refine .andThen (binding_run holds later) fun name later fewer => ?_
  refine .andThen (initialValue_run holds room (by omega)) fun value later _ => ?_
  exact .andThen (.consume holds (by decide) later) fun _ _ _ => .done _

theorem typeDefinition_run (holds : Holds tokens reading) (rest : List Token) :
    Runs reading (typeDefinition tokens) rest
      (preceded .typeWord Reading.typeRest rest).answer := by
  rw [typeDefinition, preceded, headed]
  refine .andThen (.consume holds (by decide) rest) fun word later _ => ?_
  rw [answer_widened, Reading.typeRest]
  refine .andThen (.consume holds (by decide) later) fun name later _ => ?_
  refine .andThen (.consume holds (by decide) later) fun _ later _ => ?_
  refine .andThen (.consume holds (by decide) later) fun underlying later _ => ?_
  exact .andThen (.consume holds (by decide) later) fun _ _ _ => .done _

theorem decide_headD_kind (holds : Holds tokens reading) {kind : Token.Kind}
    (other : kind ≠ .finish) (rest : List Token) :
    decide ((rest.headD reading.finish).kind = kind) = Reading.nextIs kind rest := by
  cases rest with
  | nil => simpa [Reading.nextIs, holds.ends] using other.symm
  | cons first rest => rfl

theorem expressionStatement_run (holds : Holds tokens reading) {calls : Nat} (room : Allowance)
    {rest : List Token} (enough : 16 * rest.length + 11 < calls) :
    Runs reading (expressionStatement tokens calls room) rest
      (Reading.expressionStatement room rest).answer := by
  rw [expressionStatement, Reading.expressionStatement]
  simp only [Nesting.andThen_room, Nesting.level_room]
  refine .peek holds (.andThen (expression_run holds calls room rest enough)
    fun value later shorter => .check holds .rightBrace ?_)
  have start : (rest.headD reading.finish).position = Reading.here rest := by
    cases rest with
    | nil => exact absurd shorter (Nat.not_lt_zero _)
    | cons first rest => rfl
  rw [start, decide_headD_kind holds (by decide) later]
  split
  · exact .done _
  · exact .andThen (.consume holds (by decide) later) fun _ _ _ => .done _

theorem condition_run (holds : Holds tokens reading) {calls : Nat} (room : Allowance)
    {rest : List Token} (enough : 16 * rest.length < calls) :
    Runs reading (condition tokens calls room) rest (Reading.condition room rest).answer := by
  rw [condition, Reading.condition]
  refine .andThen (.consume holds (by decide) rest) fun _ later shorter => ?_
  refine .andThen (expression_run holds calls room later (by omega)) fun value later _ => ?_
  exact .andThen (.consume holds (by decide) later) fun _ _ _ => .done _

theorem firstClause_run (holds : Holds tokens reading) {calls : Nat} (room : Allowance)
    {rest : List Token} (enough : 16 * rest.length + 11 < calls) :
    Runs reading (firstClause tokens calls room) rest (Reading.firstClause room rest).answer := by
  rw [firstClause, Reading.firstClause]
  cases empty : Reading.skip? .semicolon rest with
  | some behind => exact .accept_of_some holds empty (.done none)
  | none =>
    refine .accept_of_none holds (by decide) empty (.check holds .letWord ?_)
    cases declared : Reading.skip? .letWord rest with
    | none =>
      have different := headD_kind_ne holds (by decide) declared
      simp only [different, decide_false, Bool.false_eq_true, if_false]
      exact .andThen (expressionStatement_run holds room enough) fun _ _ _ => .done _
    | some behind =>
      obtain ⟨later, shorter⟩ := behind
      obtain ⟨word, rfl, isLet⟩ := Reading.skip?_eq_some declared
      simp only [List.headD_cons, isLet, decide_true, if_true]
      have follows : Runs reading (letDeclaration tokens calls room) (word :: later) _ :=
        letDeclaration_run holds room (by omega)
      rw [preceded, headed_of_kind isLet] at follows
      rw [Reading.here]
      cases read : Reading.letRest room word.position later with
      | ok first last fewer =>
        rw [read] at follows
        exact follows.behind (.done (some first))
      | error fault last =>
        rw [read] at follows
        exact follows.stop _

theorem clause_run (holds : Holds tokens reading) {calls : Nat} (room : Allowance)
    {close : Token.Kind} (other : close ≠ .finish) {rest : List Token}
    (enough : 16 * rest.length + 11 < calls) :
    Runs reading (clause tokens calls room close) rest (Reading.clause room close rest).answer := by
  rw [clause, Reading.clause]
  refine .check holds close ?_
  cases empty : Reading.skip? close rest with
  | none =>
    simp only [headD_kind_ne holds other empty, decide_false, Bool.false_eq_true, if_false]
    refine .andThen (expression_run holds calls room rest enough) fun value later _ => ?_
    exact .andThen (.consume holds other later) fun _ _ _ => .done _
  | some behind =>
    obtain ⟨later, shorter⟩ := behind
    obtain ⟨closer, rfl, same⟩ := Reading.skip?_eq_some empty
    simp only [List.headD_cons, same, decide_true, if_true]
    exact (Runs.consume_of_kind holds same later).behind (.done none)

theorem declarationIteration_bind (ends : Token.Kind → Bool) (declaration : Attempt Stmt)
    (read : List Stmt) (next : List Stmt ⊕ List Stmt → Attempt β) :
    declarationIteration tokens ends declaration read >>= next = peek tokens >>= fun first =>
      if ends first.kind then next (.inr read.reverse)
      else declaration >>= fun stmt => next (.inl (stmt :: read)) := by
  rw [declarationIteration, bind_assoc]
  congr 1
  funext first
  split
  · exact pure_bind _ next
  · rw [bind_assoc]
    simp only [pure_bind]

theorem blockRest_run (holds : Holds tokens reading) {room : Allowance} {position : Position}
    {declaration : Attempt Stmt} (more : Nat) {bound : Nat} (read : List Stmt) (rest : List Token)
    (within : rest.length < bound)
    (runs : ∀ later : List Token, later.length ≤ rest.length →
      Runs reading declaration later (Reading.declaration room later).answer)
    (enough : rest.length < more) :
    Runs reading (loop (declarationIteration tokens endsBlock declaration) more read >>= fun body =>
        consume tokens .rightBrace >>= fun _ => pure (.block body position)) rest
      (Reading.blockRest room position read rest within).answer := by
  induction more generalizing bound read rest with
  | zero => omega
  | succ more further =>
    rw [loop_bind, declarationIteration_bind, Reading.blockRest]
    refine .peek holds ?_
    cases rest with
    | nil =>
      rw [List.headD_nil, holds.ends]
      exact (Runs.consume holds (by decide) []).stop _
    | cons first rest =>
      by_cases isClose : first.kind = .rightBrace
      · rw [List.headD_cons, isClose, Reading.skip?_of_kind isClose]
        exact (Runs.consume_of_kind holds isClose rest).behind (.done _)
      · refine .knowing fun inside => ?_
        have goesOn : endsBlock first.kind = false := by
          simp [endsBlock, isClose, holds.plain first (inside.subset (by simp))]
        rw [List.headD_cons, goesOn, Reading.skip?_of_ne isClose]
        refine .andThen (runs _ (Nat.le_refl _)) fun stmt later shorter => ?_
        exact further (stmt :: read) later _ (fun last fits => runs last (by omega)) (by omega)

theorem declarations_run (holds : Holds tokens reading) {room : Allowance}
    {declaration : Attempt Stmt} (more : Nat) (read : List Stmt) (rest : List Token)
    (runs : ∀ later : List Token, later.length ≤ rest.length →
      Runs reading declaration later (Reading.declaration room later).answer)
    (enough : rest.length < more) :
    Runs reading (loop (declarationIteration tokens endsProgram declaration) more read >>=
      fun statements => pure ⟨statements⟩) rest (Reading.declarations room read rest) := by
  induction more generalizing read rest with
  | zero => omega
  | succ more further =>
    rw [loop_bind, declarationIteration_bind, Reading.declarations_eq]
    refine .peek holds ?_
    cases rest with
    | nil =>
      rw [List.headD_nil, holds.ends]
      exact .done _
    | cons first rest =>
      refine .knowing fun inside => ?_
      have goesOn : endsProgram first.kind = false := by
        simp [endsProgram, holds.plain first (inside.subset (by simp))]
      have first_run := runs (first :: rest) (Nat.le_refl _)
      rw [List.headD_cons, goesOn, List.isEmpty_cons]
      cases read : Reading.declaration room (first :: rest) with
      | error fault later =>
        rw [read] at first_run
        exact first_run.stop _
      | ok stmt later shorter =>
        rw [read] at first_run
        exact first_run.behind (further _ later (fun last fits => runs last (by omega)) (by omega))

mutual

theorem declaration_run (holds : Holds tokens reading) : ∀ (calls : Nat) (room : Allowance)
    (rest : List Token), 16 * rest.length + 13 < calls →
      Runs reading (declaration tokens calls room) rest (Reading.declaration room rest).answer
  | calls + 1, room, rest, enough => by
    rw [declaration, Reading.declaration.eq_def]
    refine .peek holds ?_
    cases rest with
    | nil =>
      simp only [List.headD_nil, holds.ends]
      exact statement_run holds calls room [] (by omega)
    | cons word rest =>
      rw [List.headD_cons]
      dsimp only
      by_cases isLet : word.kind = .letWord
      · rw [if_pos isLet, if_pos isLet]
        have follows : Runs reading (letDeclaration tokens calls room) (word :: rest) _ :=
          letDeclaration_run holds room (by omega)
        rw [preceded, headed_of_kind isLet] at follows
        exact follows
      rw [if_neg isLet, if_neg isLet]
      by_cases isType : word.kind = .typeWord
      · rw [if_pos isType, if_pos isType]
        have follows := typeDefinition_run holds (word :: rest)
        rw [preceded, headed_of_kind isType] at follows
        exact follows
      · rw [if_neg isType, if_neg isType]
        exact statement_run holds calls room (word :: rest) (by omega)

theorem statement_run (holds : Holds tokens reading) : ∀ (calls : Nat) (room : Allowance)
    (rest : List Token), 16 * rest.length + 12 < calls →
      Runs reading (statement tokens calls room) rest (Reading.statement room rest).answer
  | calls + 1, room, rest, enough => by
    rw [statement, Reading.statement]
    refine .deeper holds fun room => .peek holds ?_
    cases rest with
    | nil =>
      simp only [List.headD_nil, holds.ends]
      exact expressionStatement_run holds room (by omega)
    | cons word rest =>
      have within : 16 * (word :: rest).length < calls := by omega
      rw [List.headD_cons]
      dsimp only
      by_cases isFn : word.kind = .fnWord
      · rw [if_pos isFn, if_pos isFn, ← headed_of_kind isFn (Reading.functionRest room)]
        exact functionDeclaration_run holds calls room (word :: rest) within
      rw [if_neg isFn, if_neg isFn]
      by_cases isFor : word.kind = .forWord
      · rw [if_pos isFor, if_pos isFor, ← headed_of_kind isFor (Reading.forRest room)]
        exact forStatement_run holds calls room (word :: rest) within
      rw [if_neg isFor, if_neg isFor]
      by_cases isWhile : word.kind = .whileWord
      · rw [if_pos isWhile, if_pos isWhile, ← headed_of_kind isWhile (Reading.whileRest room)]
        exact whileStatement_run holds calls room (word :: rest) within
      rw [if_neg isWhile, if_neg isWhile]
      by_cases isIf : word.kind = .ifWord
      · rw [if_pos isIf, if_pos isIf, ← headed_of_kind isIf (Reading.ifRest room)]
        exact ifStatement_run holds calls room (word :: rest) within
      rw [if_neg isIf, if_neg isIf]
      by_cases isOpen : word.kind = .leftBrace
      · rw [if_pos isOpen, if_pos isOpen,
          ← headed_of_kind isOpen fun position {_} => Reading.blockRest room position []]
        exact block_run holds calls room (word :: rest) within
      · rw [if_neg isOpen, if_neg isOpen]
        exact expressionStatement_run holds room (by omega)

theorem functionDeclaration_run (holds : Holds tokens reading) : ∀ (calls : Nat) (room : Allowance)
    (rest : List Token), 16 * rest.length < calls →
      Runs reading (functionDeclaration tokens calls room) rest
        (headed .fnWord (Reading.functionRest room) rest).answer
  | calls + 1, room, rest, enough => by
    rw [functionDeclaration, headed]
    refine .andThen (.consume holds (by decide) rest) fun word later shorter => ?_
    rw [Reading.functionRest]
    refine .andThen (.consume holds (by decide) later) fun name later _ => ?_
    refine .andThen (.consume holds (by decide) later) fun _ later _ => ?_
    refine .andThen ?_ fun parameters later _ => ?_
    · rw [Reading.parameters]
      exact closed_items_run holds readsItems_parameters
        (fun last _ => binding_run holds last) (by omega)
    refine .andThen (typeMark_run holds later) fun returns later _ => ?_
    exact .andThen (statement_run holds calls room later (by omega)) fun _ _ _ => .done _

theorem forStatement_run (holds : Holds tokens reading) : ∀ (calls : Nat) (room : Allowance)
    (rest : List Token), 16 * rest.length < calls →
      Runs reading (forStatement tokens calls room) rest
        (headed .forWord (Reading.forRest room) rest).answer
  | calls + 1, room, rest, enough => by
    rw [forStatement, headed]
    refine .andThen (.consume holds (by decide) rest) fun word later shorter => ?_
    rw [Reading.forRest]
    refine .andThen (.consume holds (by decide) later) fun _ later _ => ?_
    refine .andThen (firstClause_run holds room (by omega)) fun initializer later _ => ?_
    refine .andThen (clause_run holds room (by decide) (by omega)) fun condition later _ => ?_
    refine .andThen (clause_run holds room (by decide) (by omega)) fun increment later _ => ?_
    exact .andThen (statement_run holds calls room later (by omega)) fun _ _ _ => .done _

theorem whileStatement_run (holds : Holds tokens reading) : ∀ (calls : Nat) (room : Allowance)
    (rest : List Token), 16 * rest.length < calls →
      Runs reading (whileStatement tokens calls room) rest
        (headed .whileWord (Reading.whileRest room) rest).answer
  | calls + 1, room, rest, enough => by
    rw [whileStatement, headed]
    refine .andThen (.consume holds (by decide) rest) fun word later shorter => ?_
    rw [Reading.whileRest]
    refine .andThen (condition_run holds room (by omega)) fun condition later _ => ?_
    exact .andThen (statement_run holds calls room later (by omega)) fun _ _ _ => .done _

theorem ifStatement_run (holds : Holds tokens reading) : ∀ (calls : Nat) (room : Allowance)
    (rest : List Token), 16 * rest.length < calls →
      Runs reading (ifStatement tokens calls room) rest
        (headed .ifWord (Reading.ifRest room) rest).answer
  | calls + 1, room, rest, enough => by
    rw [ifStatement, headed]
    refine .andThen (.consume holds (by decide) rest) fun word later shorter => ?_
    rw [Reading.ifRest]
    simp only [Nesting.andThen_room, Nesting.level_room]
    refine .andThen (condition_run holds room (by omega)) fun condition later _ => ?_
    refine .andThen (statement_run holds calls room later (by omega)) fun yes later _ => ?_
    cases other : Reading.skip? .elseWord later with
    | none => exact .accept_of_none holds (by decide) other (.done _)
    | some behind =>
      obtain ⟨last, fewer⟩ := behind
      refine .accept_of_some holds other ?_
      exact .andThen (statement_run holds calls room last (by omega)) fun _ _ _ => .done _

theorem block_run (holds : Holds tokens reading) : ∀ (calls : Nat) (room : Allowance)
    (rest : List Token), 16 * rest.length < calls →
      Runs reading (block tokens calls room) rest
        (headed .leftBrace (fun position {_} => Reading.blockRest room position []) rest).answer
  | calls + 1, room, rest, enough => by
    rw [block, headed]
    refine .andThen (.consume holds (by decide) rest) fun opener later shorter => ?_
    exact blockRest_run holds calls [] later shorter
      (fun last fits => declaration_run holds calls room last (by omega)) (by omega)

end

theorem parse_run (holds : Holds tokens reading) {calls : Nat} (room : Allowance)
    {rest : List Token} (enough : 16 * rest.length + 13 < calls) :
    Runs reading (parse tokens calls room) rest (Reading.declarations room [] rest) :=
  declarations_run holds calls [] rest
    (fun later fits => declaration_run holds calls room later (by omega)) (by omega)

end

end Cursor

end YalSyntax
