import YalSyntax.Proofs.Locality.Statement

namespace YalSyntax

section

variable {α β : Type} (more : List Token)

/-- What is read of the tokens is read when others stand behind them. -/
def Extends (reader : Reader α) (tokens : List Token) : Prop :=
  ∀ value rest, reader tokens = (.ok value, rest) →
    reader (tokens ++ more) = (.ok value, rest ++ more)

/-- The same of what leaves a token. -/
def ExtendsBefore (reader : Reader α) (tokens : List Token) : Prop :=
  ∀ value rest, rest ≠ [] → reader tokens = (.ok value, rest) →
    reader (tokens ++ more) = (.ok value, rest ++ more)

def NeedsToken (reader : Reader α) : Prop := ∀ value rest, reader [] ≠ (.ok value, rest)

namespace NeedsToken

theorem expect (kind : Token.Kind) : NeedsToken (Reader.expect kind) := nofun

theorem of_outcome {read : (tokens : List Token) → Outcome α tokens.length} :
    NeedsToken fun tokens => (read tokens).answer := by
  intro value rest found
  obtain ⟨shorter, -⟩ := Outcome.answer_eq_ok found
  exact Nat.not_lt_zero _ shorter

theorem andThen {reader : Reader α} {next : α → Reader β} (needs : NeedsToken reader) :
    NeedsToken (reader.andThen next) := by
  intro value rest found
  rw [Reader.andThen] at found
  split at found
  · rename_i read
    exact needs _ _ read
  · cases found

theorem andThen_of {reader : Reader α} {next : α → Reader β} {value : α}
    (takesNone : reader [] = (.ok value, [])) (needs : NeedsToken (next value)) :
    NeedsToken (reader.andThen next) := by
  intro result rest found
  rw [Reader.andThen, takesNone] at found
  exact needs result rest found

end NeedsToken

theorem Mirrors.extendsBefore {change : α → α} {reader : Reader α} {tokens : List Token}
    (mirrors : Mirrors id id change reader reader tokens) (same : ∀ value, change value = value) :
    ExtendsBefore more reader tokens := by
  intro value rest some read
  obtain ⟨used, split, -, sees⟩ := mirrors
  have kept : Token.map id id = id := rfl
  rw [read] at split sees
  simp only [kept, List.map_id, Option.map_id_fun, id_eq] at sees
  obtain ⟨next, behind, rfl⟩ := List.exists_cons_of_ne_nil some
  have again := sees (next :: behind ++ more) (.inr rfl)
  rw [← List.append_assoc, ← split] at again
  rw [again, mapResult, same]

variable {more}

namespace Extends

variable {reader other : Reader α} {tokens : List Token}

theorem of_needs (needs : NeedsToken reader) : Extends more reader [] :=
  fun value rest read => absurd read (needs value rest)

theorem done {value : α} : Extends more (Reader.done value) tokens := by
  intro result rest read
  cases read
  rfl

theorem fail {fault : Fault} : Extends more (Reader.fail fault : Reader α) tokens := nofun

theorem nested {room : Allowance} {body : Allowance → Reader α}
    (inner : ∀ room, Extends more (body room) tokens) :
    Extends more (Reader.nested room body) tokens := by
  unfold Reader.nested
  split
  · exact inner _
  · exact fail

theorem andThen {next : α → Reader β} (first : Extends more reader tokens)
    (second : ∀ value rest, reader tokens = (.ok value, rest) → Extends more (next value) rest) :
    Extends more (reader.andThen next) tokens := by
  intro result last read
  rw [Reader.andThen] at read
  split at read
  · rename_i value rest found
    rw [Reader.andThen, first value rest found]
    exact second value rest found result last read
  · cases read

theorem andThen_of_before {next : α → Reader β} (first : ExtendsBefore more reader tokens)
    (needs : ∀ value, NeedsToken (next value))
    (second : ∀ value rest, rest ≠ [] → reader tokens = (.ok value, rest) →
      Extends more (next value) rest) : Extends more (reader.andThen next) tokens := by
  intro result last read
  rw [Reader.andThen] at read
  split at read
  · rename_i value rest found
    have some : rest ≠ [] := by
      rintro rfl
      exact needs value result last read
    rw [Reader.andThen, first value rest some found]
    exact second value rest some found result last read
  · cases read

theorem takeKind {kind : Token.Kind} {taken : Token → Reader α}
    (yes : ∀ first rest, tokens = first :: rest → first.kind = kind →
      Extends more (taken first) rest)
    (no : Extends more other tokens)
    (ahead : tokens ≠ [] ∨ ∀ next ∈ more.head?, next.kind ≠ kind) :
    Extends more (Reader.takeKind kind taken other) tokens := by
  intro value rest read
  cases tokens with
  | nil =>
    have others := no value rest read
    rcases ahead with absent | missing
    · exact absurd rfl absent
    · rw [List.nil_append] at others ⊢
      rw [← others]
      exact Reader.takeIf_of_none (by simpa using missing) _ other
  | cons first tokens =>
    rw [List.cons_append]
    by_cases same : first.kind = kind
    · rw [Reader.takeKind_of_eq same] at read ⊢
      exact yes first tokens rfl same value rest read
    · rw [Reader.takeKind_of_ne same] at read ⊢
      exact no value rest read

theorem branch {test : Option Token.Kind → Bool} (some : tokens ≠ [])
    (yes : Extends more reader tokens) (no : Extends more other tokens) :
    Extends more (Reader.branch test reader other) tokens := by
  intro value rest read
  obtain ⟨first, behind, rfl⟩ := List.exists_cons_of_ne_nil some
  rw [Reader.branch] at read ⊢
  rw [List.cons_append, List.head?_cons] at *
  split at read
  · rename_i holds
    rw [if_pos holds]
    exact yes value rest read
  · rename_i fails
    rw [if_neg fails]
    exact no value rest read

theorem expect {kind : Token.Kind} : Extends more (Reader.expect kind) tokens := by
  cases tokens with
  | nil => exact of_needs (NeedsToken.expect kind)
  | cons first tokens => exact takeKind (fun _ _ _ _ => done) fail (.inl (List.cons_ne_nil _ _))

end Extends

end

namespace Reader

variable {more : List Token}

theorem letRest_extends (room : Allowance) (position : Position) (tokens : List Token) :
    Extends more (letRest room position) tokens := by
  have named := (binding_mirrors id id tokens).extendsBefore more Binding.map_id
  have given := fun rest =>
    (initialValue_mirrors id id room rest).extendsBefore more Expr.mapOption_id
  rw [letRest_eq]
  refine .andThen_of_before named (fun _ => .andThen_of rfl (.andThen (.expect _))) ?_
  intro name rest _ _
  refine .andThen_of_before (given rest) (fun _ => .andThen (.expect _)) fun _ _ _ _ => ?_
  exact .andThen .expect fun _ _ _ => .done

theorem typeRest_extends (position : Position) (tokens : List Token) :
    Extends more (typeRest position) tokens := by
  rw [typeRest_eq]
  exact .andThen .expect fun _ _ _ => .andThen .expect fun _ _ _ => .andThen .expect fun _ _ _ =>
    .andThen .expect fun _ _ _ => .done

theorem expression_extendsBefore (room : Allowance) (tokens : List Token) :
    ExtendsBefore more (expression room) tokens :=
  (expression_mirrors id id room tokens).extendsBefore more Expr.map_id

theorem expressionStatement_extends (room : Allowance) (tokens : List Token) :
    Extends more (expressionStatement room) tokens := by
  cases tokens with
  | nil => exact .of_needs .of_outcome
  | cons first tokens =>
    have here : Extends more (expressionAt room first.position) (first :: tokens) := by
      refine .andThen_of_before (expression_extendsBefore room _) (fun _ _ _ => nofun) ?_
      intro value rest some _
      exact .branch some .done (.andThen .expect fun _ _ _ => .done)
    intro value rest read
    rw [expressionStatement_eq] at read ⊢
    exact here value rest read

theorem condition_extendsBefore (room : Allowance) (tokens : List Token) :
    ExtendsBefore more (condition room) tokens :=
  (condition_mirrors id id room tokens).extendsBefore more Expr.map_id

theorem clause_extendsBefore (room : Allowance) (close : Token.Kind) (tokens : List Token) :
    ExtendsBefore more (clause room close) tokens :=
  (clause_mirrors id id room close tokens).extendsBefore more Expr.mapOption_id

theorem declaration_extendsBefore (room : Allowance) (tokens : List Token) :
    ExtendsBefore more (declaration room) tokens :=
  (declaration_mirrors id id room tokens).extendsBefore more Stmt.map_id

theorem blockRest_needs (room : Allowance) (position : Position) (before : List Stmt) :
    NeedsToken (blockRest room position before) := by
  rw [blockRest_eq]
  exact nofun

theorem blockRest_extends (room : Allowance) (position : Position) (before : List Stmt)
    (tokens : List Token) : Extends more (blockRest room position before) tokens := by
  cases tokens with
  | nil => exact .of_needs (blockRest_needs room position before)
  | cons first tokens =>
    have some : first :: tokens ≠ [] := List.cons_ne_nil first tokens
    rw [blockRest_eq]
    refine .takeKind (fun _ _ _ _ => .done) (.branch some .fail ?_) (.inl some)
    refine .andThen_of_before (declaration_extendsBefore room _)
      (fun stmt => blockRest_needs room position _) fun stmt rest _ read => ?_
    obtain ⟨shorter, -⟩ := Outcome.answer_eq_ok read
    exact blockRest_extends room position (stmt :: before) rest
termination_by tokens.length
decreasing_by exact shorter

mutual

theorem statement_extends (noElse : ∀ next ∈ more.head?, next.kind ≠ .elseWord) (room : Allowance)
    (tokens : List Token) : Extends more (statement room) tokens := by
  cases tokens with
  | nil => exact .of_needs .of_outcome
  | cons first tokens =>
    have some := List.cons_ne_nil first tokens
    rw [statement_eq]
    refine .nested fun room => ?_
    refine .takeKind (fun word rest split _ => functionRest_extends noElse room word.position rest)
      (.takeKind (fun word rest split _ => forRest_extends noElse room word.position rest)
        (.takeKind (fun word rest split _ => whileRest_extends noElse room word.position rest)
          (.takeKind (fun word rest split _ => ifRest_extends noElse room word.position rest)
            (.takeKind (fun word rest split _ => blockRest_extends room word.position [] rest)
              (expressionStatement_extends room _) (.inl some)) (.inl some)) (.inl some))
        (.inl some)) (.inl some)
termination_by 4 * tokens.length
decreasing_by all_goals cases split; simp only [List.length_cons]; omega

theorem functionRest_extends (noElse : ∀ next ∈ more.head?, next.kind ≠ .elseWord)
    (room : Allowance) (position : Position) (tokens : List Token) :
    Extends more (functionRest room position) tokens := by
  refine .andThen .expect fun name second read => .andThen .expect fun _ third read' => ?_
  obtain ⟨rfl, -⟩ := expect_eq_ok read
  obtain ⟨rfl, -⟩ := expect_eq_ok read'
  have listed := (parameters_mirrors id id third).extendsBefore more
    fun names => by rw [funext Binding.map_id]; exact List.map_id names
  refine .andThen_of_before listed (fun _ => .andThen_of rfl (.andThen .of_outcome)) ?_
  intro names fourth _ listed
  have marked := (typeMark_mirrors id id fourth).extendsBefore more
    fun _ => Option.map_id_apply
  refine .andThen_of_before marked (fun _ => .andThen .of_outcome) fun mark last _ marked => ?_
  obtain ⟨shorter, -⟩ := Outcome.answer_eq_ok listed
  obtain ⟨within, -⟩ := Outcome.answer_eq_ok marked
  exact .andThen (statement_extends noElse room last) fun _ _ _ => .done
termination_by 4 * tokens.length + 2
decreasing_by subst_vars; simp only [List.length_cons]; omega

theorem forRest_extends (noElse : ∀ next ∈ more.head?, next.kind ≠ .elseWord) (room : Allowance)
    (position : Position) (tokens : List Token) : Extends more (forRest room position) tokens := by
  refine .andThen .expect fun _ second read => ?_
  obtain ⟨rfl, -⟩ := expect_eq_ok read
  have first := (firstClause_mirrors id id room second).extendsBefore more Stmt.mapOption_id
  refine .andThen_of_before first (fun _ => .andThen .of_outcome) fun _ third _ first => ?_
  refine .andThen_of_before (clause_extendsBefore room .semicolon third)
    (fun _ => .andThen .of_outcome) fun _ fourth _ tested => ?_
  refine .andThen_of_before (clause_extendsBefore room .rightParen fourth)
    (fun _ => .andThen .of_outcome) fun _ last _ stepped => ?_
  obtain ⟨shorter, -⟩ := Outcome.answer_eq_ok first
  obtain ⟨shorter', -⟩ := Outcome.answer_eq_ok tested
  obtain ⟨within, -⟩ := Outcome.answer_eq_ok stepped
  exact .andThen (statement_extends noElse room last) fun _ _ _ => .done
termination_by 4 * tokens.length + 2
decreasing_by subst_vars; simp only [List.length_cons]; omega

theorem whileRest_extends (noElse : ∀ next ∈ more.head?, next.kind ≠ .elseWord)
    (room : Allowance) (position : Position) (tokens : List Token) :
    Extends more (whileRest room position) tokens := by
  refine .andThen_of_before (condition_extendsBefore room tokens) (fun _ => .andThen .of_outcome) ?_
  intro test rest _ read
  obtain ⟨shorter, -⟩ := Outcome.answer_eq_ok read
  exact .andThen (statement_extends noElse room rest) fun _ _ _ => .done
termination_by 4 * tokens.length + 2
decreasing_by omega

theorem ifRest_extends (noElse : ∀ next ∈ more.head?, next.kind ≠ .elseWord) (room : Allowance)
    (position : Position) (tokens : List Token) : Extends more (ifRest room position) tokens := by
  refine .andThen_of_before (condition_extendsBefore room tokens) (fun _ => .andThen .of_outcome) ?_
  intro test middle _ read
  obtain ⟨shorter, -⟩ := Outcome.answer_eq_ok read
  refine .andThen (statement_extends noElse room middle) fun yes rest read' => ?_
  obtain ⟨fewer, -⟩ := Outcome.answer_eq_ok read'
  -- the only place where the token behind a whole statement is looked at
  refine .takeKind (fun other behind split _ => ?_) .done (.inr noElse)
  subst split
  exact .andThen (statement_extends noElse room behind) fun _ _ _ => .done
termination_by 4 * tokens.length + 2
decreasing_by all_goals subst_vars; (try simp only [List.length_cons] at *); omega

end

theorem declaration_extends (noElse : ∀ next ∈ more.head?, next.kind ≠ .elseWord) (room : Allowance)
    (tokens : List Token) : Extends more (declaration room) tokens := by
  cases tokens with
  | nil => exact .of_needs .of_outcome
  | cons first tokens =>
    have some := List.cons_ne_nil first tokens
    rw [declaration_eq]
    exact .takeKind (fun word rest _ _ => letRest_extends room word.position rest)
      (.takeKind (fun word rest _ _ => typeRest_extends word.position rest)
        (statement_extends noElse room _) (.inl some)) (.inl some)

end Reader

end YalSyntax
