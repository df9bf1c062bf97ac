import YalSyntax.Proofs.Cursor

namespace YalSyntax

namespace Attempt

variable {σ α β : Type}

/-- What one attempt comes to, the other one comes to as well. -/
def Approximates (fewer more : Attempt α) : Prop :=
  ∀ cursor result, fewer cursor = some result → more cursor = some result

namespace Approximates

theorem refl (attempt : Attempt α) : Approximates attempt attempt := fun _ _ same => same

theorem trans {fewer more most : Attempt α} (first : Approximates fewer more)
    (second : Approximates more most) : Approximates fewer most := fun cursor result comes =>
  second cursor result (first cursor result comes)

theorem unfinished (attempt : Attempt α) : Approximates unfinished attempt :=
  fun _ _ comes => absurd comes (by simp [Attempt.unfinished])

theorem bind {fewer more : Attempt α} {next others : α → Attempt β}
    (first : Approximates fewer more) (second : ∀ value, Approximates (next value) (others value)) :
    Approximates (fewer >>= next) (more >>= others) := by
  intro cursor result comes
  rw [bind_eq] at comes ⊢
  cases came : fewer cursor with
  | none => rw [came] at comes; cases comes
  | some answer =>
    obtain ⟨answer, later⟩ := answer
    rw [came] at comes
    rw [first cursor _ came]
    cases answer with
    | ok value => exact second value later result comes
    | error error => exact comes

theorem andThen (step : Attempt α) {next others : α → Attempt β}
    (second : ∀ value, Approximates (next value) (others value)) :
    Approximates (step >>= next) (step >>= others) := (refl step).bind second

theorem ite {test : Prop} [Decidable test] {yes yes' no no' : Attempt α}
    (first : Approximates yes yes') (second : Approximates no no') :
    Approximates (if test then yes else no) (if test then yes' else no') := by
  split
  · exact first
  · exact second

theorem loop {iteration others : σ → Attempt (σ ⊕ α)}
    (each : ∀ state, Approximates (iteration state) (others state)) (count : Nat) (state : σ) :
    Approximates (loop iteration count state) (loop others (count + 1) state) := by
  induction count generalizing state with
  | zero => exact unfinished _
  | succ count further =>
    rw [Attempt.loop, Attempt.loop]
    refine (each state).bind fun result => ?_
    cases result with
    | inl state => exact further state
    | inr result => exact refl _

end Approximates

end Attempt

open Attempt

namespace Cursor

variable {tokens : List Token}

theorem items_approximates {α : Type} {item other : Attempt α} (each : Approximates item other)
    (calls : Nat) : Approximates (items tokens item calls) (items tokens other (calls + 1)) := by
  have iterations : ∀ read, Approximates (itemIteration tokens item read)
      (itemIteration tokens other read) := fun read => each.bind fun _ => .refl _
  refine .andThen _ fun _ => .ite (.refl _) ?_
  exact (Approximates.loop iterations calls []).bind fun _ => .refl _

theorem declarations_approximate {ends : Token.Kind → Bool} {declaration other : Attempt Stmt}
    (each : Approximates declaration other) (calls : Nat) :
    Approximates (loop (declarationIteration tokens ends declaration) calls [])
      (loop (declarationIteration tokens ends other) (calls + 1) []) := by
  refine .loop (fun read => .andThen _ fun _ => .ite (.refl _) ?_) calls []
  exact each.bind fun _ => .refl _

theorem tierOf_approximates {operand other : Attempt Expr} (each : Approximates operand other)
    (operator? : Token.Kind → Option Operator) (calls : Nat) :
    Approximates (tierOf tokens operator? operand calls)
      (tierOf tokens operator? other (calls + 1)) := by
  refine each.bind fun left => .loop (fun left => .andThen _ fun sign => ?_) calls left
  cases operator? sign.kind with
  | none => exact .refl _
  | some operator => exact .andThen _ fun _ => each.bind fun _ => .refl _

mutual

theorem expression_approximates : ∀ (calls : Nat) (room : Allowance),
    Approximates (expression tokens calls room) (expression tokens (calls + 1) room)
  | 0, _ => .unfinished _
  | calls + 1, room => by
    rw [expression, expression]
    refine .andThen _ fun room => .andThen _ fun _ => .ite ?_ ?_
    · exact returnExpression_approximates calls room
    · exact assignment_approximates calls room

theorem returnExpression_approximates : ∀ (calls : Nat) (room : Allowance),
    Approximates (returnExpression tokens calls room) (returnExpression tokens (calls + 1) room)
  | 0, _ => .unfinished _
  | calls + 1, room => by
    rw [returnExpression, returnExpression]
    refine .andThen _ fun _ => .andThen _ fun _ => .ite (.refl _) ?_
    exact (expression_approximates calls room).bind fun _ => .refl _

theorem assignment_approximates : ∀ (calls : Nat) (room : Allowance),
    Approximates (assignment tokens calls room) (assignment tokens (calls + 1) room)
  | 0, _ => .unfinished _
  | calls + 1, room => by
    rw [assignment, assignment]
    refine (logicOr_approximates calls room).bind fun target => ?_
    refine .andThen _ fun _ => .ite (.andThen _ fun _ => ?_) (.refl _)
    cases target with
    | ident name position =>
      refine .andThen _ fun room => ?_
      exact (assignment_approximates calls room).bind fun _ => .refl _
    | _ => exact .refl _

theorem logicOr_approximates : ∀ (calls : Nat) (room : Allowance),
    Approximates (logicOr tokens calls room) (logicOr tokens (calls + 1) room)
  | 0, _ => .unfinished _
  | calls + 1, room => by
    rw [logicOr, logicOr]
    exact tierOf_approximates (logicAnd_approximates calls room) _ calls

theorem logicAnd_approximates : ∀ (calls : Nat) (room : Allowance),
    Approximates (logicAnd tokens calls room) (logicAnd tokens (calls + 1) room)
  | 0, _ => .unfinished _
  | calls + 1, room => by
    rw [logicAnd, logicAnd]
    exact tierOf_approximates (equality_approximates calls room) _ calls

theorem equality_approximates : ∀ (calls : Nat) (room : Allowance),
    Approximates (equality tokens calls room) (equality tokens (calls + 1) room)
  | 0, _ => .unfinished _
  | calls + 1, room => by
    rw [equality, equality]
    exact tierOf_approximates (term_approximates calls room) _ calls

theorem term_approximates : ∀ (calls : Nat) (room : Allowance),
    Approximates (term tokens calls room) (term tokens (calls + 1) room)
  | 0, _ => .unfinished _
  | calls + 1, room => by
    rw [term, term]
    exact tierOf_approximates (factor_approximates calls room) _ calls

theorem factor_approximates : ∀ (calls : Nat) (room : Allowance),
    Approximates (factor tokens calls room) (factor tokens (calls + 1) room)
  | 0, _ => .unfinished _
  | calls + 1, room => by
    rw [factor, factor]
    exact tierOf_approximates (unary_approximates calls room) _ calls

theorem unary_approximates : ∀ (calls : Nat) (room : Allowance),
    Approximates (unary tokens calls room) (unary tokens (calls + 1) room)
  | 0, _ => .unfinished _
  | calls + 1, room => by
    rw [unary, unary]
    refine .andThen _ fun sign => ?_
    cases UnaryOp.ofKind? sign.kind with
    | none => exact operand_approximates calls room
    | some operator =>
      refine .andThen _ fun _ => .andThen _ fun room => ?_
      exact (unary_approximates calls room).bind fun _ => .refl _

theorem operand_approximates : ∀ (calls : Nat) (room : Allowance),
    Approximates (operand tokens calls room) (operand tokens (calls + 1) room)
  | 0, _ => .unfinished _
  | calls + 1, room => by
    rw [operand, operand]
    exact (primary_approximates calls room).bind fun _ => .refl _

theorem primary_approximates : ∀ (calls : Nat) (room : Allowance),
    Approximates (primary tokens calls room) (primary tokens (calls + 1) room)
  | 0, _ => .unfinished _
  | calls + 1, room => by
    rw [primary, primary]
    refine .andThen _ fun _ => .ite (.refl _) (.ite (.andThen _ fun _ => ?_) (.ite ?_ (.refl _)))
    · exact .ite (call_approximates calls room) (.refl _)
    · exact .andThen _ fun _ => (expression_approximates calls room).bind fun _ => .refl _

theorem call_approximates : ∀ (calls : Nat) (room : Allowance),
    Approximates (call tokens calls room) (call tokens (calls + 1) room)
  | 0, _ => .unfinished _
  | calls + 1, room => by
    rw [call, call]
    refine .andThen _ fun _ => .andThen _ fun _ => ?_
    exact (items_approximates (expression_approximates calls room) calls).bind fun _ => .refl _

end

section

variable (calls : Nat) (room : Allowance)

theorem initialValue_approximates :
    Approximates (initialValue tokens calls room) (initialValue tokens (calls + 1) room) :=
  .andThen _ fun _ => .ite ((expression_approximates calls room).bind fun _ => .refl _) (.refl _)

theorem letDeclaration_approximates :
    Approximates (letDeclaration tokens calls room) (letDeclaration tokens (calls + 1) room) :=
  .andThen _ fun _ => .andThen _ fun _ =>
    (initialValue_approximates calls room).bind fun _ => .refl _

theorem expressionStatement_approximates :
    Approximates (expressionStatement tokens calls room)
      (expressionStatement tokens (calls + 1) room) :=
  .andThen _ fun _ => (expression_approximates calls room).bind fun _ => .refl _

theorem condition_approximates :
    Approximates (condition tokens calls room) (condition tokens (calls + 1) room) :=
  .andThen _ fun _ => (expression_approximates calls room).bind fun _ => .refl _

theorem firstClause_approximates :
    Approximates (firstClause tokens calls room) (firstClause tokens (calls + 1) room) := by
  refine .andThen _ fun _ => .ite (.refl _) (.andThen _ fun _ => .ite ?_ ?_)
  · exact (letDeclaration_approximates calls room).bind fun _ => .refl _
  · exact (expressionStatement_approximates calls room).bind fun _ => .refl _

theorem clause_approximates (close : Token.Kind) :
    Approximates (clause tokens calls room close) (clause tokens (calls + 1) room close) :=
  .andThen _ fun _ => .ite (.refl _) ((expression_approximates calls room).bind fun _ => .refl _)

end

mutual

theorem declaration_approximates : ∀ (calls : Nat) (room : Allowance),
    Approximates (declaration tokens calls room) (declaration tokens (calls + 1) room)
  | 0, _ => .unfinished _
  | calls + 1, room => by
    rw [declaration, declaration]
    refine .andThen _ fun _ => .ite ?_ (.ite (.refl _) (statement_approximates calls room))
    exact letDeclaration_approximates calls room

theorem statement_approximates : ∀ (calls : Nat) (room : Allowance),
    Approximates (statement tokens calls room) (statement tokens (calls + 1) room)
  | 0, _ => .unfinished _
  | calls + 1, room => by
    rw [statement, statement]
    refine .andThen _ fun room => .andThen _ fun _ => ?_
    refine .ite (functionDeclaration_approximates calls room) ?_
    refine .ite (forStatement_approximates calls room) ?_
    refine .ite (whileStatement_approximates calls room) ?_
    refine .ite (ifStatement_approximates calls room) ?_
    exact .ite (block_approximates calls room) (expressionStatement_approximates calls room)

theorem functionDeclaration_approximates : ∀ (calls : Nat) (room : Allowance),
    Approximates (functionDeclaration tokens calls room)
      (functionDeclaration tokens (calls + 1) room)
  | 0, _ => .unfinished _
  | calls + 1, room => by
    rw [functionDeclaration, functionDeclaration]
    refine .andThen _ fun _ => .andThen _ fun _ => .andThen _ fun _ => ?_
    refine (items_approximates (.refl _) calls).bind fun _ => .andThen _ fun _ => ?_
    exact (statement_approximates calls room).bind fun _ => .refl _

theorem forStatement_approximates : ∀ (calls : Nat) (room : Allowance),
    Approximates (forStatement tokens calls room) (forStatement tokens (calls + 1) room)
  | 0, _ => .unfinished _
  | calls + 1, room => by
    rw [forStatement, forStatement]
    refine .andThen _ fun _ => .andThen _ fun _ => ?_
    refine (firstClause_approximates calls room).bind fun _ => ?_
    refine (clause_approximates calls room .semicolon).bind fun _ => ?_
    refine (clause_approximates calls room .rightParen).bind fun _ => ?_
    exact (statement_approximates calls room).bind fun _ => .refl _

theorem whileStatement_approximates : ∀ (calls : Nat) (room : Allowance),
    Approximates (whileStatement tokens calls room) (whileStatement tokens (calls + 1) room)
  | 0, _ => .unfinished _
  | calls + 1, room => by
    rw [whileStatement, whileStatement]
    refine .andThen _ fun _ => (condition_approximates calls room).bind fun _ => ?_
    exact (statement_approximates calls room).bind fun _ => .refl _

theorem ifStatement_approximates : ∀ (calls : Nat) (room : Allowance),
    Approximates (ifStatement tokens calls room) (ifStatement tokens (calls + 1) room)
  | 0, _ => .unfinished _
  | calls + 1, room => by
    have bodies : Approximates (statement tokens calls room) (statement tokens (calls + 1) room) :=
      statement_approximates calls room
    rw [ifStatement, ifStatement]
    refine .andThen _ fun _ => (condition_approximates calls room).bind fun _ => ?_
    refine bodies.bind fun _ => .andThen _ fun _ => .ite ?_ (.refl _)
    exact bodies.bind fun _ => .refl _

theorem block_approximates : ∀ (calls : Nat) (room : Allowance),
    Approximates (block tokens calls room) (block tokens (calls + 1) room)
  | 0, _ => .unfinished _
  | calls + 1, room => by
    rw [block, block]
    have statements := declaration_approximates calls room
    exact .andThen _ fun _ => (declarations_approximate statements calls).bind fun _ => .refl _

end

end Cursor

end YalSyntax
