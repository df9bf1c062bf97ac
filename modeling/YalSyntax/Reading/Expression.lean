import YalSyntax.Tree
import YalSyntax.Reading.Outcome

namespace YalSyntax

namespace Reading

open Nesting

variable {σ : Type} {ρ : Type → Type} [Nesting σ ρ]

@[specialize]
def operations (operator? : Token.Kind → Option Operator) {size : Nat}
    (operand : σ → (tokens : List Token) → tokens.length ≤ size → ρ (Outcome Expr tokens.length))
    (state : σ) {bound : Nat} (left : Expr) (tokens : List Token) (fits : tokens.length ≤ size)
    (within : tokens.length < bound) : ρ (Outcome Expr bound) :=
  match tokens with
  | [] => level state (.ok left [] within)
  | sign :: rest =>
    match operator? sign.kind with
    | none => level state (.ok left (sign :: rest) within)
    | some operator =>
      andThen state (operand state rest (Nat.le_of_lt fits)) fun state right rest shorter =>
        operations operator? operand state (.operation operator left right sign.position) rest
          (by simp at *; omega) (by simp at *; omega)
termination_by tokens.length
decreasing_by simp; omega

/-- An operand of a tier and the operations that follow it. -/
@[specialize]
def tierOf (operator? : Token.Kind → Option Operator) (state : σ) (tokens : List Token)
    (operand : σ → (rest : List Token) → rest.length ≤ tokens.length →
      ρ (Outcome Expr rest.length)) : ρ (Outcome Expr tokens.length) :=
  andThen state (operand state tokens (Nat.le_refl _)) fun state left rest shorter =>
    operations operator? operand state left rest (Nat.le_of_lt shorter) shorter

/-- Whether a `return` that stands before these tokens has no value. -/
def valueless (tokens : List Token) : Bool :=
  tokens.isEmpty || nextIs .semicolon tokens || nextIs .rightBrace tokens

mutual

@[specialize]
def expression (state : σ) (tokens : List Token) : ρ (Outcome Expr tokens.length) :=
  nested state tokens fun state =>
    match tokens with
    | [] => assignment state []
    | first :: rest =>
      if first.kind = .returnWord then
        if valueless rest then
          level state (.ok (.returned none first.position) rest (Nat.lt_succ_self _))
        else andThen state (expression state rest) fun state value rest shorter =>
          level state (.ok (.returned (some value) first.position) rest (Nat.lt_succ_of_lt shorter))
      else assignment state (first :: rest)
termination_by 16 * tokens.length + 10
decreasing_by all_goals simp; try omega

@[specialize]
def assignment (state : σ) (tokens : List Token) : ρ (Outcome Expr tokens.length) :=
  andThen state (logicOr state tokens) fun state target rest shorter =>
    match rest with
    | [] => level state (.ok target [] shorter)
    | equals :: rest =>
      if equals.kind = .equal then
        match target with
        | .ident name position =>
          nested state rest fun state =>
            andThen state (assignment state rest) fun state value rest shorter =>
              level state (.ok (.assign name value position) rest (by simp at *; omega))
        | _ => level state (.error (.assignmentTarget equals.position) rest)
      else level state (.ok target (equals :: rest) shorter)
termination_by 16 * tokens.length + 9
decreasing_by all_goals simp at *; try omega

@[specialize]
def logicOr (state : σ) (tokens : List Token) : ρ (Outcome Expr tokens.length) :=
  tierOf (Operator.logical? .disjunction) state tokens fun state rest _ => logicAnd state rest
termination_by 16 * tokens.length + 8
decreasing_by omega

@[specialize]
def logicAnd (state : σ) (tokens : List Token) : ρ (Outcome Expr tokens.length) :=
  tierOf (Operator.logical? .conjunction) state tokens fun state rest _ => equality state rest
termination_by 16 * tokens.length + 7
decreasing_by omega

@[specialize]
def equality (state : σ) (tokens : List Token) : ρ (Outcome Expr tokens.length) :=
  tierOf (Operator.binary? 3) state tokens fun state rest _ => term state rest
termination_by 16 * tokens.length + 6
decreasing_by omega

@[specialize]
def term (state : σ) (tokens : List Token) : ρ (Outcome Expr tokens.length) :=
  tierOf (Operator.binary? 4) state tokens fun state rest _ => factor state rest
termination_by 16 * tokens.length + 5
decreasing_by omega

@[specialize]
def factor (state : σ) (tokens : List Token) : ρ (Outcome Expr tokens.length) :=
  tierOf (Operator.binary? (unaryStrength - 1)) state tokens fun state rest _ => unary state rest
termination_by 16 * tokens.length + 4
decreasing_by omega

@[specialize]
def unary (state : σ) (tokens : List Token) : ρ (Outcome Expr tokens.length) :=
  match tokens with
  | [] => operand state []
  | sign :: rest =>
    match UnaryOp.ofKind? sign.kind with
    | none => operand state (sign :: rest)
    | some operator =>
      nested state rest fun state =>
        andThen state (unary state rest) fun state value rest shorter =>
          level state (.ok (.prefixed operator value sign.position) rest (Nat.lt_succ_of_lt shorter))
termination_by 16 * tokens.length + 2
decreasing_by all_goals simp; try omega

@[specialize]
def operand (state : σ) (tokens : List Token) : ρ (Outcome Expr tokens.length) :=
  andThen state (primary state tokens) fun state value rest shorter =>
    match rest with
    | [] => level state (.ok value [] shorter)
    | sign :: rest =>
      match UnaryOp.step? sign.kind with
      | none => level state (.ok value (sign :: rest) shorter)
      | some operator =>
        match value with
        | .ident name position =>
          level state (.ok (.suffixed operator (.ident name position) position) rest
            (by simp at shorter; omega))
        | _ => level state (.error (.suffixOperand sign.text sign.position) rest)
termination_by 16 * tokens.length + 1
decreasing_by omega

@[specialize]
def primary (state : σ) (tokens : List Token) : ρ (Outcome Expr tokens.length) :=
  match tokens with
  | [] => level state (.error .expectedExpression [])
  | first :: rest =>
    if first.kind.isLiteral then level state (.ok (.literal first) rest (Nat.lt_succ_self _))
    else if first.kind = .identifier then
      match skip? .leftParen rest with
      | none => level state (.ok (.ident first.text first.position) rest (Nat.lt_succ_self _))
      | some ⟨rest, shorter⟩ =>
        andThen state (arguments state rest) fun state values rest shorter =>
          level state (.ok (.call first.text values first.position) rest (by simp; omega))
    else if first.kind = .leftParen then
      andThen state (expression state rest) fun state inner rest shorter =>
        andThen state (level state (expect .rightParen rest)) fun state _ rest shorter =>
          level state (.ok (.grouping inner first.position) rest (by simp; omega))
    else level state (.error .expectedExpression (first :: rest))
termination_by 16 * tokens.length
decreasing_by all_goals simp; omega

@[specialize]
def arguments (state : σ) (tokens : List Token) : ρ (Outcome (List Expr) tokens.length) :=
  match skip? .rightParen tokens with
  | some ⟨rest, shorter⟩ => level state (.ok [] rest shorter)
  | none => moreArguments state [] tokens (Nat.le_refl _)
termination_by 16 * tokens.length + 12
decreasing_by omega

/-- At least one more argument and the `)`, after arguments already read, the latest first. -/
@[specialize]
def moreArguments (state : σ) {bound : Nat} (read : List Expr) (tokens : List Token)
    (within : tokens.length ≤ bound) : ρ (Outcome (List Expr) bound) :=
  andThen state (expression state tokens) fun state value rest shorter =>
    match skip? .comma rest with
    | some ⟨rest, shorter⟩ => moreArguments state (value :: read) rest (by omega)
    | none =>
      andThen state (level state (expect .rightParen rest)) fun state _ rest shorter =>
        level state (.ok (value :: read).reverse rest (by omega))
termination_by 16 * tokens.length + 11
decreasing_by all_goals omega

end

end Reading

end YalSyntax
