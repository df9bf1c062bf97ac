import YalSyntax.Reading.Expression

namespace YalSyntax

namespace Reading

open Nesting

variable {σ : Type} {ρ : Type → Type} [Nesting σ ρ]

def typeMark (tokens : List Token) : Outcome (Option String) (tokens.length + 1) :=
  match skip? .colon tokens with
  | none => .ok none tokens (Nat.le_refl _)
  | some ⟨rest, behind⟩ =>
    (expect .identifier rest).andThen fun name rest shorter =>
      .ok (some name.text) rest (Nat.lt_succ_of_lt (Nat.lt_trans shorter behind))

def binding (tokens : List Token) : Outcome Binding tokens.length :=
  (expect .identifier tokens).andThen fun name rest shorter =>
    (typeMark rest).andThen fun type? rest shorter =>
      .ok ⟨name.text, type?, none, name.position⟩ rest (by omega)

def moreParameters {bound : Nat} (read : List Binding) (tokens : List Token)
    (within : tokens.length ≤ bound) : Outcome (List Binding) bound :=
  (binding tokens).andThen fun parameter rest shorter =>
    match skip? .comma rest with
    | some ⟨rest, shorter⟩ => moreParameters (parameter :: read) rest (by omega)
    | none =>
      (expect .rightParen rest).andThen fun _ rest shorter =>
        .ok (parameter :: read).reverse rest (by omega)
termination_by tokens.length

def parameters (tokens : List Token) : Outcome (List Binding) tokens.length :=
  match skip? .rightParen tokens with
  | some ⟨rest, shorter⟩ => .ok [] rest shorter
  | none => moreParameters [] tokens Nat.le.refl

@[specialize]
def initialValue (state : σ) (tokens : List Token) : ρ (Outcome (Option Expr) (tokens.length + 1)) :=
  match skip? .equal tokens with
  | none => level state (.ok none tokens (Nat.le_refl _))
  | some ⟨rest, behind⟩ =>
    andThen state (expression state rest) fun state value rest shorter =>
      level state (.ok (some value) rest (Nat.lt_succ_of_lt (Nat.lt_trans shorter behind)))

@[specialize]
def letRest (state : σ) (position : Position) (tokens : List Token) :
    ρ (Outcome Stmt tokens.length) :=
  andThen state (level state (binding tokens)) fun state binding rest shorter =>
    andThen state (initialValue state rest) fun state initializer rest shorter =>
      andThen state (level state (expect .semicolon rest)) fun state _ rest shorter =>
        level state (.ok (.declare { binding with initializer, position }) rest (by omega))

def typeRest (position : Position) (tokens : List Token) : Outcome Stmt tokens.length :=
  (expect .identifier tokens).andThen fun name rest shorter =>
    (expect .equal rest).andThen fun _ rest shorter =>
      (expect .identifier rest).andThen fun underlying rest shorter =>
        (expect .semicolon rest).andThen fun _ rest shorter =>
          .ok (.typeDef name.text underlying.text position) rest (by omega)

def here : List Token → Position
  | [] => .start
  | token :: _ => token.position

/-- An expression and its `;`. Before a `}` there is no `;`, and the value is returned. -/
@[specialize]
def expressionStatement (state : σ) (tokens : List Token) : ρ (Outcome Stmt tokens.length) :=
  andThen state (expression state tokens) fun state value rest shorter =>
    if nextIs .rightBrace rest then
      level state (.ok (.expression value.asReturn (here tokens)) rest shorter)
    else andThen state (level state (expect .semicolon rest)) fun state _ rest shorter =>
      level state (.ok (.expression value (here tokens)) rest (by omega))

@[specialize]
def condition (state : σ) (tokens : List Token) : ρ (Outcome Expr tokens.length) :=
  andThen state (level state (expect .leftParen tokens)) fun state _ rest shorter =>
    andThen state (expression state rest) fun state value rest shorter =>
      andThen state (level state (expect .rightParen rest)) fun state _ rest shorter =>
        level state (.ok value rest (by omega))

/-- The first clause of a `for` and its `;`, if it has one. -/
@[specialize]
def firstClause (state : σ) (tokens : List Token) : ρ (Outcome (Option Stmt) tokens.length) :=
  match skip? .semicolon tokens with
  | some ⟨rest, shorter⟩ => level state (.ok none rest shorter)
  | none =>
    match skip? .letWord tokens with
    | some ⟨rest, shorter⟩ =>
      andThen state (letRest state (here tokens) rest) fun state first rest shorter =>
        level state (.ok (some first) rest (by omega))
    | none =>
      andThen state (expressionStatement state tokens) fun state first rest shorter =>
        level state (.ok (some first) rest shorter)

@[specialize]
def clause (state : σ) (close : Token.Kind) (tokens : List Token) :
    ρ (Outcome (Option Expr) tokens.length) :=
  match skip? close tokens with
  | some ⟨rest, shorter⟩ => level state (.ok none rest shorter)
  | none =>
    andThen state (expression state tokens) fun state value rest shorter =>
      andThen state (level state (expect close rest)) fun state _ rest shorter =>
        level state (.ok (some value) rest (by omega))

mutual

@[specialize]
def declaration (state : σ) (tokens : List Token) : ρ (Outcome Stmt tokens.length) :=
  match tokens with
  | [] => statement state []
  | first :: rest =>
    if first.kind = .letWord then
      andThen state (letRest state first.position rest) fun state stmt rest shorter =>
        level state (.ok stmt rest (Nat.lt_succ_of_lt shorter))
    else if first.kind = .typeWord then
      andThen state (level state (typeRest first.position rest)) fun state stmt rest shorter =>
        level state (.ok stmt rest (Nat.lt_succ_of_lt shorter))
    else statement state (first :: rest)
termination_by 4 * tokens.length + 1
decreasing_by all_goals simp

@[specialize]
def statement (state : σ) (tokens : List Token) : ρ (Outcome Stmt tokens.length) :=
  nested state tokens fun state =>
    match tokens with
    | [] => expressionStatement state []
    | first :: rest =>
      if first.kind = .fnWord then
        functionRest state first.position rest (Nat.lt_succ_self _)
      else if first.kind = .forWord then
        forRest state first.position rest (Nat.lt_succ_self _)
      else if first.kind = .whileWord then
        whileRest state first.position rest (Nat.lt_succ_self _)
      else if first.kind = .ifWord then
        ifRest state first.position rest (Nat.lt_succ_self _)
      else if first.kind = .leftBrace then
        blockRest state first.position [] rest (Nat.lt_succ_self _)
      else expressionStatement state (first :: rest)
termination_by 4 * tokens.length
decreasing_by all_goals simp; omega

@[specialize]
def functionRest (state : σ) (position : Position) {bound : Nat} (tokens : List Token)
    (within : tokens.length < bound) : ρ (Outcome Stmt bound) :=
  andThen state (level state (expect .identifier tokens)) fun state name rest shorter =>
    andThen state (level state (expect .leftParen rest)) fun state _ rest shorter =>
      andThen state (level state (parameters rest)) fun state parameters rest shorter =>
        andThen state (level state (typeMark rest)) fun state returns rest shorter =>
          andThen state (statement state rest) fun state body rest shorter =>
            level state (.ok (.function name.text parameters returns body position) rest (by omega))
termination_by 4 * tokens.length + 2
decreasing_by omega

@[specialize]
def forRest (state : σ) (position : Position) {bound : Nat} (tokens : List Token)
    (within : tokens.length < bound) : ρ (Outcome Stmt bound) :=
  andThen state (level state (expect .leftParen tokens)) fun state _ rest shorter =>
    andThen state (firstClause state rest) fun state initializer rest shorter =>
      andThen state (clause state .semicolon rest) fun state condition rest shorter =>
        andThen state (clause state .rightParen rest) fun state increment rest shorter =>
          andThen state (statement state rest) fun state body rest shorter =>
            level state
              (.ok (.forLoop initializer condition increment body position) rest (by omega))
termination_by 4 * tokens.length + 2
decreasing_by omega

@[specialize]
def whileRest (state : σ) (position : Position) {bound : Nat} (tokens : List Token)
    (within : tokens.length < bound) : ρ (Outcome Stmt bound) :=
  andThen state (condition state tokens) fun state condition rest shorter =>
    andThen state (statement state rest) fun state body rest shorter =>
      level state (.ok (.whileLoop condition body position) rest (by omega))
termination_by 4 * tokens.length + 2
decreasing_by omega

@[specialize]
def ifRest (state : σ) (position : Position) {bound : Nat} (tokens : List Token)
    (within : tokens.length < bound) : ρ (Outcome Stmt bound) :=
  andThen state (condition state tokens) fun state condition rest shorter =>
    andThen state (statement state rest) fun state yes rest shorter =>
      match skip? .elseWord rest with
      | none => level state (.ok (.conditional condition yes none position) rest (by omega))
      | some ⟨rest, shorter⟩ =>
        andThen state (statement state rest) fun state no rest shorter =>
          level state (.ok (.conditional condition yes (some no) position) rest (by omega))
termination_by 4 * tokens.length + 2
decreasing_by all_goals omega

/-- The rest of a block that opens at `position`, after statements already read, the latest
first. -/
@[specialize]
def blockRest (state : σ) (position : Position) {bound : Nat} (read : List Stmt)
    (tokens : List Token) (within : tokens.length < bound) : ρ (Outcome Stmt bound) :=
  match skip? .rightBrace tokens with
  | some ⟨rest, shorter⟩ => level state (.ok (.block read.reverse position) rest (by omega))
  | none =>
    if tokens.isEmpty then level state (.error (.expected .rightBrace) tokens)
    else andThen state (declaration state tokens) fun state stmt rest shorter =>
      blockRest state position (stmt :: read) rest (by omega)
termination_by 4 * tokens.length + 2
decreasing_by all_goals omega

end

@[specialize]
def program (state : σ) {bound : Nat} (read : List Stmt) (tokens : List Token)
    (within : tokens.length < bound) : ρ (Outcome Program bound) :=
  if tokens.isEmpty then level state (.ok ⟨read.reverse⟩ tokens within)
  else andThen state (declaration state tokens) fun state stmt rest shorter =>
    program state (stmt :: read) rest (by omega)
termination_by tokens.length

/-- The program that is left, after statements already read, the latest first. -/
def programFrom (state : σ) (read : List Stmt) (tokens : List Token) :
    ρ (Outcome Program (tokens.length + 1)) :=
  program state read tokens (Nat.le_refl _)

end Reading

end YalSyntax
