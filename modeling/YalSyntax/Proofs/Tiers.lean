import YalSyntax.Reading

namespace YalSyntax

namespace Operator

/-- The operator of a kind, if that binds with a strength. -/
def ofStrength? (strength : Nat) (kind : Token.Kind) : Option Operator :=
  if kind.strength = strength then ofKind? kind else none

theorem ofStrength?_eq_some_iff {strength : Nat} {kind : Token.Kind} {operator : Operator} :
    ofStrength? strength kind = some operator ↔
      kind.strength = strength ∧ operator.kind = kind := by
  simp [ofStrength?, ofKind?_eq_some_iff]

theorem logical?_disjunction : logical? .disjunction = ofStrength? 1 := by
  funext kind
  cases kind <;> rfl

theorem logical?_conjunction : logical? .conjunction = ofStrength? 2 := by
  funext kind
  cases kind <;> rfl

theorem binary?_eq {strength : Nat} (strong : 2 < strength) :
    binary? strength = ofStrength? strength := by
  funext kind
  unfold binary? ofStrength?
  split
  · rename_i same
    subst same
    cases kind <;> first | rfl | simp [Token.Kind.strength] at strong
  · rfl

end Operator

namespace Reading

open Nesting

variable {σ : Type} {ρ : Type → Type} [Nesting σ ρ]

/-- The tier of a strength. Below the weakest operators there are none, and above the strongest ones
there is no tier. -/
def tier (state : σ) : Nat → (tokens : List Token) → ρ (Outcome Expr tokens.length)
  | 0, tokens => tierOf (Operator.ofStrength? 0) state tokens fun state rest _ => logicOr state rest
  | 1, tokens => logicOr state tokens
  | 2, tokens => logicAnd state tokens
  | 3, tokens => equality state tokens
  | 4, tokens => term state tokens
  | 5, tokens => factor state tokens
  | _, tokens => unary state tokens

def chain (state : σ) (strength : Nat) {bound : Nat} (left : Expr) (tokens : List Token)
    (within : tokens.length < bound) : ρ (Outcome Expr bound) :=
  operations (Operator.ofStrength? strength) (fun state rest _ => tier state (strength + 1) rest)
    state left tokens (Nat.le_of_lt within) within

theorem chain_eq (state : σ) (strength : Nat) {bound : Nat} (left : Expr) (tokens : List Token)
    (within : tokens.length < bound) : chain state strength left tokens within =
      match tokens, within with
      | [], within => level state (.ok left [] within)
      | sign :: rest, within =>
        match Operator.ofStrength? strength sign.kind with
        | none => level state (.ok left (sign :: rest) within)
        | some operator =>
          andThen state (tier state (strength + 1) rest) fun state right rest shorter =>
            chain state strength (.operation operator left right sign.position) rest
              (Nat.lt_trans (Nat.lt_succ_of_lt shorter) within) := by
  rw [chain, operations.eq_def]
  cases tokens with
  | nil => rfl
  | cons sign rest =>
    dsimp only
    cases Operator.ofStrength? strength sign.kind <;> rfl

theorem tierOf_eq (strength : Nat) (state : σ) (tokens : List Token) :
    tierOf (Operator.ofStrength? strength) state tokens
        (fun state rest _ => tier state (strength + 1) rest) =
      andThen state (tier state (strength + 1) tokens) fun state left rest shorter =>
        chain state strength left rest shorter := rfl

theorem tier_eq (state : σ) (strength : Nat) (tokens : List Token) :
    tier state strength tokens = if strength < unaryStrength then
      andThen state (tier state (strength + 1) tokens) fun state left rest shorter =>
        chain state strength left rest shorter
    else unary state tokens := by
  rw [← tierOf_eq]
  match strength with
  | 0 => rfl
  | 1 =>
    rw [tier, logicOr, Operator.logical?_disjunction]
    rfl
  | 2 =>
    rw [tier, logicAnd, Operator.logical?_conjunction]
    rfl
  | 3 =>
    rw [tier, equality, Operator.binary?_eq (by decide)]
    rfl
  | 4 =>
    rw [tier, term, Operator.binary?_eq (by decide)]
    rfl
  | 5 =>
    rw [tier, factor, Operator.binary?_eq (by decide)]
    rfl
  | strength + 6 =>
    rw [if_neg (by simp [unaryStrength])]
    rfl

end Reading

end YalSyntax
