import Mathlib.Logic.Relation
import YalSyntax.Proofs.Outcome
import YalSyntax.Proofs.Tiers

namespace YalSyntax

open Relation Nesting

/-- The fault at which a reading stops, if it stops, and the tokens it leaves. -/
def Outcome.ending {α : Type} {bound : Nat} : Outcome α bound → Option Fault × List Token
  | ok _ rest _ => (none, rest)
  | error fault rest => (some fault, rest)

namespace Reading

def NextOperand (room : Allowance) (start next : List Token) : Prop :=
  ∃ value sign shorter, (Operator.ofKind? sign.kind).isSome ∧
    unary room start = .ok value (sign :: next) shorter

mutual

theorem tier_ending (room : Allowance) (strength : Nat) (tokens : List Token) :
    ∃ start, ReflTransGen (NextOperand room) tokens start ∧
      (unary room start).ending = (tier room strength tokens).ending := by
  rw [tier_eq]
  split
  · obtain ⟨start, reaches, same⟩ := tier_ending room (strength + 1) tokens
    cases first : tier room (strength + 1) tokens with
    | ok left rest shorter =>
      rw [first] at same
      exact chain_ending room strength left rest shorter reaches same
    | error fault rest => exact ⟨start, reaches, by rw [same, first]; rfl⟩
  · exact ⟨tokens, .refl, rfl⟩
termination_by 16 * tokens.length + 3 + (unaryStrength - strength)
decreasing_by all_goals omega

theorem chain_ending (room : Allowance) (strength : Nat) {bound : Nat} (left : Expr)
    (tokens : List Token) (within : tokens.length < bound) {first start : List Token}
    (reaches : ReflTransGen (NextOperand room) first start)
    (same : (unary room start).ending = (none, tokens)) :
    ∃ last, ReflTransGen (NextOperand room) first last ∧
      (unary room last).ending = (chain room strength left tokens within).ending := by
  rw [chain_eq]
  split
  · exact ⟨start, reaches, same⟩
  · rename_i sign rest _
    split
    · exact ⟨start, reaches, same⟩
    · rename_i operator isOperator
      have isSign : (Operator.ofKind? sign.kind).isSome := by
        rw [Operator.ofStrength?] at isOperator
        split at isOperator
        · simp [isOperator]
        · cases isOperator
      have next : NextOperand room start rest := by
        cases operand : unary room start with
        | ok value behind shorter =>
          rw [operand] at same
          cases same
          exact ⟨value, sign, shorter, isSign, operand⟩
        | error fault behind => rw [operand] at same; cases same
      obtain ⟨second, further, ends⟩ := tier_ending room (strength + 1) rest
      have reaches := (reaches.tail next).trans further
      cases found : tier room (strength + 1) rest with
      | ok right behind shorter =>
        rw [found] at ends
        exact chain_ending room strength _ behind _ reaches ends
      | error fault behind => exact ⟨second, reaches, by rw [ends, found]; rfl⟩
termination_by 16 * tokens.length
decreasing_by all_goals subst_vars; simp only [List.length_cons, unaryStrength] at *; omega

end

end Reading

end YalSyntax
