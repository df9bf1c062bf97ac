import Mathlib
import YalSyntax.Proofs.Tiers
import YalSyntax.Proofs.Nesting.Expression

namespace YalSyntax

theorem LogicalOp.isSome_ofKind?_iff (kind : Token.Kind) :
    (ofKind? kind).isSome ↔ kind.strength ≠ 0 ∧ kind.strength ≤ 2 := by
  cases kind <;> decide

theorem BinaryOp.isSome_ofKind?_iff (kind : Token.Kind) :
    (ofKind? kind).isSome ↔ kind.strength ≠ 0 ∧ ¬ kind.strength ≤ 2 := by
  cases kind <;> decide

namespace Operator

/-- The operator of a kind that binds: a logical one for the two weakest strengths, otherwise one of
the others. -/
def ofTable (kind : Token.Kind) (binds : kind.strength ≠ 0) : Operator :=
  if weak : kind.strength ≤ 2 then
    logical ((LogicalOp.ofKind? kind).get ((LogicalOp.isSome_ofKind?_iff kind).mpr ⟨binds, weak⟩))
  else
    binary ((BinaryOp.ofKind? kind).get ((BinaryOp.isSome_ofKind?_iff kind).mpr ⟨binds, weak⟩))

theorem kind_ofTable (kind : Token.Kind) (binds : kind.strength ≠ 0) :
    (ofTable kind binds).kind = kind := by
  unfold ofTable
  split
  · exact LogicalOp.ofKind?_eq_some_iff.mp (Option.some_get _).symm
  · exact BinaryOp.ofKind?_eq_some_iff.mp (Option.some_get _).symm

theorem ofStrength?_eq_ofTable (kind : Token.Kind) (binds : kind.strength ≠ 0) :
    ofStrength? kind.strength kind = some (ofTable kind binds) := by
  rw [ofStrength?, if_pos rfl, ofKind?_eq_some_iff, kind_ofTable]

theorem ofStrength?_of_ne {strength : Nat} {kind : Token.Kind} (other : kind.strength ≠ strength) :
    ofStrength? strength kind = none :=
  if_neg other

end Operator

open Nesting

/-- Reading on after a success is reading on from there, whatever is kept of the levels. -/
class LawfulNesting (σ : Type) (ρ : outParam (Type → Type)) [Nesting σ ρ] : Prop where
  andThen_level {α β : Type} {bound wider : Nat} (state : σ) (value : α) (rest : List Token)
    (shorter : rest.length < bound)
    (next : σ → (value : α) → (rest : List Token) → rest.length < bound → ρ (Outcome β wider)) :
    andThen state (level state (.ok value rest shorter)) next = next state value rest shorter
  andThen_assoc {α β γ : Type} {bound wider widest : Nat} (state : σ)
    (reading : ρ (Outcome α bound))
    (next : σ → (value : α) → (rest : List Token) → rest.length < bound → ρ (Outcome β wider))
    (last : σ → (value : β) → (rest : List Token) → rest.length < wider →
      ρ (Outcome γ widest)) :
    andThen state (andThen state reading next) last =
      andThen state reading fun state value rest shorter =>
        andThen state (next state value rest shorter) last
  andThen_self {α : Type} {bound : Nat} (state : σ) (reading : ρ (Outcome α bound)) :
    (andThen state reading fun state value rest shorter => level state (.ok value rest shorter)) =
      reading

export LawfulNesting (andThen_level andThen_assoc andThen_self)

instance : LawfulNesting Allowance fun ω => ω where
  andThen_level _ _ _ _ _ := rfl
  andThen_assoc _ reading _ _ := by cases reading <;> rfl
  andThen_self _ reading := by cases reading <;> rfl

instance : LawfulNesting Counter Counted where
  andThen_level _ _ _ _ _ := rfl
  andThen_assoc counter counted next last := by
    change Counted.andThen counter (Counted.andThen counter counted next) last =
      Counted.andThen counter counted fun counter value rest shorter =>
        Counted.andThen counter (next counter value rest shorter) last
    obtain ⟨outcome, depth, openings⟩ := counted
    cases outcome with
    | error fault rest => rfl
    | ok value rest shorter =>
      simp only [Counted.andThen]
      cases (next ⟨counter.limit, depth⟩ value rest shorter).outcome with
      | error fault rest => rfl
      | ok value rest shorter => simp only [List.append_assoc]
  andThen_self counter counted := by
    obtain ⟨outcome, depth, openings⟩ := counted
    cases outcome with
    | error fault rest => rfl
    | ok value rest shorter => simp [Nesting.andThen, Nesting.level, Counted.andThen, Counted.level]

namespace Reading

variable {σ : Type} {ρ : Type → Type} [Nesting σ ρ]

mutual

/-- An operand, and the operations that follow it with at least a strength. -/
def climb (state : σ) (least : Nat) (tokens : List Token) : ρ (Outcome Expr tokens.length) :=
  andThen state (unary state tokens) fun state left rest shorter =>
    climbOn state least left rest shorter
termination_by 2 * tokens.length + 1
decreasing_by omega

def climbOn (state : σ) (least : Nat) {bound : Nat} (left : Expr) (tokens : List Token)
    (within : tokens.length < bound) : ρ (Outcome Expr bound) :=
  match tokens with
  | [] => level state (.ok left [] within)
  | sign :: rest =>
    if binds : sign.kind.strength ≠ 0 ∧ least ≤ sign.kind.strength then
      andThen state (climb state (sign.kind.strength + 1) rest) fun state right rest shorter =>
        climbOn state least (.operation (.ofTable sign.kind binds.1) left right sign.position) rest
          (Nat.lt_trans (Nat.lt_succ_of_lt shorter) within)
    else level state (.ok left (sign :: rest) within)
termination_by 2 * tokens.length
decreasing_by all_goals simp; omega

end

def Weak (least : Nat) (tokens : List Token) : Prop :=
  ∀ next ∈ tokens.head?, ¬ (next.kind.strength ≠ 0 ∧ least ≤ next.kind.strength)

theorem climbOn_of_weak {state : σ} {least bound : Nat} {left : Expr} {tokens : List Token}
    {within : tokens.length < bound} (weak : Weak least tokens) :
    climbOn state least left tokens within = level state (.ok left tokens within) := by
  rw [climbOn.eq_def]
  cases tokens with
  | nil => rfl
  | cons sign rest => exact dif_neg (weak sign rfl)

variable [LawfulNesting σ ρ]

theorem andThen_climbOn {β : Type} {wider : Nat} {least bound : Nat}
    {next other : σ → (value : Expr) → (rest : List Token) → rest.length < bound →
      ρ (Outcome β wider)}
    (same : ∀ state value rest shorter, Weak least rest →
      next state value rest shorter = other state value rest shorter)
    (state : σ) (left : Expr) (tokens : List Token) (within : tokens.length < bound) :
    andThen state (climbOn state least left tokens within) next =
      andThen state (climbOn state least left tokens within) other := by
  by_cases weak : Weak least tokens
  · rw [climbOn_of_weak weak, andThen_level, andThen_level]
    exact same state left tokens within weak
  · cases tokens with
    | nil => exact absurd nofun weak
    | cons sign tokens =>
      have binds : sign.kind.strength ≠ 0 ∧ least ≤ sign.kind.strength := by
        simpa [Weak] using weak
      rw [climbOn, dif_pos binds, andThen_assoc, andThen_assoc]
      congr 1
      funext state right rest shorter
      exact andThen_climbOn same state _ rest _
termination_by tokens.length
decreasing_by subst_vars; simp only [List.length_cons]; omega

theorem andThen_climb {β : Type} {wider : Nat} {least : Nat} {tokens : List Token}
    {next other : σ → (value : Expr) → (rest : List Token) → rest.length < tokens.length →
      ρ (Outcome β wider)}
    (same : ∀ state value rest shorter, Weak least rest →
      next state value rest shorter = other state value rest shorter) (state : σ) :
    andThen state (climb state least tokens) next = andThen state (climb state least tokens) other := by
  rw [climb, andThen_assoc, andThen_assoc]
  congr 1
  funext state left rest shorter
  exact andThen_climbOn same state left rest shorter

mutual

theorem tier_eq_climb (state : σ) (strength : Nat) (tokens : List Token)
    (positive : strength ≠ 0) (weak : strength ≤ unaryStrength) :
    tier state strength tokens = climb state strength tokens := by
  rw [tier_eq, climb]
  split
  · rename_i weaker
    rw [tier_eq_climb state (strength + 1) tokens (Nat.succ_ne_zero _) weaker, climb, andThen_assoc]
    congr 1
    funext state left rest shorter
    exact (climbOn_eq state strength left rest shorter positive weaker).symm
  · rw [← andThen_self state (unary state tokens), andThen_assoc]
    congr 1
    funext state left rest shorter
    rw [andThen_level]
    -- no two-sided operator is as strong as one before its operand
    refine (climbOn_of_weak fun next _ binds => ?_).symm
    have below := next.kind.strength_lt_unary
    omega
termination_by 16 * tokens.length + 3 + (unaryStrength - strength)
decreasing_by all_goals omega

theorem climbOn_eq (state : σ) (strength : Nat) {bound : Nat} (left : Expr) (tokens : List Token)
    (within : tokens.length < bound) (positive : strength ≠ 0) (weak : strength < unaryStrength) :
    climbOn state strength left tokens within =
      andThen state (climbOn state (strength + 1) left tokens within)
        fun state left rest shorter => chain state strength left rest shorter := by
  cases tokens with
  | nil =>
    rw [climbOn, climbOn, andThen_level, chain_eq]
  | cons sign rest =>
    by_cases here : sign.kind.strength = strength
    · subst here
      -- the stronger loop ends here, and the tier takes the operator
      have ended : Weak (sign.kind.strength + 1) (sign :: rest) := by simp [Weak]
      rw [climbOn_of_weak ended, andThen_level, climbOn, dif_pos ⟨positive, Nat.le_refl _⟩,
        chain_eq]
      simp only [Operator.ofStrength?_eq_ofTable sign.kind positive]
      rw [tier_eq_climb state _ rest (Nat.succ_ne_zero _) weak]
      refine andThen_climb (fun state right behind shorter weakened => ?_) state
      rw [climbOn_eq state _ _ behind _ positive weak, climbOn_of_weak weakened, andThen_level]
    · by_cases binds : sign.kind.strength ≠ 0 ∧ strength ≤ sign.kind.strength
      · -- both loops take the operator
        have stronger : strength + 1 ≤ sign.kind.strength := by omega
        rw [climbOn, dif_pos binds, climbOn, dif_pos ⟨binds.1, stronger⟩, andThen_assoc]
        congr 1
        funext state right behind shorter
        exact climbOn_eq state strength _ behind _ positive weak
      · have ended : Weak strength (sign :: rest) := by simpa [Weak] using binds
        have ended' : Weak (strength + 1) (sign :: rest) := by
          intro next ahead binds'
          exact ended next ahead ⟨binds'.1, Nat.le_of_succ_le binds'.2⟩
        rw [climbOn_of_weak ended, climbOn_of_weak ended', andThen_level, chain_eq]
        simp only [Operator.ofStrength?_of_ne here]
termination_by 16 * tokens.length
decreasing_by all_goals subst_vars; simp only [List.length_cons, unaryStrength] at *; omega

end

end Reading

open Reading

/-- With any limit and any number of open levels, each of the five tiers reads what the loop reads
that takes its operators and all stronger ones: the same tree or the same fault with the same tokens
left, through the same levels, and as many of them are open behind it as before. So do the tiers
that keep no account of the levels. -/
theorem tiers_are_climbing (counter : Counter) (room : Allowance) (tokens : List Token) :
    logicOr counter tokens = climb counter 1 tokens ∧
      logicAnd counter tokens = climb counter 2 tokens ∧
      equality counter tokens = climb counter 3 tokens ∧
      term counter tokens = climb counter 4 tokens ∧
      factor counter tokens = climb counter 5 tokens ∧
      (climb counter 1 tokens).depth = counter.depth ∧
      (climb counter 1 tokens).outcome =
        logicOr (counter.limit.less counter.depth) tokens ∧
      logicOr room tokens = climb room 1 tokens := by
  have climbs := fun strength positive weak => tier_eq_climb counter strength tokens positive weak
  have counts := Counting.logicOr_counts tokens
  have weakest : logicOr counter tokens = climb counter 1 tokens := climbs 1 (by decide) (by decide)
  refine ⟨weakest, climbs 2 (by decide) (by decide), climbs 3 (by decide) (by decide),
    climbs 4 (by decide) (by decide), climbs 5 (by decide) (by decide), ?_, ?_, ?_⟩
  · rw [← weakest]
    exact counts.restores counter
  · rw [← weakest]
    exact counts.agrees counter
  · exact tier_eq_climb room 1 tokens (by decide) (by decide)

end YalSyntax
