import Mathlib
import YalSyntax.Proofs.Nesting.Siblings
import YalSyntax.Proofs.Nesting.Statement

namespace YalSyntax

open Relation

namespace Counting

theorem declarations_depth (limit : Allowance) (depth : Nat) (before : List Stmt)
    (tokens : List Token) : (declarations limit depth before tokens).depth = depth :=
  (program_counts before tokens _).restores ⟨limit, depth⟩

theorem declarations_agrees (limit : Allowance) (depth : Nat) (before : List Stmt)
    (tokens : List Token) : (declarations limit depth before tokens).outcome =
      Reading.declarations (limit.less depth) before tokens :=
  congrArg Outcome.answer ((program_counts before tokens _).agrees ⟨limit, depth⟩)

theorem declarations_climbs (depth : Nat) (before : List Stmt) (tokens : List Token) :
    Climbs depth (declarations .unlimited depth before tokens).openings :=
  (program_counts before tokens _).climbs depth

theorem declarations_exact (count depth : Nat) (before : List Stmt) (tokens : List Token) :
    (declarations (.levels count) depth before tokens).outcome =
      match firstBeyond count (declarations .unlimited depth before tokens).openings with
      | none => (declarations .unlimited depth before tokens).outcome
      | some beyond => (.error .tooDeep, beyond.tokens) := by
  dsimp only [declarations, Reading.programFrom]
  rw [(program_counts before tokens _).exact count depth, Counted.under]
  cases firstBeyond count (Reading.program (Counter.mk .unlimited depth) before tokens _).openings <;>
    rfl

end Counting

namespace Reading

/-- The levels that a reading opens when nothing limits them, in their order. -/
def levels (reading : Reading) : List Opening :=
  (Counting.declarations .unlimited 0 [] reading.upcoming).openings

/-- What a reading comes to if a level is opened where so many tokens are left and the limit does
not admit it. -/
def stoppedAt (reading : Reading) (tokens : List Token) : Except ParseError Program × Reading :=
  let stopped : Reading := { reading with upcoming := tokens }
  (.error (.tooDeep stopped.next.position), stopped)

theorem run_levels (reading : Reading) (limit : Nat) :
    reading.run (.levels limit) =
      match firstBeyond limit reading.levels with
      | none => reading.run .unlimited
      | some beyond => reading.stoppedAt beyond.tokens := by
  have exact := Counting.declarations_exact limit 0 [] reading.upcoming
  rw [Counting.declarations_agrees, Counting.declarations_agrees] at exact
  simp only [run, levels]
  rw [show Allowance.levels limit = (Allowance.levels limit).less 0 from rfl, exact]
  split
  · rfl
  · rfl

theorem run_levels_cases (reading : Reading) (limit : Nat) :
    ((∀ opening ∈ reading.levels, opening.level ≤ limit) ∧
      reading.run (.levels limit) = reading.run .unlimited) ∨
    ∃ before beyond behind, reading.levels = before ++ beyond :: behind ∧
      (∀ opening ∈ before, opening.level ≤ limit) ∧ beyond.level = limit + 1 ∧
      reading.run (.levels limit) = reading.stoppedAt beyond.tokens := by
  have same := run_levels reading limit
  cases found : firstBeyond limit reading.levels with
  | none =>
    rw [found] at same
    exact .inl ⟨firstBeyond_eq_none_iff.mp found, same⟩
  | some beyond =>
    rw [found] at same
    have next := (Counting.declarations_climbs 0 [] reading.upcoming).firstBeyond_level
      (Nat.zero_le limit) found
    obtain ⟨-, before, behind, split, below⟩ := firstBeyond_eq_some_iff.mp found
    exact .inr ⟨before, beyond, behind, split, below, next, same⟩

end Reading

open Reading

end YalSyntax
