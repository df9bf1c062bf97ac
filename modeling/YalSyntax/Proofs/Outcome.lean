import YalSyntax.Reading

namespace YalSyntax

namespace Outcome

variable {α β : Type} {bound wider : Nat}

theorem andThen_eq_ok {outcome : Outcome α bound}
    {next : (value : α) → (rest : List Token) → rest.length < bound → Outcome β wider}
    {value : β} {rest : List Token} {shorter : rest.length < wider}
    (read : outcome.andThen next = .ok value rest shorter) :
    ∃ first middle within, outcome = .ok first middle within ∧
      next first middle within = .ok value rest shorter := by
  cases outcome with
  | ok first middle within => exact ⟨first, middle, within, rfl, read⟩
  | error fault rest => cases read

theorem nested_eq_ok {room : Allowance} {tokens : List Token}
    {body : Allowance → Outcome α bound} {value : α} {rest : List Token}
    {shorter : rest.length < bound} (read : nested room tokens body = .ok value rest shorter) :
    ∃ inner, room.open? = some inner ∧ body inner = .ok value rest shorter := by
  unfold nested at read
  cases opened : room.open? with
  | none => rw [opened] at read; cases read
  | some inner => rw [opened] at read; exact ⟨inner, rfl, read⟩

end Outcome

namespace Reading

theorem expect_eq_ok {kind : Token.Kind} {tokens rest : List Token} {token : Token}
    {shorter : rest.length < tokens.length} (read : expect kind tokens = .ok token rest shorter) :
    tokens = token :: rest ∧ token.kind = kind := by
  cases tokens with
  | nil => cases read
  | cons first more =>
    simp only [expect] at read
    split at read
    · rename_i same
      cases read
      exact ⟨rfl, same⟩
    · cases read

theorem skip?_of_kind {kind : Token.Kind} {token : Token} {rest : List Token}
    (same : token.kind = kind) :
    skip? kind (token :: rest) = some ⟨rest, Nat.lt_succ_self _⟩ := by
  simp [skip?, same]

theorem skip?_of_ne {kind : Token.Kind} {token : Token} {rest : List Token}
    (different : token.kind ≠ kind) : skip? kind (token :: rest) = none := by
  simp [skip?, different]

theorem expect_of_kind {kind : Token.Kind} {token : Token} {rest : List Token}
    (same : token.kind = kind) :
    expect kind (token :: rest) = .ok token rest (Nat.lt_succ_self _) := by
  simp [expect, same]

theorem skip?_eq_some {kind : Token.Kind} {tokens rest : List Token}
    {shorter : rest.length < tokens.length} (skipped : skip? kind tokens = some ⟨rest, shorter⟩) :
    ∃ token, tokens = token :: rest ∧ token.kind = kind := by
  cases tokens with
  | nil => cases skipped
  | cons first more =>
    simp only [skip?] at skipped
    split at skipped
    · rename_i same
      cases skipped
      exact ⟨first, rfl, same⟩
    · cases skipped

theorem skip?_eq_none_iff {kind : Token.Kind} {tokens : List Token} :
    skip? kind tokens = none ↔ ∀ next ∈ tokens.head?, next.kind ≠ kind := by
  cases tokens <;> simp [skip?]

open Nesting

theorem answer_program (room : Allowance) {bound wider : Nat} (read : List Stmt)
    (tokens : List Token) (within : tokens.length < bound) (within' : tokens.length < wider) :
    (program room read tokens within).answer = (program room read tokens within').answer := by
  rw [program, program]
  split
  · rfl
  · simp only [andThen_room]
    cases declaration room tokens with
    | error fault rest => rfl
    | ok stmt rest shorter => exact answer_program room (stmt :: read) rest _ _
termination_by tokens.length

theorem declarations_eq (room : Allowance) (read : List Stmt) (tokens : List Token) :
    declarations room read tokens = if tokens.isEmpty then (.ok ⟨read.reverse⟩, []) else
      match declaration room tokens with
      | .ok stmt rest _ => declarations room (stmt :: read) rest
      | .error fault rest => (.error fault, rest) := by
  rw [declarations, programFrom, program]
  split
  · rename_i empty
    rw [List.isEmpty_iff.mp empty]
    rfl
  · simp only [andThen_room]
    cases declaration room tokens with
    | error fault rest => rfl
    | ok stmt rest shorter => exact answer_program room (stmt :: read) rest _ _

end Reading

end YalSyntax
