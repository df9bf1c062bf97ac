import YalSyntax.Error

namespace YalSyntax

/-- Nesting levels that may still be opened. -/
inductive Allowance
  | unlimited
  | levels (count : Nat)
deriving DecidableEq, Repr

def Allowance.open? : Allowance → Option Allowance
  | unlimited => some unlimited
  | levels 0 => none
  | levels (count + 1) => some (levels count)

/-- Why a reading stops. A fault that tells no place concerns the next token. -/
inductive Fault
  | expected (kind : Token.Kind)
  | expectedExpression
  | assignmentTarget (position : Position)
  | suffixOperand (operator : String) (position : Position)
  | tooDeep
deriving DecidableEq, Repr

/-- The error to report for a fault, when `found` is the next token. -/
def Fault.report (found : Token) : Fault → ParseError
  | expected kind => .expected kind found
  | expectedExpression => .expectedExpression found
  | assignmentTarget position => .assignmentTarget position
  | suffixOperand operator position => .suffixOperand operator position
  | tooDeep => .tooDeep found.position

/-- What a reading comes to. After success fewer than `bound` tokens are left. -/
inductive Outcome (α : Type) (bound : Nat)
  | ok (value : α) (rest : List Token) (shorter : rest.length < bound)
  | error (fault : Fault) (rest : List Token)
deriving Repr

namespace Outcome

variable {α β : Type} {bound wider : Nat}

@[inline] def andThen (outcome : Outcome α bound)
    (next : (value : α) → (rest : List Token) → rest.length < bound → Outcome β wider) :
    Outcome β wider :=
  match outcome with
  | ok value rest shorter => next value rest shorter
  | error fault rest => error fault rest

@[simp] theorem andThen_ok (value : α) (rest : List Token) (shorter : rest.length < bound)
    (next : (value : α) → (rest : List Token) → rest.length < bound → Outcome β wider) :
    (ok value rest shorter).andThen next = next value rest shorter := rfl

@[simp] theorem andThen_error (fault : Fault) (rest : List Token)
    (next : (value : α) → (rest : List Token) → rest.length < bound → Outcome β wider) :
    (error fault rest).andThen next = error fault rest := rfl

/-- Read one level deeper, if a level may still be opened at `tokens`. -/
@[inline] def nested (room : Allowance) (tokens : List Token)
    (body : Allowance → Outcome α bound) : Outcome α bound :=
  match room.open? with
  | some room => body room
  | none => error .tooDeep tokens

def answer : Outcome α bound → Except Fault α × List Token
  | ok value rest _ => (.ok value, rest)
  | error fault rest => (.error fault, rest)

end Outcome

/-- A way to keep account of levels: what a state `σ` says about them when a reading begins, and what
`ρ` adds to its outcome. -/
class Nesting (σ : Type) (ρ : outParam (Type → Type)) where
  level {α : Type} {bound : Nat} : σ → Outcome α bound → ρ (Outcome α bound)
  andThen {α β : Type} {bound wider : Nat} : σ → ρ (Outcome α bound) →
    (σ → (value : α) → (rest : List Token) → rest.length < bound → ρ (Outcome β wider)) →
    ρ (Outcome β wider)
  nested {α : Type} {bound : Nat} : σ → List Token → (σ → ρ (Outcome α bound)) →
    ρ (Outcome α bound)

namespace Nesting

instance : Nesting Allowance fun ω => ω where
  level _ outcome := outcome
  andThen room outcome next := outcome.andThen (next room)
  nested := Outcome.nested

variable {α β : Type} {bound wider : Nat}

@[simp] theorem level_room (room : Allowance) (outcome : Outcome α bound) :
    level room outcome = outcome := rfl

@[simp] theorem andThen_room (room : Allowance) (outcome : Outcome α bound)
    (next : Allowance → (value : α) → (rest : List Token) → rest.length < bound →
      Outcome β wider) : andThen room outcome next = outcome.andThen (next room) := rfl

@[simp] theorem nested_room (room : Allowance) (tokens : List Token)
    (body : Allowance → Outcome α bound) : nested room tokens body = .nested room tokens body := rfl

end Nesting

namespace Reading

def nextIs (kind : Token.Kind) : List Token → Bool
  | [] => false
  | token :: _ => token.kind = kind

def expect (kind : Token.Kind) : (tokens : List Token) → Outcome Token tokens.length
  | [] => .error (.expected kind) []
  | token :: rest =>
    if token.kind = kind then .ok token rest (Nat.lt_succ_self _)
    else .error (.expected kind) (token :: rest)

def skip? (kind : Token.Kind) : (tokens : List Token) →
    Option { rest : List Token // rest.length < tokens.length }
  | [] => none
  | token :: rest => if token.kind = kind then some ⟨rest, Nat.lt_succ_self _⟩ else none

end Reading

end YalSyntax
