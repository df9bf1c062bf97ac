import YalSyntax.Token.Kind

namespace YalSyntax

inductive BinaryOp
  | equal | notEqual | less | lessEqual | greater | greaterEqual
  | add | subtract | bitOr | bitXor
  | multiply | divide | remainder | shiftLeft | shiftRight | bitAnd
deriving DecidableEq, Repr, Inhabited

inductive LogicalOp
  | conjunction | disjunction
deriving DecidableEq, Repr, Inhabited

inductive UnaryOp
  | complement | negate | increment | decrement
deriving DecidableEq, Repr, Inhabited

namespace BinaryOp

def ofKind? : Token.Kind → Option BinaryOp
  | .equalEqual => some equal
  | .bangEqual => some notEqual
  | .less => some less
  | .lessEqual => some lessEqual
  | .greater => some greater
  | .greaterEqual => some greaterEqual
  | .plus => some add
  | .minus => some subtract
  | .pipe => some bitOr
  | .caret => some bitXor
  | .star => some multiply
  | .slash => some divide
  | .percent => some remainder
  | .shiftLeft => some shiftLeft
  | .shiftRight => some shiftRight
  | .ampersand => some bitAnd
  | _ => none

def kind : BinaryOp → Token.Kind
  | equal => .equalEqual
  | notEqual => .bangEqual
  | less => .less
  | lessEqual => .lessEqual
  | greater => .greater
  | greaterEqual => .greaterEqual
  | add => .plus
  | subtract => .minus
  | bitOr => .pipe
  | bitXor => .caret
  | multiply => .star
  | divide => .slash
  | remainder => .percent
  | shiftLeft => .shiftLeft
  | shiftRight => .shiftRight
  | bitAnd => .ampersand

def symbol : BinaryOp → String
  | equal => "=="
  | notEqual => "!="
  | less => "<"
  | lessEqual => "<="
  | greater => ">"
  | greaterEqual => ">="
  | add => "+"
  | subtract => "-"
  | bitOr => "|"
  | bitXor => "^"
  | multiply => "*"
  | divide => "/"
  | remainder => "%"
  | shiftLeft => "<<"
  | shiftRight => ">>"
  | bitAnd => "&"

theorem ofKind?_eq_some_iff {kind : Token.Kind} {operator : BinaryOp} :
    ofKind? kind = some operator ↔ operator.kind = kind := by
  constructor
  · intro h
    cases kind <;> cases h <;> rfl
  · rintro rfl
    cases operator <;> rfl

end BinaryOp

namespace LogicalOp

def ofKind? : Token.Kind → Option LogicalOp
  | .andAnd => some conjunction
  | .orOr => some disjunction
  | _ => none

def kind : LogicalOp → Token.Kind
  | conjunction => .andAnd
  | disjunction => .orOr

def symbol : LogicalOp → String
  | conjunction => "&&"
  | disjunction => "||"

theorem ofKind?_eq_some_iff {kind : Token.Kind} {operator : LogicalOp} :
    ofKind? kind = some operator ↔ operator.kind = kind := by
  constructor
  · intro h
    cases kind <;> cases h <;> rfl
  · rintro rfl
    cases operator <;> rfl

end LogicalOp

namespace UnaryOp

def ofKind? : Token.Kind → Option UnaryOp
  | .bang => some complement
  | .minus => some negate
  | .increment => some increment
  | .decrement => some decrement
  | _ => none

def kind : UnaryOp → Token.Kind
  | complement => .bang
  | negate => .minus
  | increment => .increment
  | decrement => .decrement

def symbol : UnaryOp → String
  | complement => "!"
  | negate => "-"
  | increment => "++"
  | decrement => "--"

theorem ofKind?_eq_some_iff {kind : Token.Kind} {operator : UnaryOp} :
    ofKind? kind = some operator ↔ operator.kind = kind := by
  constructor
  · intro h
    cases kind <;> cases h <;> rfl
  · rintro rfl
    cases operator <;> rfl

/-- The operators that may also stand after a variable. -/
def step? : Token.Kind → Option UnaryOp
  | .increment => some increment
  | .decrement => some decrement
  | _ => none

end UnaryOp

inductive Operator
  | binary (operator : BinaryOp)
  | logical (operator : LogicalOp)
deriving DecidableEq, Repr

namespace Operator

def ofKind? (kind : Token.Kind) : Option Operator :=
  match BinaryOp.ofKind? kind with
  | some operator => some (binary operator)
  | none => (LogicalOp.ofKind? kind).map logical

/-- The test of a tier with one logical operator, which looks at no strength. -/
def logical? (operator : LogicalOp) (kind : Token.Kind) : Option Operator :=
  if LogicalOp.ofKind? kind = some operator then some (logical operator) else none

/-- The test of a tier with the two-sided operators of a strength that are not logical. -/
def binary? (strength : Nat) (kind : Token.Kind) : Option Operator :=
  if kind.strength = strength then (BinaryOp.ofKind? kind).map binary else none

def kind : Operator → Token.Kind
  | binary operator => operator.kind
  | logical operator => operator.kind

theorem ofKind?_eq_some_iff {kind : Token.Kind} {operator : Operator} :
    ofKind? kind = some operator ↔ operator.kind = kind := by
  constructor
  · intro h
    cases kind <;> cases h <;> rfl
  · rintro rfl
    rcases operator with operator | operator <;> cases operator <;> rfl

end Operator

end YalSyntax
