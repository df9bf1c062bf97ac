import YalSyntax.Reading

namespace YalSyntax

/-- A level that is opened: how many are open with it, and the tokens still to be read there. -/
structure Opening where
  level : Nat
  tokens : List Token
deriving DecidableEq, Repr

structure Counter where
  limit : Allowance
  depth : Nat
deriving DecidableEq, Repr

structure Counted (ω : Type) where
  outcome : ω
  depth : Nat
  openings : List Opening

/-- Whether one more level may be opened when so many are open. -/
def Allowance.admits : Allowance → Nat → Bool
  | unlimited, _ => true
  | levels count, depth => depth < count

namespace Counted

variable {ω α β : Type} {bound wider : Nat}

def level (counter : Counter) (outcome : ω) : Counted ω := ⟨outcome, counter.depth, []⟩

def andThen (counter : Counter) (counted : Counted (Outcome α bound))
    (next : Counter → (value : α) → (rest : List Token) → rest.length < bound →
      Counted (Outcome β wider)) : Counted (Outcome β wider) :=
  match counted.outcome with
  | .ok value rest shorter =>
    let after := next { counter with depth := counted.depth } value rest shorter
    { after with openings := counted.openings ++ after.openings }
  | .error fault rest => { counted with outcome := .error fault rest }

/-- Count one up, read, and count one down. -/
def nested (counter : Counter) (tokens : List Token)
    (body : Counter → Counted (Outcome α bound)) : Counted (Outcome α bound) :=
  if counter.limit.admits counter.depth then
    let inner := body { counter with depth := counter.depth + 1 }
    ⟨inner.outcome, inner.depth - 1, ⟨counter.depth + 1, tokens⟩ :: inner.openings⟩
  else level counter (.error .tooDeep tokens)

end Counted

/-- A counter counts one up when a level is opened and one down when it is left, after success and
after a fault alike. -/
instance : Nesting Counter Counted where
  level := Counted.level
  andThen := Counted.andThen
  nested := Counted.nested

def Counting.declarations (limit : Allowance) (depth : Nat) (read : List Stmt)
    (tokens : List Token) : Counted (Except Fault Program × List Token) :=
  let counted := Reading.programFrom (Counter.mk limit depth) read tokens
  ⟨counted.outcome.answer, counted.depth, counted.openings⟩

end YalSyntax
