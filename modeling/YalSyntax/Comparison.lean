import YalSyntax.Source
import YalSyntax.Tree.Equality

namespace YalSyntax

def sameResult {ε α : Type} [DecidableEq ε] [DecidableEq α] :
    Except ε α → Except ε α → Bool
  | .ok first, .ok second => first = second
  | .error first, .error second => first = second
  | _, _ => false

theorem sameResult_iff {ε α : Type} [DecidableEq ε] [DecidableEq α]
    (first second : Except ε α) : sameResult first second = true ↔ first = second := by
  cases first <;> cases second <;> simp [sameResult]

def sameTokens (left right : String) : Bool := sameResult (scan left) (scan right)

def sameProgram (left right : String) : Bool := sameResult (parseSource left) (parseSource right)

end YalSyntax
