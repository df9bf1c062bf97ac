import YalSyntax.Position
import YalSyntax.Token.Kind

namespace YalSyntax

structure Token where
  kind : Token.Kind
  text : String
  position : Position
deriving DecidableEq, Repr, Inhabited

namespace Token

/-- The token that ends a list of tokens: no text, at `position`. -/
def finishAt (position : Position) : Token := ⟨.finish, "", position⟩

end Token

end YalSyntax
