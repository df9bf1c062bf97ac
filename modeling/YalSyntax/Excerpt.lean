import YalSyntax.Error

namespace YalSyntax

namespace Excerpt

/-- The lines of a text whose current line begins with the characters of `read`, the latest first.
A line ends at a line feed, and a carriage return just before the line feed does not belong to it.
Behind the last line feed there is a line only if characters stand there. -/
def linesAfter (read : List Char) : List Char → List (List Char)
  | [] => if read.isEmpty then [] else [read.reverse]
  | c :: text =>
    if c = '\n' then
      (if read.head? = some '\r' then read.tail else read).reverse :: linesAfter [] text
    else linesAfter (c :: read) text

def lines (text : List Char) : List (List Char) := linesAfter [] text

/-- The excerpt of a text at a position, in two lines, if the text has the line. -/
def render? (source : String) (position : Position) : Option String :=
  if position.line = 0 then none
  else (lines source.toList)[position.line - 1]?.map fun line =>
    "  " ++ String.ofList line ++ "\n  " ++ String.ofList (List.replicate (position.column - 1) ' ')
      ++ "^"

end Excerpt

namespace SyntaxError

def report (source : String) (error : SyntaxError) : String :=
  match Excerpt.render? source error.position with
  | none => error.message ++ "\n"
  | some excerpt => error.message ++ "\n" ++ excerpt ++ "\n"

end SyntaxError

end YalSyntax
