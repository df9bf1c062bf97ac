import YalSyntax.Reading.Statement

namespace YalSyntax

/-- A token stream that has been read in part: the tokens still to be read, none of them an end
token, and the token that ends the stream. -/
structure Reading where
  upcoming : List Token
  finish : Token
deriving DecidableEq, Repr

namespace Reading

def isFinish (token : Token) : Bool := token.kind = .finish

/-- The token that ends a stream: its first end token. A stream without one is ended by a token
without text at the position of its last token. -/
def finishOf (tokens : List Token) : Token :=
  match tokens.find? isFinish with
  | some token => token
  | none => .finishAt ((tokens.getLast?.map (·.position)).getD .start)

def ofTokens (tokens : List Token) : Reading :=
  ⟨tokens.takeWhile (fun token => !isFinish token), finishOf tokens⟩

def next (reading : Reading) : Token := reading.upcoming.headD reading.finish

def declarations (room : Allowance) (read : List Stmt) (tokens : List Token) :
    Except Fault Program × List Token :=
  (programFrom room read tokens).answer

def run (reading : Reading) (room : Allowance) : Except ParseError Program × Reading :=
  let (result, rest) := declarations room [] reading.upcoming
  let after : Reading := { reading with upcoming := rest }
  (result.mapError (Fault.report after.next), after)

end Reading

/-- The program that a token stream holds. -/
def parseTokens (tokens : List Token) : Except ParseError Program :=
  ((Reading.ofTokens tokens).run (.levels nestingLimit)).1

end YalSyntax
