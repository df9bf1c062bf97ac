import YalSyntax.Reading

namespace YalSyntax

/-- From a cursor an answer and the cursor behind it. No measure goes down with the calls of the
productions, so it is counted how many of them may be nested in each other, and where that is not
enough, or a token behind the last one would be looked at, there is no answer. -/
abbrev Attempt (α : Type) := ExceptT ParseError (StateT Nat Option) α

namespace Attempt

/-- More calls or iterations are asked for than there may be. -/
def unfinished {α : Type} : Attempt α := fun _ => none

/-- Repeat an iteration from one state to the next until it has a result. -/
def loop {σ α : Type} (iteration : σ → Attempt (σ ⊕ α)) : Nat → σ → Attempt α
  | 0, _ => unfinished
  | more + 1, state => do
    match ← iteration state with
    | .inl state => loop iteration more state
    | .inr result => return result

theorem bind_eq {α β : Type} (attempt : Attempt α) (next : α → Attempt β) (cursor : Nat) :
    (attempt >>= next) cursor = (attempt cursor).bind fun
      | (.ok value, cursor) => next value cursor
      | (.error error, cursor) => some (.error error, cursor) := by
  change (attempt cursor).bind _ = _
  congr 1
  funext result
  obtain ⟨answer, cursor⟩ := result
  cases answer <;> rfl

end Attempt

open Attempt

namespace Cursor

variable (tokens : List Token)

/-- The token at a place that depends on the cursor. -/
def look (place : Nat → Nat) : Attempt Token := fun cursor =>
  tokens[place cursor]?.map fun token => (.ok token, cursor)

def peek : Attempt Token := look tokens id

/-- The token behind the next one, or the last one. -/
def peekNext : Attempt Token := look tokens fun cursor => min (cursor + 1) (tokens.length - 1)

def previous : Attempt Token := look tokens (· - 1)

def check (kind : Token.Kind) : Attempt Bool := do
  return (← peek tokens).kind = kind

/-- Take the next token. The cursor does not pass an end token. -/
def advance : Attempt Token := do
  if !(← check tokens .finish) then set ((← get) + 1)
  previous tokens

def accept (kind : Token.Kind) : Attempt Bool := do
  if ← check tokens kind then
    let _ ← advance tokens
    return true
  else return false

def consume (kind : Token.Kind) : Attempt Token := do
  if ← check tokens kind then advance tokens
  else throw (.expected kind (← peek tokens))

def deeper (room : Allowance) : Attempt Allowance := do
  match room.open? with
  | some room => return room
  | none => throw (.tooDeep (← peek tokens).position)

def operationIteration (operator? : Token.Kind → Option Operator) (operand : Attempt Expr)
    (left : Expr) : Attempt (Expr ⊕ Expr) := do
  match operator? (← peek tokens).kind with
  | none => return .inr left
  | some operator =>
    let sign ← advance tokens
    let right ← operand
    return .inl (.operation operator left right sign.position)

def tierOf (operator? : Token.Kind → Option Operator) (operand : Attempt Expr) (calls : Nat) :
    Attempt Expr := do
  loop (operationIteration tokens operator? operand) calls (← operand)

def itemIteration {α : Type} (item : Attempt α) (read : List α) : Attempt (List α ⊕ List α) := do
  let value ← item
  if ← accept tokens .comma then return .inl (value :: read)
  else return .inr (value :: read).reverse

def declarationIteration (ends : Token.Kind → Bool) (declaration : Attempt Stmt)
    (read : List Stmt) : Attempt (List Stmt ⊕ List Stmt) := do
  if ends (← peek tokens).kind then return .inr read.reverse
  else
    let stmt ← declaration
    return .inl (stmt :: read)

def items {α : Type} (item : Attempt α) (calls : Nat) : Attempt (List α) := do
  let values ← if ← check tokens .rightParen then pure [] else
    loop (itemIteration tokens item) calls []
  let _ ← consume tokens .rightParen
  return values

mutual

def expression : Nat → Allowance → Attempt Expr
  | 0, _ => unfinished
  | calls + 1, room => do
    let room ← deeper tokens room
    if ← check tokens .returnWord then returnExpression calls room else assignment calls room

def returnExpression : Nat → Allowance → Attempt Expr
  | 0, _ => unfinished
  | calls + 1, room => do
    let word ← consume tokens .returnWord
    let next ← peek tokens
    if next.kind = .semicolon ∨ next.kind = .rightBrace ∨ next.kind = .finish then
      return .returned none word.position
    else
      let value ← expression calls room
      return .returned (some value) word.position

def assignment : Nat → Allowance → Attempt Expr
  | 0, _ => unfinished
  | calls + 1, room => do
    let target ← logicOr calls room
    if ← check tokens .equal then
      let equals ← advance tokens
      match target with
      | .ident name position =>
        let room ← deeper tokens room
        let value ← assignment calls room
        return .assign name value position
      | _ => throw (.assignmentTarget equals.position)
    else return target

def logicOr : Nat → Allowance → Attempt Expr
  | 0, _ => unfinished
  | calls + 1, room => tierOf tokens (Operator.logical? .disjunction) (logicAnd calls room) calls

def logicAnd : Nat → Allowance → Attempt Expr
  | 0, _ => unfinished
  | calls + 1, room => tierOf tokens (Operator.logical? .conjunction) (equality calls room) calls

def equality : Nat → Allowance → Attempt Expr
  | 0, _ => unfinished
  | calls + 1, room => tierOf tokens (Operator.binary? 3) (term calls room) calls

def term : Nat → Allowance → Attempt Expr
  | 0, _ => unfinished
  | calls + 1, room => tierOf tokens (Operator.binary? 4) (factor calls room) calls

def factor : Nat → Allowance → Attempt Expr
  | 0, _ => unfinished
  | calls + 1, room => tierOf tokens (Operator.binary? (unaryStrength - 1)) (unary calls room) calls

def unary : Nat → Allowance → Attempt Expr
  | 0, _ => unfinished
  | calls + 1, room => do
    match UnaryOp.ofKind? (← peek tokens).kind with
    | none => operand calls room
    | some operator =>
      let sign ← advance tokens
      let room ← deeper tokens room
      let value ← unary calls room
      return .prefixed operator value sign.position

def operand : Nat → Allowance → Attempt Expr
  | 0, _ => unfinished
  | calls + 1, room => do
    let value ← primary calls room
    match UnaryOp.step? (← peek tokens).kind with
    | none => return value
    | some operator =>
      let sign ← advance tokens
      match value with
      | .ident name position => return .suffixed operator (.ident name position) position
      | _ => throw (.suffixOperand sign.text sign.position)

def primary : Nat → Allowance → Attempt Expr
  | 0, _ => unfinished
  | calls + 1, room => do
    let first ← peek tokens
    if first.kind.isLiteral then return .literal (← advance tokens)
    else if first.kind = .identifier then
      if (← peekNext tokens).kind = .leftParen then call calls room
      else
        let name ← advance tokens
        return .ident name.text name.position
    else if first.kind = .leftParen then
      let opener ← advance tokens
      let inner ← expression calls room
      let _ ← consume tokens .rightParen
      return .grouping inner opener.position
    else throw (.expectedExpression first)

def call : Nat → Allowance → Attempt Expr
  | 0, _ => unfinished
  | calls + 1, room => do
    let name ← consume tokens .identifier
    let _ ← consume tokens .leftParen
    let values ← items tokens (expression calls room) calls
    return .call name.text values name.position

end

def typeMark : Attempt (Option String) := do
  if ← accept tokens .colon then
    let name ← consume tokens .identifier
    return some name.text
  else return none

def binding : Attempt Binding := do
  let name ← consume tokens .identifier
  let type? ← typeMark tokens
  return ⟨name.text, type?, none, name.position⟩

def initialValue (calls : Nat) (room : Allowance) : Attempt (Option Expr) := do
  if ← accept tokens .equal then
    let value ← expression tokens calls room
    return some value
  else return none

def letDeclaration (calls : Nat) (room : Allowance) : Attempt Stmt := do
  let word ← consume tokens .letWord
  let name ← binding tokens
  let initializer ← initialValue tokens calls room
  let _ ← consume tokens .semicolon
  return .declare { name with initializer, position := word.position }

def typeDefinition : Attempt Stmt := do
  let word ← consume tokens .typeWord
  let name ← consume tokens .identifier
  let _ ← consume tokens .equal
  let underlying ← consume tokens .identifier
  let _ ← consume tokens .semicolon
  return .typeDef name.text underlying.text word.position

def expressionStatement (calls : Nat) (room : Allowance) : Attempt Stmt := do
  let first ← peek tokens
  let value ← expression tokens calls room
  if ← check tokens .rightBrace then return .expression value.asReturn first.position
  else
    let _ ← consume tokens .semicolon
    return .expression value first.position

def condition (calls : Nat) (room : Allowance) : Attempt Expr := do
  let _ ← consume tokens .leftParen
  let value ← expression tokens calls room
  let _ ← consume tokens .rightParen
  return value

def firstClause (calls : Nat) (room : Allowance) : Attempt (Option Stmt) := do
  if ← accept tokens .semicolon then return none
  else if ← check tokens .letWord then
    let first ← letDeclaration tokens calls room
    return some first
  else
    let first ← expressionStatement tokens calls room
    return some first

def clause (calls : Nat) (room : Allowance) (close : Token.Kind) : Attempt (Option Expr) := do
  if ← check tokens close then
    let _ ← consume tokens close
    return none
  else
    let value ← expression tokens calls room
    let _ ← consume tokens close
    return some value

def endsBlock (kind : Token.Kind) : Bool := kind = .rightBrace || kind = .finish

def endsProgram (kind : Token.Kind) : Bool := kind = .finish

mutual

def declaration : Nat → Allowance → Attempt Stmt
  | 0, _ => unfinished
  | calls + 1, room => do
    let next ← peek tokens
    if next.kind = .letWord then letDeclaration tokens calls room
    else if next.kind = .typeWord then typeDefinition tokens
    else statement calls room

def statement : Nat → Allowance → Attempt Stmt
  | 0, _ => unfinished
  | calls + 1, room => do
    let room ← deeper tokens room
    let next ← peek tokens
    if next.kind = .fnWord then functionDeclaration calls room
    else if next.kind = .forWord then forStatement calls room
    else if next.kind = .whileWord then whileStatement calls room
    else if next.kind = .ifWord then ifStatement calls room
    else if next.kind = .leftBrace then block calls room
    else expressionStatement tokens calls room

def functionDeclaration : Nat → Allowance → Attempt Stmt
  | 0, _ => unfinished
  | calls + 1, room => do
    let word ← consume tokens .fnWord
    let name ← consume tokens .identifier
    let _ ← consume tokens .leftParen
    let parameters ← items tokens (binding tokens) calls
    let returns ← typeMark tokens
    let body ← statement calls room
    return .function name.text parameters returns body word.position

def forStatement : Nat → Allowance → Attempt Stmt
  | 0, _ => unfinished
  | calls + 1, room => do
    let word ← consume tokens .forWord
    let _ ← consume tokens .leftParen
    let initializer ← firstClause tokens calls room
    let condition ← clause tokens calls room .semicolon
    let increment ← clause tokens calls room .rightParen
    let body ← statement calls room
    return .forLoop initializer condition increment body word.position

def whileStatement : Nat → Allowance → Attempt Stmt
  | 0, _ => unfinished
  | calls + 1, room => do
    let word ← consume tokens .whileWord
    let condition ← condition tokens calls room
    let body ← statement calls room
    return .whileLoop condition body word.position

def ifStatement : Nat → Allowance → Attempt Stmt
  | 0, _ => unfinished
  | calls + 1, room => do
    let word ← consume tokens .ifWord
    let condition ← condition tokens calls room
    let yes ← statement calls room
    if ← accept tokens .elseWord then
      let no ← statement calls room
      return .conditional condition yes (some no) word.position
    else return .conditional condition yes none word.position

def block : Nat → Allowance → Attempt Stmt
  | 0, _ => unfinished
  | calls + 1, room => do
    let opener ← consume tokens .leftBrace
    let body ← loop (declarationIteration tokens endsBlock (declaration calls room)) calls []
    let _ ← consume tokens .rightBrace
    return .block body opener.position

end

def parse (calls : Nat) (room : Allowance) : Attempt Program := do
  let statements ←
    loop (declarationIteration tokens endsProgram (declaration tokens calls room)) calls []
  return ⟨statements⟩

end Cursor

end YalSyntax
