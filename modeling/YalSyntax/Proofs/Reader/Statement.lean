import YalSyntax.Proofs.Reader.Expression

namespace YalSyntax

namespace Reader

open Reading (here)

def typeMark : Reader (Option String) := fun tokens => (Reading.typeMark tokens).answer

def binding : Reader Binding := fun tokens => (Reading.binding tokens).answer

def moreParameters (before : List Binding) : Reader (List Binding) :=
  upTo (Reading.moreParameters before)

def parameters : Reader (List Binding) := fun tokens => (Reading.parameters tokens).answer

def initialValue (room : Allowance) : Reader (Option Expr) := fun tokens =>
  (Reading.initialValue room tokens).answer

def letRest (room : Allowance) (position : Position) : Reader Stmt := fun tokens =>
  (Reading.letRest room position tokens).answer

def typeRest (position : Position) : Reader Stmt := fun tokens =>
  (Reading.typeRest position tokens).answer

def expressionStatement (room : Allowance) : Reader Stmt := fun tokens =>
  (Reading.expressionStatement room tokens).answer

def condition (room : Allowance) : Reader Expr := fun tokens =>
  (Reading.condition room tokens).answer

def firstClause (room : Allowance) : Reader (Option Stmt) := fun tokens =>
  (Reading.firstClause room tokens).answer

def clause (room : Allowance) (close : Token.Kind) : Reader (Option Expr) := fun tokens =>
  (Reading.clause room close tokens).answer

def declaration (room : Allowance) : Reader Stmt := fun tokens =>
  (Reading.declaration room tokens).answer

def statement (room : Allowance) : Reader Stmt := fun tokens =>
  (Reading.statement room tokens).answer

def blockRest (room : Allowance) (position : Position) (before : List Stmt) : Reader Stmt :=
  below (Reading.blockRest room position before)

def declarations (room : Allowance) (before : List Stmt) : Reader Program :=
  Reading.declarations room before

theorem typeMark_eq :
    typeMark = takeKind .colon (fun _ => (expect .identifier).andThen fun name =>
      done (some name.text)) (done none) := by
  funext tokens
  rw [typeMark, Reading.typeMark]
  cases tokens with
  | nil => rfl
  | cons first rest =>
    by_cases isColon : first.kind = .colon
    · rw [takeKind_of_eq isColon, Reading.skip?_of_kind isColon]
      exact Outcome.answer_andThen (Outcome.answer_expect ..) fun _ _ _ => rfl
    · rw [takeKind_of_ne isColon, Reading.skip?_of_ne isColon]
      rfl

theorem binding_eq :
    binding = (expect .identifier).andThen fun name => typeMark.andThen fun type? =>
      done ⟨name.text, type?, none, name.position⟩ := by
  funext tokens
  rw [binding, Reading.binding]
  refine Outcome.answer_andThen (Outcome.answer_expect ..) fun name rest shorter => ?_
  exact Outcome.answer_andThen rfl fun _ _ _ => rfl

theorem answer_moreParameters {bound : Nat} (before : List Binding) (tokens : List Token)
    (within : tokens.length ≤ bound) :
    (Reading.moreParameters before tokens within).answer = moreParameters before tokens := by
  rw [moreParameters, upTo, Reading.moreParameters, Reading.moreParameters]
  cases Reading.binding tokens with
  | ok parameter rest shorter =>
    rw [Outcome.andThen_ok, Outcome.andThen_ok]
    cases Reading.skip? .comma rest with
    | some behind => exact (answer_moreParameters ..).trans (answer_moreParameters ..).symm
    | none => cases Reading.expect .rightParen rest <;> rfl
  | error fault rest => rfl
termination_by tokens.length
decreasing_by all_goals omega

theorem moreParameters_eq (before : List Binding) :
    moreParameters before = binding.andThen fun parameter =>
      takeKind .comma (fun _ => moreParameters (parameter :: before))
        ((expect .rightParen).andThen fun _ => done (parameter :: before).reverse) := by
  funext tokens
  rw [moreParameters, upTo, Reading.moreParameters]
  refine Outcome.answer_andThen rfl fun parameter rest shorter => ?_
  cases rest with
  | nil => rfl
  | cons comma rest =>
    by_cases isComma : comma.kind = .comma
    · rw [takeKind_of_eq isComma, Reading.skip?_of_kind isComma]
      exact answer_moreParameters ..
    · rw [takeKind_of_ne isComma, Reading.skip?_of_ne isComma]
      exact Outcome.answer_andThen (Outcome.answer_expect ..) fun _ _ _ => rfl

theorem parameters_eq :
    parameters = takeKind .rightParen (fun _ => done []) (moreParameters []) := by
  funext tokens
  rw [parameters, Reading.parameters]
  cases tokens with
  | nil => exact answer_moreParameters ..
  | cons closer rest =>
    by_cases isClose : closer.kind = .rightParen
    · rw [takeKind_of_eq isClose, Reading.skip?_of_kind isClose]
      rfl
    · rw [takeKind_of_ne isClose, Reading.skip?_of_ne isClose]
      exact answer_moreParameters ..

theorem initialValue_eq (room : Allowance) :
    initialValue room = takeKind .equal (fun _ => (expression room).andThen fun value =>
      done (some value)) (done none) := by
  funext tokens
  rw [initialValue, Reading.initialValue]
  cases tokens with
  | nil => rfl
  | cons first rest =>
    by_cases isEqual : first.kind = .equal
    · rw [takeKind_of_eq isEqual, Reading.skip?_of_kind isEqual]
      exact Outcome.answer_andThen rfl fun _ _ _ => rfl
    · rw [takeKind_of_ne isEqual, Reading.skip?_of_ne isEqual]
      rfl

theorem letRest_eq (room : Allowance) (position : Position) :
    letRest room position = binding.andThen fun name =>
      (initialValue room).andThen fun initializer => (expect .semicolon).andThen fun _ =>
        done (.declare { name with initializer, position }) := by
  funext tokens
  rw [letRest, Reading.letRest]
  refine Outcome.answer_andThen rfl fun name rest _ => Outcome.answer_andThen rfl fun value rest _ => ?_
  exact Outcome.answer_andThen (Outcome.answer_expect ..) fun _ _ _ => rfl

theorem typeRest_eq (position : Position) :
    typeRest position = (expect .identifier).andThen fun name =>
      (expect .equal).andThen fun _ => (expect .identifier).andThen fun underlying =>
        (expect .semicolon).andThen fun _ =>
          done (.typeDef name.text underlying.text position) := by
  funext tokens
  rw [typeRest, Reading.typeRest]
  refine Outcome.answer_andThen (Outcome.answer_expect ..) fun name rest _ => ?_
  refine Outcome.answer_andThen (Outcome.answer_expect ..) fun _ rest _ => ?_
  refine Outcome.answer_andThen (Outcome.answer_expect ..) fun underlying rest _ => ?_
  exact Outcome.answer_andThen (Outcome.answer_expect ..) fun _ _ _ => rfl

theorem nextIs_eq (kind : Token.Kind) (tokens : List Token) :
    Reading.nextIs kind tokens = decide (tokens.head?.map (·.kind) = some kind) := by
  cases tokens with
  | nil => rfl
  | cons first rest => simp [Reading.nextIs]

def expressionAt (room : Allowance) (position : Position) : Reader Stmt :=
  (expression room).andThen fun value =>
    branch (· = some .rightBrace) (done (.expression value.asReturn position))
      ((expect .semicolon).andThen fun _ => done (.expression value position))

theorem expressionStatement_eq (room : Allowance) (tokens : List Token) :
    expressionStatement room tokens = expressionAt room (here tokens) tokens := by
  rw [expressionStatement, Reading.expressionStatement]
  simp only [Nesting.andThen_room, Nesting.level_room]
  refine Outcome.answer_andThen rfl fun value rest _ => ?_
  rw [branch, nextIs_eq]
  split
  · rfl
  · exact Outcome.answer_andThen (Outcome.answer_expect ..) fun _ _ _ => rfl

theorem condition_eq (room : Allowance) :
    condition room = (expect .leftParen).andThen fun _ => (expression room).andThen fun value =>
      (expect .rightParen).andThen fun _ => done value := by
  funext tokens
  rw [condition, Reading.condition]
  refine Outcome.answer_andThen (Outcome.answer_expect ..) fun _ rest _ => ?_
  refine Outcome.answer_andThen rfl fun value rest _ => ?_
  exact Outcome.answer_andThen (Outcome.answer_expect ..) fun _ _ _ => rfl

theorem firstClause_eq (room : Allowance) :
    firstClause room = takeKind .semicolon (fun _ => done none)
      (takeKind .letWord (fun word => (letRest room word.position).andThen fun first =>
          done (some first))
        ((expressionStatement room).andThen fun first => done (some first))) := by
  funext tokens
  rw [firstClause, Reading.firstClause]
  cases tokens with
  | nil => exact Outcome.answer_andThen rfl fun _ _ _ => rfl
  | cons word rest =>
    by_cases isEnd : word.kind = .semicolon
    · rw [takeKind_of_eq isEnd, Reading.skip?_of_kind isEnd]
      rfl
    · rw [takeKind_of_ne isEnd, Reading.skip?_of_ne isEnd]
      by_cases isLet : word.kind = .letWord
      · rw [takeKind_of_eq isLet, Reading.skip?_of_kind isLet]
        exact Outcome.answer_andThen rfl fun _ _ _ => rfl
      · rw [takeKind_of_ne isLet, Reading.skip?_of_ne isLet]
        exact Outcome.answer_andThen rfl fun _ _ _ => rfl

theorem clause_eq (room : Allowance) (close : Token.Kind) :
    clause room close = takeKind close (fun _ => done none)
      ((expression room).andThen fun value => (expect close).andThen fun _ =>
        done (some value)) := by
  funext tokens
  rw [clause, Reading.clause]
  have present : ∀ tokens : List Token, ((Reading.expression room tokens).andThen
      fun value rest shorter => (Reading.expect close rest).andThen fun _ rest fewer =>
        (Outcome.ok (some value) rest (Nat.lt_trans fewer shorter) : Outcome _ tokens.length)).answer =
      ((expression room).andThen fun value => (expect close).andThen fun _ => done (some value))
        tokens :=
    fun tokens => Outcome.answer_andThen rfl fun _ _ _ =>
      Outcome.answer_andThen (Outcome.answer_expect ..) fun _ _ _ => rfl
  cases tokens with
  | nil => exact present []
  | cons closer rest =>
    by_cases isClose : closer.kind = close
    · rw [takeKind_of_eq isClose, Reading.skip?_of_kind isClose]
      rfl
    · rw [takeKind_of_ne isClose, Reading.skip?_of_ne isClose]
      exact present (closer :: rest)

theorem declaration_eq (room : Allowance) :
    declaration room = takeKind .letWord (fun word => letRest room word.position)
      (takeKind .typeWord (fun word => typeRest word.position) (statement room)) := by
  funext tokens
  rw [declaration, Reading.declaration.eq_def]
  cases tokens with
  | nil => rfl
  | cons word rest =>
    dsimp only
    by_cases isLet : word.kind = .letWord
    · rw [takeKind_of_eq isLet, if_pos isLet, letRest]
      cases Reading.letRest room word.position rest <;> rfl
    · rw [takeKind_of_ne isLet, if_neg isLet]
      by_cases isType : word.kind = .typeWord
      · rw [takeKind_of_eq isType, if_pos isType, typeRest]
        cases Reading.typeRest word.position rest <;> rfl
      · rw [takeKind_of_ne isType, if_neg isType]
        rfl

theorem answer_blockRest (room : Allowance) (position : Position) {bound : Nat}
    (before : List Stmt) (tokens : List Token) (within : tokens.length < bound) :
    (Reading.blockRest room position before tokens within).answer =
      blockRest room position before tokens := by
  rw [blockRest, below, Reading.blockRest, Reading.blockRest]
  cases Reading.skip? .rightBrace tokens with
  | some behind => rfl
  | none =>
    dsimp only
    split
    · rfl
    · cases Reading.declaration room tokens with
      | ok stmt rest shorter => exact (answer_blockRest ..).trans (answer_blockRest ..).symm
      | error fault rest => rfl
termination_by tokens.length
decreasing_by all_goals omega

theorem blockRest_eq (room : Allowance) (position : Position) (before : List Stmt) :
    blockRest room position before =
      takeKind .rightBrace (fun _ => done (.block before.reverse position))
        (branch Option.isNone (fail (.expected .rightBrace))
          ((declaration room).andThen fun stmt => blockRest room position (stmt :: before))) := by
  funext tokens
  rw [blockRest, below, Reading.blockRest]
  cases tokens with
  | nil => rfl
  | cons closer rest =>
    by_cases isClose : closer.kind = .rightBrace
    · rw [takeKind_of_eq isClose, Reading.skip?_of_kind isClose]
      rfl
    · rw [takeKind_of_ne isClose, Reading.skip?_of_ne isClose]
      exact Outcome.answer_andThen rfl fun _ _ _ => answer_blockRest ..

theorem declarations_eq (room : Allowance) (before : List Stmt) :
    declarations room before = branch Option.isNone (done ⟨before.reverse⟩)
      ((declaration room).andThen fun stmt => declarations room (stmt :: before)) := by
  funext tokens
  rw [declarations, Reading.declarations_eq]
  cases tokens with
  | nil => rfl
  | cons first rest =>
    rw [branch, andThen, declaration]
    cases Reading.declaration room (first :: rest) <;> rfl

def functionRest (room : Allowance) (position : Position) : Reader Stmt :=
  (expect .identifier).andThen fun name => (expect .leftParen).andThen fun _ =>
    parameters.andThen fun parameters => typeMark.andThen fun returns =>
      (statement room).andThen fun body =>
        done (.function name.text parameters returns body position)

def forRest (room : Allowance) (position : Position) : Reader Stmt :=
  (expect .leftParen).andThen fun _ => (firstClause room).andThen fun initializer =>
    (clause room .semicolon).andThen fun condition =>
      (clause room .rightParen).andThen fun increment => (statement room).andThen fun body =>
        done (.forLoop initializer condition increment body position)

def whileRest (room : Allowance) (position : Position) : Reader Stmt :=
  (condition room).andThen fun condition => (statement room).andThen fun body =>
    done (.whileLoop condition body position)

def ifRest (room : Allowance) (position : Position) : Reader Stmt :=
  (condition room).andThen fun condition => (statement room).andThen fun yes =>
    takeKind .elseWord (fun _ => (statement room).andThen fun no =>
      done (.conditional condition yes (some no) position))
      (done (.conditional condition yes none position))

theorem answer_functionRest (room : Allowance) (position : Position) {bound : Nat}
    (tokens : List Token) (within : tokens.length < bound) :
    (Reading.functionRest room position tokens within).answer =
      functionRest room position tokens := by
  rw [functionRest, Reading.functionRest]
  refine Outcome.answer_andThen (Outcome.answer_expect ..) fun name rest _ => ?_
  refine Outcome.answer_andThen (Outcome.answer_expect ..) fun _ rest _ => ?_
  refine Outcome.answer_andThen rfl fun names rest _ => Outcome.answer_andThen rfl fun mark rest _ => ?_
  exact Outcome.answer_andThen rfl fun _ _ _ => rfl

theorem answer_forRest (room : Allowance) (position : Position) {bound : Nat}
    (tokens : List Token) (within : tokens.length < bound) :
    (Reading.forRest room position tokens within).answer = forRest room position tokens := by
  rw [forRest, Reading.forRest]
  refine Outcome.answer_andThen (Outcome.answer_expect ..) fun _ rest _ => ?_
  refine Outcome.answer_andThen rfl fun first rest _ => Outcome.answer_andThen rfl fun next rest _ => ?_
  exact Outcome.answer_andThen rfl fun _ _ _ => Outcome.answer_andThen rfl fun _ _ _ => rfl

theorem answer_whileRest (room : Allowance) (position : Position) {bound : Nat}
    (tokens : List Token) (within : tokens.length < bound) :
    (Reading.whileRest room position tokens within).answer = whileRest room position tokens := by
  rw [whileRest, Reading.whileRest]
  exact Outcome.answer_andThen rfl fun _ _ _ => Outcome.answer_andThen rfl fun _ _ _ => rfl

theorem answer_ifRest (room : Allowance) (position : Position) {bound : Nat}
    (tokens : List Token) (within : tokens.length < bound) :
    (Reading.ifRest room position tokens within).answer = ifRest room position tokens := by
  rw [ifRest, Reading.ifRest]
  simp only [Nesting.andThen_room, Nesting.level_room]
  refine Outcome.answer_andThen rfl fun test rest _ => Outcome.answer_andThen rfl fun yes rest _ => ?_
  cases rest with
  | nil => rfl
  | cons other rest =>
    by_cases isElse : other.kind = .elseWord
    · rw [takeKind_of_eq isElse, Reading.skip?_of_kind isElse]
      exact Outcome.answer_andThen rfl fun _ _ _ => rfl
    · rw [takeKind_of_ne isElse, Reading.skip?_of_ne isElse]
      rfl

theorem statement_eq (room : Allowance) :
    statement room = nested room fun room =>
      takeKind .fnWord (fun word => functionRest room word.position)
        (takeKind .forWord (fun word => forRest room word.position)
          (takeKind .whileWord (fun word => whileRest room word.position)
            (takeKind .ifWord (fun word => ifRest room word.position)
              (takeKind .leftBrace (fun opener => blockRest room opener.position [])
                (expressionStatement room))))) := by
  funext tokens
  rw [statement, Reading.statement]
  refine Outcome.answer_nested fun room => ?_
  cases tokens with
  | nil => rfl
  | cons word rest =>
    dsimp only
    by_cases isFn : word.kind = .fnWord
    · rw [takeKind_of_eq isFn, if_pos isFn, answer_functionRest]
    rw [takeKind_of_ne isFn, if_neg isFn]
    by_cases isFor : word.kind = .forWord
    · rw [takeKind_of_eq isFor, if_pos isFor, answer_forRest]
    rw [takeKind_of_ne isFor, if_neg isFor]
    by_cases isWhile : word.kind = .whileWord
    · rw [takeKind_of_eq isWhile, if_pos isWhile, answer_whileRest]
    rw [takeKind_of_ne isWhile, if_neg isWhile]
    by_cases isIf : word.kind = .ifWord
    · rw [takeKind_of_eq isIf, if_pos isIf, answer_ifRest]
    rw [takeKind_of_ne isIf, if_neg isIf]
    by_cases isOpen : word.kind = .leftBrace
    · rw [takeKind_of_eq isOpen, if_pos isOpen, answer_blockRest]
    rw [takeKind_of_ne isOpen, if_neg isOpen]
    rfl

end Reader

end YalSyntax
