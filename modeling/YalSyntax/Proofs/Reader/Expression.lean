import YalSyntax.Proofs.Reader
import YalSyntax.Proofs.Tiers

namespace YalSyntax

namespace Reader

open Reading (valueless)

def expression (room : Allowance) : Reader Expr := fun tokens =>
  (Reading.expression room tokens).answer

def assignment (room : Allowance) : Reader Expr := fun tokens =>
  (Reading.assignment room tokens).answer

def tier (room : Allowance) (strength : Nat) : Reader Expr := fun tokens =>
  (Reading.tier room strength tokens).answer

def chain (room : Allowance) (strength : Nat) (left : Expr) : Reader Expr :=
  below (Reading.chain room strength left)

def unary (room : Allowance) : Reader Expr := fun tokens => (Reading.unary room tokens).answer

def operand (room : Allowance) : Reader Expr := fun tokens => (Reading.operand room tokens).answer

def primary (room : Allowance) : Reader Expr := fun tokens => (Reading.primary room tokens).answer

def arguments (room : Allowance) : Reader (List Expr) := fun tokens =>
  (Reading.arguments room tokens).answer

def moreArguments (room : Allowance) (before : List Expr) : Reader (List Expr) :=
  upTo (Reading.moreArguments room before)

def endsValue : Option Token.Kind → Bool
  | none | some .semicolon | some .rightBrace => true
  | _ => false

theorem valueless_eq (tokens : List Token) :
    valueless tokens = endsValue (tokens.head?.map (·.kind)) := by
  cases tokens with
  | nil => rfl
  | cons first rest =>
    obtain ⟨kind, text, position⟩ := first
    cases kind <;> rfl

theorem expression_eq (room : Allowance) :
    expression room = nested room fun room =>
      takeKind .returnWord (fun word => branch endsValue (done (.returned none word.position))
          ((expression room).andThen fun value => done (.returned (some value) word.position)))
        (assignment room) := by
  funext tokens
  rw [expression, Reading.expression]
  refine Outcome.answer_nested fun room => ?_
  cases tokens with
  | nil => rfl
  | cons first rest =>
    by_cases isReturn : first.kind = .returnWord
    · simp only [takeKind_of_eq isReturn, isReturn, if_true, branch, valueless_eq]
      split
      · rfl
      · exact Outcome.answer_andThen rfl fun _ _ _ => rfl
    · simp only [takeKind_of_ne isReturn, isReturn, if_false, assignment]

theorem assignment_eq (room : Allowance) :
    assignment room = (tier room 1).andThen fun target =>
      match target with
      | .ident name position =>
        takeKind .equal (fun _ => nested room fun room =>
          (assignment room).andThen fun value => done (.assign name value position)) (done target)
      | _ => refuse (Option.guard (· = .equal)) (fun sign => .assignmentTarget sign.position)
        (done target) := by
  funext tokens
  rw [assignment, Reading.assignment]
  refine Outcome.answer_andThen rfl fun target rest shorter => ?_
  cases rest with
  | nil => cases target <;> rfl
  | cons sign rest =>
    dsimp only
    by_cases isEqual : sign.kind = .equal
    · rw [if_pos isEqual]
      cases target with
      | ident name position =>
        dsimp only
        rw [takeKind_of_eq isEqual]
        exact Outcome.answer_nested fun room => Outcome.answer_andThen rfl fun _ _ _ => rfl
      | _ =>
        exact (takeKind_of_eq isEqual (fun _ => fail (.assignmentTarget sign.position)) _ rest).symm
    · rw [if_neg isEqual]
      cases target with
      | ident name position => exact (takeKind_of_ne isEqual _ _ rest).symm
      | _ =>
        exact (takeKind_of_ne isEqual (fun _ => fail (.assignmentTarget sign.position)) _ rest).symm

theorem answer_chain (room : Allowance) (strength : Nat) {bound : Nat} (left : Expr)
    (tokens : List Token) (within : tokens.length < bound) :
    (Reading.chain room strength left tokens within).answer = chain room strength left tokens := by
  rw [chain, below, Reading.chain_eq, Reading.chain_eq]
  cases tokens with
  | nil => rfl
  | cons sign rest =>
    dsimp only
    split
    · rfl
    · cases Reading.tier room (strength + 1) rest with
      | ok right middle shorter =>
        have fewer : middle.length < rest.length := shorter
        exact (answer_chain ..).trans (answer_chain ..).symm
      | error fault middle => rfl
termination_by tokens.length
decreasing_by all_goals subst_vars; simp only [List.length_cons]; omega

theorem chain_eq (room : Allowance) (strength : Nat) (left : Expr) :
    chain room strength left = takeIf (Operator.ofStrength? strength)
      (fun operator sign => (tier room (strength + 1)).andThen fun right =>
        chain room strength (.operation operator left right sign.position)) (done left) := by
  funext tokens
  rw [chain, below, Reading.chain_eq]
  cases tokens with
  | nil => rfl
  | cons sign rest =>
    dsimp only [takeIf]
    cases Operator.ofStrength? strength sign.kind with
    | none => rfl
    | some operator => exact Outcome.answer_andThen rfl fun _ _ _ => answer_chain ..

theorem tier_eq (room : Allowance) (strength : Nat) :
    tier room strength = if strength < unaryStrength then
      (tier room (strength + 1)).andThen fun left => chain room strength left else unary room := by
  funext tokens
  rw [tier, Reading.tier_eq]
  split
  · exact Outcome.answer_andThen rfl fun _ _ _ => answer_chain ..
  · rfl

theorem unary_eq (room : Allowance) :
    unary room = takeIf UnaryOp.ofKind? (fun operator sign => nested room fun room =>
      (unary room).andThen fun value => done (.prefixed operator value sign.position))
      (operand room) := by
  funext tokens
  rw [unary, Reading.unary.eq_def]
  cases tokens with
  | nil => rfl
  | cons sign rest =>
    dsimp only [takeIf]
    cases UnaryOp.ofKind? sign.kind with
    | none => rfl
    | some operator =>
      exact Outcome.answer_nested fun room => Outcome.answer_andThen rfl fun _ _ _ => rfl

theorem operand_eq (room : Allowance) :
    operand room = (primary room).andThen fun value =>
      match value with
      | .ident name position => takeIf UnaryOp.step?
        (fun operator _ => done (.suffixed operator (.ident name position) position)) (done value)
      | _ => refuse UnaryOp.step? (fun sign => .suffixOperand sign.text sign.position)
        (done value) := by
  funext tokens
  rw [operand, Reading.operand]
  refine Outcome.answer_andThen rfl fun value rest shorter => ?_
  cases rest with
  | nil => cases value <;> rfl
  | cons sign rest =>
    dsimp only
    cases isStep : UnaryOp.step? sign.kind with
    | none => cases value <;> simp [takeIf, refuse, isStep, done, Outcome.answer]
    | some operator => cases value <;> simp [takeIf, refuse, isStep, done, fail, Outcome.answer]

theorem primary_eq (room : Allowance) :
    primary room = takeIf (Option.guard Token.Kind.isLiteral) (fun _ token => done (.literal token))
      (takeKind .identifier (fun name => takeKind .leftParen (fun _ =>
          (arguments room).andThen fun values => done (.call name.text values name.position))
          (done (.ident name.text name.position)))
        (takeKind .leftParen (fun opener => (expression room).andThen fun inner =>
            (expect .rightParen).andThen fun _ => done (.grouping inner opener.position))
          (fail .expectedExpression))) := by
  funext tokens
  rw [primary, Reading.primary.eq_def]
  cases tokens with
  | nil => rfl
  | cons first rest =>
    dsimp only
    by_cases isLiteral : first.kind.isLiteral
    · rw [takeIf_of_some (Option.guard_eq_some_iff.mpr ⟨rfl, isLiteral⟩), if_pos isLiteral]
      rfl
    · rw [takeIf_of_none (by simpa using isLiteral), if_neg isLiteral]
      by_cases isName : first.kind = .identifier
      · rw [takeKind_of_eq isName, if_pos isName]
        cases rest with
        | nil => rfl
        | cons opener rest =>
          by_cases isOpen : opener.kind = .leftParen
          · rw [takeKind_of_eq isOpen, Reading.skip?_of_kind isOpen]
            exact Outcome.answer_andThen rfl fun _ _ _ => rfl
          · rw [takeKind_of_ne isOpen, Reading.skip?_of_ne isOpen]
            rfl
      · rw [takeKind_of_ne isName, if_neg isName]
        by_cases isOpen : first.kind = .leftParen
        · rw [takeKind_of_eq isOpen, if_pos isOpen]
          exact Outcome.answer_andThen rfl fun _ _ _ =>
            Outcome.answer_andThen (Outcome.answer_expect ..) fun _ _ _ => rfl
        · rw [takeKind_of_ne isOpen, if_neg isOpen]
          rfl

theorem answer_moreArguments (room : Allowance) {bound : Nat} (before : List Expr)
    (tokens : List Token) (within : tokens.length ≤ bound) :
    (Reading.moreArguments room before tokens within).answer = moreArguments room before tokens := by
  rw [moreArguments, upTo, Reading.moreArguments, Reading.moreArguments]
  simp only [Nesting.andThen_room, Nesting.level_room]
  cases Reading.expression room tokens with
  | ok value rest shorter =>
    rw [Outcome.andThen_ok, Outcome.andThen_ok]
    cases Reading.skip? .comma rest with
    | some behind => exact (answer_moreArguments ..).trans (answer_moreArguments ..).symm
    | none => cases Reading.expect .rightParen rest <;> rfl
  | error fault rest => rfl
termination_by tokens.length
decreasing_by all_goals omega

theorem moreArguments_eq (room : Allowance) (before : List Expr) :
    moreArguments room before = (expression room).andThen fun value =>
      takeKind .comma (fun _ => moreArguments room (value :: before))
        ((expect .rightParen).andThen fun _ => done (value :: before).reverse) := by
  funext tokens
  rw [moreArguments, upTo, Reading.moreArguments]
  simp only [Nesting.andThen_room, Nesting.level_room]
  refine Outcome.answer_andThen rfl fun value rest shorter => ?_
  cases rest with
  | nil => rfl
  | cons comma rest =>
    by_cases isComma : comma.kind = .comma
    · rw [takeKind_of_eq isComma, Reading.skip?_of_kind isComma]
      exact answer_moreArguments ..
    · rw [takeKind_of_ne isComma, Reading.skip?_of_ne isComma]
      exact Outcome.answer_andThen (Outcome.answer_expect ..) fun _ _ _ => rfl

theorem arguments_eq (room : Allowance) :
    arguments room = takeKind .rightParen (fun _ => done []) (moreArguments room []) := by
  funext tokens
  rw [arguments, Reading.arguments]
  cases tokens with
  | nil => exact answer_moreArguments ..
  | cons closer rest =>
    by_cases isClose : closer.kind = .rightParen
    · rw [takeKind_of_eq isClose, Reading.skip?_of_kind isClose]
      rfl
    · rw [takeKind_of_ne isClose, Reading.skip?_of_ne isClose]
      exact answer_moreArguments ..

end Reader

end YalSyntax
