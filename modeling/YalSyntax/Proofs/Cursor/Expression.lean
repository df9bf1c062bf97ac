import Mathlib
import YalSyntax.Proofs.Cursor
import YalSyntax.Proofs.Reader

namespace YalSyntax

open Attempt

namespace Cursor

/-- The tokens of a reading and its end token stand at the front of the list. -/
structure Holds (tokens : List Token) (reading : Reading) : Prop where
  plain : ∀ token ∈ reading.upcoming, token.kind ≠ .finish
  ends : reading.finish.kind = .finish
  split : ∃ behind, tokens = reading.upcoming ++ reading.finish :: behind

def place (reading : Reading) (rest : List Token) : Nat :=
  reading.upcoming.length - rest.length

/-- Where the rest is still to be read, the attempt comes to the answer. -/
def Runs {α : Type} (reading : Reading) (attempt : Attempt α) (rest : List Token)
    (answer : Answer α) : Prop :=
  rest <:+ reading.upcoming → answer.2 <:+ rest ∧
    attempt (place reading rest) =
      some (answer.1.mapError (Fault.report (answer.2.headD reading.finish)),
        place reading answer.2)

section

variable {α β : Type} {tokens : List Token} {reading : Reading}

theorem Holds.at? (holds : Holds tokens reading) {rest : List Token}
    (within : rest <:+ reading.upcoming) :
    tokens[place reading rest]? = some (rest.headD reading.finish) := by
  obtain ⟨behind, split⟩ := holds.split
  obtain ⟨taken, whole⟩ := within
  have spot : place reading rest = taken.length := by
    rw [place, ← whole, List.length_append, Nat.add_sub_cancel]
  rw [spot, split, ← whole, List.append_assoc, List.getElem?_append_right (Nat.le_refl _),
    Nat.sub_self]
  cases rest <;> rfl

theorem place_tail {first : Token} {rest : List Token}
    (within : first :: rest <:+ reading.upcoming) :
    place reading rest = place reading (first :: rest) + 1 := by
  have fits := within.length_le
  simp only [place, List.length_cons] at *
  omega

namespace Runs

variable {rest : List Token}

theorem knowing {attempt : Attempt α} {answer : Answer α}
    (runs : rest <:+ reading.upcoming → Runs reading attempt rest answer) :
    Runs reading attempt rest answer := fun within => runs within within

theorem done (value : α) : Runs reading (pure value) rest (.ok value, rest) := fun _ =>
  ⟨List.suffix_rfl, rfl⟩

theorem fail {error : ParseError} {fault : Fault}
    (same : fault.report (rest.headD reading.finish) = error) :
    Runs reading (throw error : Attempt α) rest (.error fault, rest) := by
  subst same
  exact fun _ => ⟨List.suffix_rfl, rfl⟩

theorem behind {attempt : Attempt α} {next : α → Attempt β} {value : α} {later : List Token}
    {answer : Answer β} (first : Runs reading attempt rest (.ok value, later))
    (others : Runs reading (next value) later answer) :
    Runs reading (attempt >>= next) rest answer := by
  intro within
  obtain ⟨left, same⟩ := first within
  obtain ⟨further, others⟩ := others (left.trans within)
  exact ⟨further.trans left, by rw [bind_eq, same]; exact others⟩

theorem stop {attempt : Attempt α} {fault : Fault} {later : List Token}
    (first : Runs reading attempt rest (.error fault, later)) (next : α → Attempt β) :
    Runs reading (attempt >>= next) rest (.error fault, later) := by
  intro within
  obtain ⟨left, same⟩ := first within
  exact ⟨left, by rw [bind_eq, same]; rfl⟩

theorem andThen {bound wider : Nat} {attempt : Attempt α} {next : α → Attempt β}
    {outcome : Outcome α bound}
    {others : (value : α) → (rest : List Token) → rest.length < bound → Outcome β wider}
    (first : Runs reading attempt rest outcome.answer)
    (second : ∀ value later shorter,
      Runs reading (next value) later (others value later shorter).answer) :
    Runs reading (attempt >>= next) rest (outcome.andThen others).answer := by
  cases outcome with
  | ok value later shorter => exact first.behind (second value later shorter)
  | error fault later => exact first.stop next

end Runs

theorem peek_run (holds : Holds tokens reading) (rest : List Token) :
    Runs reading (peek tokens) rest (.ok (rest.headD reading.finish), rest) := fun within =>
  ⟨List.suffix_rfl, by rw [peek, look, id, holds.at? within]; rfl⟩

theorem check_run (holds : Holds tokens reading) (kind : Token.Kind) (rest : List Token) :
    Runs reading (check tokens kind) rest
      (.ok (decide ((rest.headD reading.finish).kind = kind)), rest) :=
  (peek_run holds rest).behind (.done _)

theorem advance_run (holds : Holds tokens reading) (first : Token) (rest : List Token) :
    Runs reading (advance tokens) (first :: rest) (.ok first, rest) := by
  refine fun within => ⟨List.suffix_cons first rest, ?_⟩
  have inside : first.kind ≠ .finish := holds.plain first (within.subset (by simp))
  rw [advance, bind_eq, (check_run holds .finish _ within).2, place_tail within]
  simp only [List.headD_cons, Except.mapError, Option.bind_some, inside, decide_false]
  change previous tokens (place reading (first :: rest) + 1) = _
  rw [previous, look, Nat.add_sub_cancel, holds.at? within]
  rfl

theorem peekNext_run (holds : Holds tokens reading) (first : Token) (rest : List Token) :
    Runs reading (peekNext tokens) (first :: rest)
      (.ok (rest.headD reading.finish), first :: rest) := by
  refine fun within => ⟨List.suffix_rfl, ?_⟩
  obtain ⟨behind, split⟩ := holds.split
  have fits := within.length_le
  have spot : min (place reading (first :: rest) + 1) (tokens.length - 1) = place reading rest := by
    rw [place_tail within, split, place]
    simp only [List.length_append, List.length_cons] at *
    omega
  rw [peekNext, look, spot, holds.at? ((List.suffix_cons first rest).trans within)]
  rfl

theorem headD_kind_ne (holds : Holds tokens reading) {kind : Token.Kind} {rest : List Token}
    (other : kind ≠ .finish) (missing : Reading.skip? kind rest = none) :
    (rest.headD reading.finish).kind ≠ kind := by
  cases rest with
  | nil =>
    rw [List.headD_nil, holds.ends]
    exact other.symm
  | cons first rest => exact Reading.skip?_eq_none_iff.mp missing first rfl

namespace Runs

variable {rest later : List Token} {answer : Answer β}

theorem peek (holds : Holds tokens reading) {next : Token → Attempt β}
    (others : Runs reading (next (rest.headD reading.finish)) rest answer) :
    Runs reading (Cursor.peek tokens >>= next) rest answer := (peek_run holds rest).behind others

theorem check (holds : Holds tokens reading) (kind : Token.Kind) {next : Bool → Attempt β}
    (others : Runs reading (next (decide ((rest.headD reading.finish).kind = kind))) rest answer) :
    Runs reading (Cursor.check tokens kind >>= next) rest answer :=
  (check_run holds kind rest).behind others

theorem advance (holds : Holds tokens reading) {first : Token} {next : Token → Attempt β}
    (others : Runs reading (next first) rest answer) :
    Runs reading (Cursor.advance tokens >>= next) (first :: rest) answer :=
  (advance_run holds first rest).behind others

theorem peekNext (holds : Holds tokens reading) {first : Token} {next : Token → Attempt β}
    (others : Runs reading (next (rest.headD reading.finish)) (first :: rest) answer) :
    Runs reading (Cursor.peekNext tokens >>= next) (first :: rest) answer :=
  (peekNext_run holds first rest).behind others

theorem deeper (holds : Holds tokens reading) {room : Allowance} {bound : Nat}
    {next : Allowance → Attempt β} {body : Allowance → Outcome β bound}
    (inner : ∀ room, Runs reading (next room) rest (body room).answer) :
    Runs reading (Cursor.deeper tokens room >>= next) rest
      (Outcome.nested room rest body).answer := by
  unfold Outcome.nested Cursor.deeper
  cases room.open? with
  | some room => exact .behind (.done room) (inner room)
  | none => exact .stop (.peek holds (.fail rfl)) next

theorem consume_of_kind (holds : Holds tokens reading) {kind : Token.Kind} {first : Token}
    (same : first.kind = kind) (rest : List Token) :
    Runs reading (Cursor.consume tokens kind) (first :: rest) (.ok first, rest) := by
  refine .check holds kind ?_
  simp only [List.headD_cons, same, decide_true, if_true]
  exact advance_run holds first rest

theorem consume (holds : Holds tokens reading) {kind : Token.Kind} (other : kind ≠ .finish)
    (rest : List Token) :
    Runs reading (Cursor.consume tokens kind) rest (Reading.expect kind rest).answer := by
  cases rest with
  | nil =>
    have missing : reading.finish.kind ≠ kind := by rw [holds.ends]; exact other.symm
    refine .check holds kind ?_
    simp only [List.headD_nil, missing, decide_false]
    exact .peek holds (.fail rfl)
  | cons first rest =>
    by_cases same : first.kind = kind
    · rw [Reading.expect_of_kind same]
      exact consume_of_kind holds same rest
    · refine .check holds kind ?_
      simp only [List.headD_cons, same, decide_false, Reading.expect, if_false]
      exact .peek holds (.fail rfl)

theorem accept_of_some (holds : Holds tokens reading) {kind : Token.Kind}
    {behind : { later : List Token // later.length < rest.length }} {next : Bool → Attempt β}
    (found : Reading.skip? kind rest = some behind)
    (others : Runs reading (next true) behind answer) :
    Runs reading (Cursor.accept tokens kind >>= next) rest answer := by
  obtain ⟨later, shorter⟩ := behind
  obtain ⟨first, rfl, same⟩ := Reading.skip?_eq_some found
  refine .behind (.check holds kind ?_) others
  simp only [List.headD_cons, same, decide_true, if_true]
  exact .advance holds (.done true)

theorem accept_of_none (holds : Holds tokens reading) {kind : Token.Kind} (other : kind ≠ .finish)
    {next : Bool → Attempt β} (missing : Reading.skip? kind rest = none)
    (others : Runs reading (next false) rest answer) :
    Runs reading (Cursor.accept tokens kind >>= next) rest answer := by
  refine .behind (.check holds kind ?_) others
  simp only [headD_kind_ne holds other missing, decide_false, Bool.false_eq_true, if_false]
  exact .done false

end Runs

variable {σ : Type}

theorem loop_bind (iteration : σ → Attempt (σ ⊕ α)) (more : Nat) (state : σ)
    (next : α → Attempt β) :
    loop iteration (more + 1) state >>= next = iteration state >>= fun
      | .inl state => loop iteration more state >>= next
      | .inr result => next result := by
  rw [loop, bind_assoc]
  congr 1
  funext result
  cases result with
  | inl state => rfl
  | inr result => exact pure_bind result next

theorem itemIteration_bind (item : Attempt α) (read : List α)
    (next : List α ⊕ List α → Attempt β) :
    itemIteration tokens item read >>= next = item >>= fun value =>
      accept tokens .comma >>= fun more =>
        if more then next (.inl (value :: read)) else next (.inr (value :: read).reverse) := by
  rw [itemIteration, bind_assoc]
  congr 1
  funext value
  rw [bind_assoc]
  congr 1
  funext more
  cases more <;> exact pure_bind _ next

theorem operationIteration_bind (operator? : Token.Kind → Option Operator) (operand : Attempt Expr)
    (left : Expr) (next : Expr ⊕ Expr → Attempt β) :
    operationIteration tokens operator? operand left >>= next = peek tokens >>= fun sign =>
      match operator? sign.kind with
      | none => next (.inr left)
      | some operator => advance tokens >>= fun sign => operand >>= fun right =>
        next (.inl (.operation operator left right sign.position)) := by
  rw [operationIteration, bind_assoc]
  congr 1
  funext sign
  cases operator? sign.kind with
  | none => exact pure_bind _ next
  | some operator =>
    simp only [bind_assoc, pure_bind]

/-- How at least one more item and the `)` are read, after items already read. -/
structure ReadsItems (reader : (tokens : List Token) → Outcome α tokens.length)
    (others : (bound : Nat) → List α → (tokens : List Token) → tokens.length ≤ bound →
      Outcome (List α) bound) : Prop where
  others_eq : ∀ (bound : Nat) (read : List α) (tokens : List Token)
    (within : tokens.length ≤ bound),
    others bound read tokens within = (reader tokens).andThen fun value rest shorter =>
      match Reading.skip? .comma rest with
      | some ⟨rest, fewer⟩ => others bound (value :: read) rest
        (Nat.le_of_lt (Nat.lt_of_lt_of_le (Nat.lt_trans fewer shorter) within))
      | none => (Reading.expect .rightParen rest).andThen fun _ rest fewer =>
        .ok (value :: read).reverse rest (Nat.lt_of_lt_of_le (Nat.lt_trans fewer shorter) within)

theorem items_run (holds : Holds tokens reading) {item : Attempt α}
    {reader : (tokens : List Token) → Outcome α tokens.length}
    {others : (bound : Nat) → List α → (tokens : List Token) → tokens.length ≤ bound →
      Outcome (List α) bound} (reads : ReadsItems reader others)
    (more : Nat) {bound : Nat} (read : List α) (rest : List Token) (within : rest.length ≤ bound)
    (runs : ∀ later : List Token, later.length ≤ rest.length →
      Runs reading item later (reader later).answer) (enough : rest.length < more) :
    Runs reading (loop (itemIteration tokens item) more read >>= fun values =>
        consume tokens .rightParen >>= fun _ => pure values) rest
      (others bound read rest within).answer := by
  induction more generalizing bound read rest with
  | zero => omega
  | succ more further =>
    rw [loop_bind, itemIteration_bind, reads.others_eq]
    refine .andThen (runs rest (Nat.le_refl _)) fun value later shorter => ?_
    cases skipped : Reading.skip? .comma later with
    | none =>
      refine .accept_of_none holds (by decide) skipped ?_
      exact .andThen (.consume holds (by decide) later) fun _ _ _ => .done _
    | some behind =>
      obtain ⟨left, fewer⟩ := behind
      refine .accept_of_some holds skipped ?_
      refine further (value :: read) left _ (fun last fits => runs last (by omega)) (by omega)

theorem closed_items_run (holds : Holds tokens reading) {item : Attempt α}
    {reader : (tokens : List Token) → Outcome α tokens.length}
    {others : (bound : Nat) → List α → (tokens : List Token) → tokens.length ≤ bound →
      Outcome (List α) bound} (reads : ReadsItems reader others)
    {more : Nat} {rest : List Token}
    (runs : ∀ later : List Token, later.length ≤ rest.length →
      Runs reading item later (reader later).answer) (enough : rest.length < more) :
    Runs reading (items tokens item more) rest
      (match Reading.skip? .rightParen rest with
        | some ⟨rest, shorter⟩ => Outcome.ok [] rest shorter
        | none => others rest.length [] rest (Nat.le_refl _)).answer := by
  rw [items]
  refine .check holds .rightParen ?_
  dsimp only
  cases skipped : Reading.skip? .rightParen rest with
  | none =>
    have different := headD_kind_ne holds (by decide) skipped
    simp only [different, decide_false]
    exact items_run holds reads more [] rest _ runs enough
  | some behind =>
    obtain ⟨later, shorter⟩ := behind
    obtain ⟨closer, rfl, same⟩ := Reading.skip?_eq_some skipped
    simp only [List.headD_cons, same, decide_true, if_true, pure_bind]
    exact (Runs.consume_of_kind holds same later).behind (.done [])

theorem operations_run (holds : Holds tokens reading) {room : Allowance}
    {operator? : Token.Kind → Option Operator} (ended : operator? .finish = none)
    {operand : Attempt Expr} {size : Nat}
    {reader : Allowance → (rest : List Token) → rest.length ≤ size → Outcome Expr rest.length}
    (runs : ∀ later fits, Runs reading operand later (reader room later fits).answer)
    (more : Nat) {bound : Nat} (left : Expr) (rest : List Token) (fits : rest.length ≤ size)
    (within : rest.length < bound) (enough : rest.length < more) :
    Runs reading (loop (operationIteration tokens operator? operand) more left) rest
      (Reading.operations operator? reader room left rest fits within).answer := by
  induction more generalizing bound left rest with
  | zero => omega
  | succ more further =>
    rw [loop, operationIteration_bind, Reading.operations.eq_def]
    refine .peek holds ?_
    cases rest with
    | nil =>
      rw [List.headD_nil, holds.ends, ended]
      exact .done left
    | cons sign rest =>
      dsimp only [List.headD_cons]
      cases operator? sign.kind with
      | none => exact .done left
      | some operator =>
        refine .advance holds (.andThen (runs rest _) fun right later shorter => ?_)
        exact further _ later _ _ (by simp at enough; omega)

theorem tierOf_run (holds : Holds tokens reading) {room : Allowance}
    {operator? : Token.Kind → Option Operator} (ended : operator? .finish = none)
    {operand : Attempt Expr} {rest : List Token}
    {reader : Allowance → (later : List Token) → later.length ≤ rest.length →
      Outcome Expr later.length}
    (runs : ∀ later fits, Runs reading operand later (reader room later fits).answer)
    {more : Nat} (enough : rest.length ≤ more) :
    Runs reading (tierOf tokens operator? operand more) rest
      (Reading.tierOf operator? room rest reader).answer := by
  refine .andThen (runs rest _) fun left later shorter => ?_
  exact operations_run holds ended runs more left later _ shorter (by omega)

def widened {bound wider : Nat} (within : bound < wider) (outcome : Outcome α bound) :
    Outcome α wider :=
  outcome.andThen fun value rest shorter => .ok value rest (Nat.lt_trans shorter within)

theorem answer_widened {bound wider : Nat} (within : bound < wider) (outcome : Outcome α bound) :
    (widened within outcome).answer = outcome.answer := by
  cases outcome <;> rfl

theorem widened_andThen {bound middle wider : Nat} (within : middle < wider)
    (outcome : Outcome α bound) (next : (value : α) → (rest : List Token) → rest.length < bound →
      Outcome β middle) : widened within (outcome.andThen next) =
        outcome.andThen fun value rest shorter => widened within (next value rest shorter) := by
  cases outcome <;> rfl

theorem widened_ok {bound wider : Nat} (within : bound < wider) (value : α) (rest : List Token)
    (shorter : rest.length < bound) :
    widened within (.ok value rest shorter) = .ok value rest (Nat.lt_trans shorter within) := rfl

def returning (room : Allowance) (tokens : List Token) : Outcome Expr tokens.length :=
  (Reading.expect .returnWord tokens).andThen fun word rest shorter =>
    if Reading.valueless rest then .ok (.returned none word.position) rest shorter
    else widened shorter <| (Reading.expression room rest).andThen fun value rest fewer =>
      .ok (.returned (some value) word.position) rest fewer

def calling (room : Allowance) (tokens : List Token) : Outcome Expr tokens.length :=
  (Reading.expect .identifier tokens).andThen fun name rest shorter =>
    widened shorter <| (Reading.expect .leftParen rest).andThen fun _ rest shorter =>
      widened shorter <| (Reading.arguments room rest).andThen fun values rest fewer =>
        .ok (.call name.text values name.position) rest fewer

theorem readsItems_arguments (room : Allowance) :
    ReadsItems (fun tokens => Reading.expression room tokens) fun _ => Reading.moreArguments room :=
  ⟨fun _ _ _ _ => Reading.moreArguments.eq_def ..⟩

theorem valueless_iff (holds : Holds tokens reading) {rest : List Token}
    (within : rest <:+ reading.upcoming) :
    (rest.headD reading.finish).kind = .semicolon ∨
      (rest.headD reading.finish).kind = .rightBrace ∨
      (rest.headD reading.finish).kind = .finish ↔ Reading.valueless rest = true := by
  cases rest with
  | nil => simp [Reading.valueless, holds.ends]
  | cons first rest =>
    have inside : first.kind ≠ .finish := holds.plain first (within.subset (by simp))
    simp [Reading.valueless, Reading.nextIs, inside]

mutual

theorem expression_run (holds : Holds tokens reading) : ∀ (calls : Nat) (room : Allowance)
    (rest : List Token), 16 * rest.length + 11 < calls →
      Runs reading (expression tokens calls room) rest (Reading.expression room rest).answer
  | calls + 1, room, rest, enough => by
    rw [expression, Reading.expression]
    refine .deeper holds fun room => .check holds .returnWord ?_
    cases rest with
    | nil =>
      simp only [List.headD_nil, holds.ends]
      exact assignment_run holds calls room [] (by omega)
    | cons word rest =>
      dsimp only [List.headD_cons]
      by_cases isReturn : word.kind = .returnWord
      · have follows := returnExpression_run holds calls room (word :: rest) (by omega)
        rw [returning, Reading.expect_of_kind isReturn, Outcome.andThen_ok] at follows
        simpa only [isReturn, decide_true, if_true, Nesting.andThen_room, Nesting.level_room,
          widened_andThen, widened_ok] using follows
      · simpa only [isReturn, decide_false, Bool.false_eq_true, if_false] using
          assignment_run holds calls room (word :: rest) (by omega)

theorem returnExpression_run (holds : Holds tokens reading) : ∀ (calls : Nat) (room : Allowance)
    (rest : List Token), 16 * rest.length + 10 < calls →
      Runs reading (returnExpression tokens calls room) rest (returning room rest).answer
  | calls + 1, room, rest, enough => by
    rw [returnExpression, returning]
    refine .andThen (.consume holds (by decide) rest) fun word later shorter => ?_
    refine .peek holds (.knowing fun within => ?_)
    rw [ite_cond_congr (propext (valueless_iff holds within))]
    split
    · exact .done _
    · rw [answer_widened]
      exact .andThen (expression_run holds calls room later (by omega)) fun _ _ _ => .done _

theorem assignment_run (holds : Holds tokens reading) : ∀ (calls : Nat) (room : Allowance)
    (rest : List Token), 16 * rest.length + 10 < calls →
      Runs reading (assignment tokens calls room) rest (Reading.assignment room rest).answer
  | calls + 1, room, rest, enough => by
    rw [assignment, Reading.assignment]
    refine .andThen (logicOr_run holds calls room rest (by omega)) fun target later shorter =>
      .check holds .equal ?_
    cases later with
    | nil =>
      simp only [List.headD_nil, holds.ends]
      exact .done target
    | cons sign later =>
      dsimp only [List.headD_cons]
      by_cases isEqual : sign.kind = .equal
      · simp only [isEqual, decide_true, if_true]
        refine .advance holds ?_
        cases target with
        | ident name position =>
          refine .deeper holds fun room => ?_
          exact .andThen (assignment_run holds calls room later (by simp at shorter; omega))
            fun _ _ _ => .done _
        | _ => exact .fail rfl
      · simp only [isEqual, decide_false, Bool.false_eq_true, if_false]
        exact .done target

theorem logicOr_run (holds : Holds tokens reading) : ∀ (calls : Nat) (room : Allowance)
    (rest : List Token), 16 * rest.length + 8 < calls →
      Runs reading (logicOr tokens calls room) rest (Reading.logicOr room rest).answer
  | calls + 1, room, rest, enough => by
    rw [logicOr, Reading.logicOr]
    exact tierOf_run holds rfl (fun later _ => logicAnd_run holds calls room later (by omega))
      (by omega)

theorem logicAnd_run (holds : Holds tokens reading) : ∀ (calls : Nat) (room : Allowance)
    (rest : List Token), 16 * rest.length + 7 < calls →
      Runs reading (logicAnd tokens calls room) rest (Reading.logicAnd room rest).answer
  | calls + 1, room, rest, enough => by
    rw [logicAnd, Reading.logicAnd]
    exact tierOf_run holds rfl (fun later _ => equality_run holds calls room later (by omega))
      (by omega)

theorem equality_run (holds : Holds tokens reading) : ∀ (calls : Nat) (room : Allowance)
    (rest : List Token), 16 * rest.length + 6 < calls →
      Runs reading (equality tokens calls room) rest (Reading.equality room rest).answer
  | calls + 1, room, rest, enough => by
    rw [equality, Reading.equality]
    exact tierOf_run holds rfl (fun later _ => term_run holds calls room later (by omega))
      (by omega)

theorem term_run (holds : Holds tokens reading) : ∀ (calls : Nat) (room : Allowance)
    (rest : List Token), 16 * rest.length + 5 < calls →
      Runs reading (term tokens calls room) rest (Reading.term room rest).answer
  | calls + 1, room, rest, enough => by
    rw [term, Reading.term]
    exact tierOf_run holds rfl (fun later _ => factor_run holds calls room later (by omega))
      (by omega)

theorem factor_run (holds : Holds tokens reading) : ∀ (calls : Nat) (room : Allowance)
    (rest : List Token), 16 * rest.length + 4 < calls →
      Runs reading (factor tokens calls room) rest (Reading.factor room rest).answer
  | calls + 1, room, rest, enough => by
    rw [factor, Reading.factor]
    exact tierOf_run holds rfl (fun later _ => unary_run holds calls room later (by omega))
      (by omega)

theorem unary_run (holds : Holds tokens reading) : ∀ (calls : Nat) (room : Allowance)
    (rest : List Token), 16 * rest.length + 3 < calls →
      Runs reading (unary tokens calls room) rest (Reading.unary room rest).answer
  | calls + 1, room, rest, enough => by
    rw [unary, Reading.unary.eq_def]
    refine .peek holds ?_
    cases rest with
    | nil =>
      have missing : UnaryOp.ofKind? reading.finish.kind = none := by rw [holds.ends]; rfl
      rw [List.headD_nil, missing]
      exact operand_run holds calls room [] (by omega)
    | cons sign rest =>
      dsimp only [List.headD_cons]
      cases UnaryOp.ofKind? sign.kind with
      | none => exact operand_run holds calls room (sign :: rest) (by omega)
      | some operator =>
        refine .advance holds (.deeper holds fun room => ?_)
        exact .andThen (unary_run holds calls room rest (by simp at enough; omega))
          fun _ _ _ => .done _

theorem operand_run (holds : Holds tokens reading) : ∀ (calls : Nat) (room : Allowance)
    (rest : List Token), 16 * rest.length + 2 < calls →
      Runs reading (operand tokens calls room) rest (Reading.operand room rest).answer
  | calls + 1, room, rest, enough => by
    rw [operand, Reading.operand]
    refine .andThen (primary_run holds calls room rest (by omega)) fun value later shorter =>
      .peek holds ?_
    cases later with
    | nil =>
      have missing : UnaryOp.step? reading.finish.kind = none := by rw [holds.ends]; rfl
      rw [List.headD_nil, missing]
      exact .done value
    | cons sign later =>
      dsimp only [List.headD_cons]
      cases UnaryOp.step? sign.kind with
      | none => exact .done value
      | some operator =>
        refine .advance holds ?_
        cases value with
        | ident name position => exact .done _
        | _ => exact .fail rfl

theorem primary_run (holds : Holds tokens reading) : ∀ (calls : Nat) (room : Allowance)
    (rest : List Token), 16 * rest.length + 1 < calls →
      Runs reading (primary tokens calls room) rest (Reading.primary room rest).answer
  | calls + 1, room, rest, enough => by
    rw [primary, Reading.primary.eq_def]
    refine .peek holds ?_
    cases rest with
    | nil =>
      simp only [List.headD_nil, holds.ends]
      exact .fail rfl
    | cons first rest =>
      rw [List.headD_cons]
      dsimp only
      by_cases isLiteral : first.kind.isLiteral
      · rw [if_pos isLiteral, if_pos isLiteral]
        exact .advance holds (.done _)
      rw [if_neg isLiteral, if_neg isLiteral]
      by_cases isName : first.kind = .identifier
      · rw [if_pos isName, if_pos isName]
        refine .peekNext holds ?_
        cases opened : Reading.skip? .leftParen rest with
        | none =>
          rw [if_neg (headD_kind_ne holds (by decide) opened)]
          exact .advance holds (.done _)
        | some behind =>
          obtain ⟨later, shorter⟩ := behind
          obtain ⟨opener, rfl, isOpen⟩ := Reading.skip?_eq_some opened
          have follows := call_run holds calls room (first :: opener :: later) (by omega)
          simp only [calling, Reading.expect_of_kind isName, Reading.expect_of_kind isOpen,
            Outcome.andThen_ok, widened_andThen, widened_ok] at follows
          rw [List.headD_cons, if_pos isOpen]
          exact follows
      rw [if_neg isName, if_neg isName]
      by_cases isOpen : first.kind = .leftParen
      · rw [if_pos isOpen, if_pos isOpen]
        refine .advance holds ?_
        refine .andThen (expression_run holds calls room rest (by simp at enough; omega))
          fun inner later shorter => ?_
        exact .andThen (.consume holds (by decide) later) fun _ _ _ => .done _
      · rw [if_neg isOpen, if_neg isOpen]
        exact .fail rfl

theorem call_run (holds : Holds tokens reading) : ∀ (calls : Nat) (room : Allowance)
    (rest : List Token), 16 * rest.length < calls →
      Runs reading (call tokens calls room) rest (calling room rest).answer
  | calls + 1, room, rest, enough => by
    rw [call, calling]
    refine .andThen (.consume holds (by decide) rest) fun name later shorter => ?_
    rw [answer_widened]
    refine .andThen (.consume holds (by decide) later) fun opener last fewer => ?_
    rw [answer_widened]
    refine .andThen ?_ fun _ _ _ => .done _
    rw [Reading.arguments]
    exact closed_items_run holds (readsItems_arguments room)
      (fun later fits => expression_run holds calls room later (by omega)) (by omega)

end

end

end Cursor

end YalSyntax
