import YalSyntax.Proofs.Dispatch

namespace YalSyntax

namespace Lexer

section

variable {lexer later : Lexer} {text more : List Char} {c : Char}

def rest (lexer : Lexer) : List Char := lexer.source.drop lexer.cursor

def forward (lexer : Lexer) (text : List Char) : Lexer :=
  { lexer with cursor := lexer.cursor + text.length, position := lexer.position.after text }

theorem length_rest (lexer : Lexer) : lexer.rest.length = lexer.remaining := List.length_drop

theorem current?_eq (lexer : Lexer) : lexer.current? = lexer.rest.head? := List.head?_drop.symm

theorem next?_eq (lexer : Lexer) : lexer.next? = lexer.rest.tail.head? := by
  rw [next?, rest, List.tail_drop, List.head?_drop]

theorem rest_forward (left : lexer.rest = text ++ more) : (lexer.forward text).rest = more := by
  have behind := congrArg (List.drop text.length) left
  rw [rest, List.drop_drop, List.drop_left] at behind
  exact behind

theorem forward_forward (lexer : Lexer) (first second : List Char) :
    (lexer.forward first).forward second = lexer.forward (first ++ second) := by
  simp only [forward, Position.after_append, List.length_append, Nat.add_assoc]

theorem advance_of_nil (left : lexer.rest = []) : lexer.advance = lexer := by
  rw [advance, current?_eq, left]
  rfl

theorem advance_of_cons (left : lexer.rest = c :: more) : lexer.advance = lexer.forward [c] := by
  rw [advance, current?_eq, left]
  rfl

def taken (goesOn : Char → Option Char → Bool) : List Char → List Char
  | [] => []
  | c :: text => if goesOn c text.head? then c :: taken goesOn text else []

theorem taken_prefix (goesOn : Char → Option Char → Bool) (text : List Char) :
    taken goesOn text <+: text := by
  induction text with
  | nil => exact List.prefix_refl []
  | cons c text further =>
    rw [taken]
    split
    · exact List.cons_prefix_cons.mpr ⟨rfl, further⟩
    · exact List.nil_prefix

theorem skipWhile_eq (goesOn : Char → Option Char → Bool) (lexer : Lexer) :
    lexer.skipWhile goesOn =
      ((taken goesOn lexer.rest).length, lexer.forward (taken goesOn lexer.rest)) := by
  fun_induction skipWhile goesOn lexer with
  | case1 lexer found =>
    rw [current?_eq, List.head?_eq_none_iff] at found
    rw [found]
    rfl
  | case2 lexer c found goes count later skipped further =>
    rw [current?_eq] at found
    obtain ⟨text, left⟩ := List.head?_eq_some_iff.mp found
    obtain ⟨rfl, rfl⟩ := Prod.mk.inj (skipped.symm.trans further)
    rw [next?_eq, left, List.tail_cons] at goes
    rw [advance_of_cons left, rest_forward (show _ = [c] ++ text from left), left, taken,
      if_pos goes, forward_forward]
    rfl
  | case3 lexer c found stops =>
    rw [current?_eq] at found
    obtain ⟨text, left⟩ := List.head?_eq_some_iff.mp found
    rw [next?_eq, left, List.tail_cons] at stops
    rw [left, taken, if_neg stops]
    rfl

def Onward (lexer later : Lexer) : Prop := ∃ text, text <+: lexer.rest ∧ later = lexer.forward text

theorem Onward.refl (lexer : Lexer) : Onward lexer lexer := ⟨[], List.nil_prefix, rfl⟩

theorem Onward.trans {last : Lexer} (first : Onward lexer later) (second : Onward later last) :
    Onward lexer last := by
  obtain ⟨text, ⟨more, left⟩, rfl⟩ := first
  obtain ⟨text', ⟨more', left'⟩, rfl⟩ := second
  rw [rest_forward left.symm] at left'
  refine ⟨text ++ text', ⟨more', ?_⟩, forward_forward lexer text text'⟩
  rw [List.append_assoc, left', left]

theorem Onward.advance (lexer : Lexer) : Onward lexer lexer.advance := by
  cases left : lexer.rest with
  | nil =>
    rw [advance_of_nil left]
    exact .refl lexer
  | cons c more =>
    rw [advance_of_cons left]
    exact ⟨[c], by simp [left], rfl⟩

theorem Onward.skipWhile (goesOn : Char → Option Char → Bool) (lexer : Lexer) :
    Onward lexer (lexer.skipWhile goesOn).2 := by
  rw [skipWhile_eq]
  exact ⟨_, taken_prefix goesOn lexer.rest, rfl⟩

theorem Onward.skipNumber (base : Base) (lexer : Lexer) :
    Onward lexer (lexer.skipNumber base).2 := by
  have whole := Onward.skipWhile (fun c _ => base.isDigit c) lexer
  unfold Lexer.skipNumber
  dsimp only
  split
  · apply whole.trans
    apply (Onward.advance _).trans
    exact .skipWhile _ _
  · exact whole

/-- The states that stand for a lexeme whose first character is taken. -/
def State.Reads : State → Prop
  | start | endOfInput | finished => False
  | _ => True

def State.OpensWith (state : State) (c : Char) : Prop :=
  match state with
  | operator first => first = c ∧ ∃ kind, Token.Kind.ofChar? c = some kind
  | quoted => c = '"'
  | basedNumber => c = '0'
  | punctuation _ | whitespace | decimal | word => True
  | start | lineComment | blockComment | endOfInput | finished => False

theorem State.opensWith_of_ofChar? {state : State} (known : State.ofChar? c = some state) :
    state.OpensWith c := by
  unfold State.ofChar? at known
  split at known
  all_goals try (cases known; first | exact ⟨rfl, _, rfl⟩ | rfl | trivial)
  split at known
  · cases known
    trivial
  · split at known <;> cases known
    trivial

theorem State.OpensWith.reads {state : State} (opens : state.OpensWith c) : state.Reads := by
  cases state <;> trivial

end

inductive Moves : State → Lexer → Turn → Prop
  | opens {lexer : Lexer} {c : Char} {more : List Char} {state : State}
      (left : lexer.rest = c :: more) (reads : state.Reads) :
      Moves .start lexer (.goes state (lexer.mark.forward [c]))
  | refuses {lexer : Lexer} {c : Char} {more : List Char} {error : LexError}
      (left : lexer.rest = c :: more) : Moves .start lexer (.fails error (lexer.mark.forward [c]))
  | ends {lexer : Lexer} (left : lexer.rest = []) :
      Moves .start lexer (.goes .endOfInput lexer.mark)
  | comments {state next : State} {lexer : Lexer} {c : Char} {more : List Char}
      (reads : state.Reads) (reads' : next.Reads) (left : lexer.rest = c :: more) :
      Moves state lexer (.goes next (lexer.forward [c]))
  | skips {state : State} {lexer later : Lexer} (reads : state.Reads)
      (onward : Onward lexer later) : Moves state lexer (.goes .start later)
  | takes {state : State} {lexer later : Lexer} {kind : Token.Kind} {text : String}
      (reads : state.Reads) (onward : Onward lexer later) :
      Moves state lexer (.goes .start (later.push kind text))
  | fails {state : State} {lexer later : Lexer} {error : LexError} (reads : state.Reads)
      (onward : Onward lexer later) : Moves state lexer (.fails error later)
  | finishes {lexer : Lexer} {text : String} :
      Moves .endOfInput lexer (.goes .finished (lexer.push .finish text))
  | rests {lexer : Lexer} : Moves .finished lexer (.goes .finished lexer)
  | outside {state : State} {lexer later : Lexer} (onward : Onward lexer later)
      (none : later.lexeme? = none) : Moves state lexer (.outside later)

variable {lexer later : Lexer}

theorem Moves.cut {state : State} {use : String → Turn} (onward : Onward lexer later)
    (moves : ∀ text, Moves state lexer (use text)) : Moves state lexer (later.cut use) := by
  unfold Lexer.cut
  split
  · rename_i none
    exact .outside onward none
  · exact moves _

theorem Moves.emit {state : State} {kind : Token.Kind} (reads : state.Reads)
    (onward : Onward lexer later) : Moves state lexer (later.emit kind .start) :=
  .cut onward fun _ => .takes reads onward

theorem classify_moves (lexer : Lexer) : Moves .start lexer lexer.classify := by
  have same : lexer.mark.rest = lexer.rest := rfl
  unfold classify
  dsimp only
  rw [current?_eq]
  cases left : lexer.rest with
  | nil =>
    rw [left] at same
    rw [same, advance_of_nil same]
    exact .ends left
  | cons c more =>
    rw [left] at same
    rw [same, advance_of_cons same]
    dsimp only [List.head?_cons]
    split
    · rename_i state known
      exact .opens left (State.opensWith_of_ofChar? known).reads
    · exact .refuses left

theorem readOperator_moves (first : Char) (lexer : Lexer) :
    Moves (.operator first) lexer (lexer.readOperator first) := by
  unfold readOperator
  dsimp only
  rw [current?_eq]
  cases left : lexer.rest with
  | nil => exact .emit trivial (.refl lexer)
  | cons second more =>
    have taken := advance_of_cons left
    dsimp only [List.head?_cons]
    split
    · rw [taken]
      exact .comments trivial trivial left
    · split
      · rw [taken]
        exact .comments trivial trivial left
      · split
        · exact .emit trivial (.advance lexer)
        · exact .emit trivial (.refl lexer)

theorem readDigits_moves (base : Base) (marked : Bool) {start : Lexer}
    (onward : Onward start lexer) : Moves .basedNumber start (lexer.readDigits base marked) := by
  have number := onward.trans (Onward.skipNumber base lexer)
  have behind := number.trans (.skipWhile (fun c _ => isWordChar c) _)
  unfold readDigits
  dsimp only
  split
  · exact .cut behind fun _ => .fails trivial behind
  · exact .emit trivial behind

theorem step_moves (state : State) (lexer : Lexer) : Moves state lexer (step state lexer) := by
  cases state with
  | start => exact classify_moves lexer
  | punctuation kind => exact .emit trivial (.refl lexer)
  | operator first => exact readOperator_moves first lexer
  | whitespace => exact .skips trivial (.refl lexer)
  | quoted =>
    have onward := Onward.skipWhile (fun c _ => c ≠ '"') lexer
    simp only [step, readQuoted]
    split
    · exact .fails trivial onward
    · exact .emit trivial (onward.trans (.advance _))
  | basedNumber =>
    simp only [step, readBasedNumber]
    split
    · exact readDigits_moves _ true (.advance lexer)
    · exact readDigits_moves .octal false (.refl lexer)
  | decimal => exact .emit trivial (.skipNumber .decimal lexer)
  | word =>
    have onward := Onward.skipWhile (fun c _ => isWordChar c) lexer
    exact .cut onward fun _ => .takes trivial onward
  | lineComment => exact .skips trivial (.skipWhile _ lexer)
  | blockComment =>
    have onward := Onward.skipWhile inComment lexer
    simp only [step, skipBlockComment]
    split
    · exact .fails trivial onward
    · exact .skips trivial (onward.trans ((Onward.advance _).trans (.advance _)))
  | endOfInput => exact .cut (.refl lexer) fun _ => .finishes
  | finished => exact .rests

@[simp] theorem remaining_mark (lexer : Lexer) : lexer.mark.remaining = lexer.remaining := rfl

@[simp] theorem remaining_push (lexer : Lexer) (kind : Token.Kind) (text : String) :
    (lexer.push kind text).remaining = lexer.remaining := rfl

theorem remaining_forward {c : Char} {more : List Char} (left : lexer.rest = c :: more) :
    (lexer.forward [c]).remaining + 1 = lexer.remaining := by
  rw [← length_rest, ← length_rest, rest_forward (show _ = [c] ++ more from left), left,
    List.length_cons]

theorem Onward.remaining_le (onward : Onward lexer later) : later.remaining ≤ lexer.remaining := by
  obtain ⟨text, -, rfl⟩ := onward
  simp only [forward, remaining]
  omega

/-- How many steps a state asks for when no character is left. -/
def State.steps : State → Nat
  | finished => 0
  | endOfInput => 1
  | start => 2
  | _ => 3

def State.tokens : State → Nat
  | finished => 0
  | endOfInput | start => 1
  | _ => 2

theorem State.Reads.steps_eq {state : State} (reads : state.Reads) : state.steps = 3 := by
  cases state <;> first | rfl | cases reads

theorem State.Reads.tokens_eq {state : State} (reads : state.Reads) : state.tokens = 2 := by
  cases state <;> first | rfl | cases reads

/-- How many steps there may be from a state on, two for every character that is left. -/
def stepsFrom (state : State) (lexer : Lexer) : Nat := 2 * lexer.remaining + state.steps

/-- How many tokens there may be from a state on, one for every character that is left. -/
def tokensFrom (state : State) (lexer : Lexer) : Nat := lexer.remaining + state.tokens

/-- A step leaves fewer steps to come, and no more tokens than there were with the one it may have
collected. -/
theorem Moves.accounts {state next : State} (moves : Moves state lexer (.goes next later))
    (running : state ≠ .finished) : stepsFrom next later < stepsFrom state lexer ∧
      ∃ added, later.tokens = lexer.tokens ++ added ∧
        added.length + tokensFrom next later ≤ tokensFrom state lexer := by
  have same : lexer.tokens = lexer.tokens ++ [] := (List.append_nil _).symm
  unfold stepsFrom tokensFrom
  -- A step that takes nothing leads to a state of a lower count. The step that opens a lexeme raises
  -- the count by one, but of the two for the character that it takes one is left over.
  cases moves with
  | @opens _ c more _ left reads =>
    have taken := remaining_forward (show lexer.mark.rest = _ from left)
    rw [remaining_mark] at taken
    rw [reads.steps_eq, reads.tokens_eq, State.steps, State.tokens]
    exact ⟨by omega, [], same, by simp only [List.length_nil]; omega⟩
  | ends left =>
    rw [remaining_mark]
    exact ⟨Nat.lt_succ_self _, [], same, Nat.le_of_eq (Nat.zero_add _)⟩
  | comments reads reads' left =>
    have taken := remaining_forward left
    rw [reads.steps_eq, reads'.steps_eq, reads.tokens_eq, reads'.tokens_eq]
    exact ⟨by omega, [], same, by simp only [List.length_nil]; omega⟩
  | skips reads onward =>
    have fewer := onward.remaining_le
    obtain ⟨text, -, rfl⟩ := onward
    rw [reads.steps_eq, reads.tokens_eq, State.steps, State.tokens]
    exact ⟨by omega, [], same, by simp only [List.length_nil]; omega⟩
  | takes reads onward =>
    have fewer := onward.remaining_le
    obtain ⟨text, -, rfl⟩ := onward
    rw [remaining_push, reads.steps_eq, reads.tokens_eq, State.steps, State.tokens]
    exact ⟨by omega, _, rfl, by simp only [List.length_singleton]; omega⟩
  | finishes =>
    rw [remaining_push]
    exact ⟨Nat.lt_succ_self _, _, rfl, Nat.le_of_eq (Nat.add_comm _ _)⟩
  | rests => exact absurd rfl running

theorem Moves.tokens_of_fails {state : State} {error : LexError}
    (moves : Moves state lexer (.fails error later)) : later.tokens = lexer.tokens := by
  cases moves with
  | refuses => rfl
  | fails _ onward =>
    obtain ⟨text, -, rfl⟩ := onward
    rfl

/-- The lexeme under way starts no further on than the cursor, and the cursor stands in the
source. -/
structure Inside (lexer : Lexer) : Prop where
  start : lexer.start ≤ lexer.cursor
  cursor : lexer.cursor ≤ lexer.source.length

structure Leads (lexer later : Lexer) : Prop where
  source : later.source = lexer.source
  onward : lexer.cursor ≤ later.cursor
  inside : Inside later

theorem Inside.leads (inside : Inside lexer) : Leads lexer lexer := ⟨rfl, Nat.le_refl _, inside⟩

theorem Leads.trans {last : Lexer} (first : Leads lexer later) (second : Leads later last) :
    Leads lexer last :=
  ⟨second.source.trans first.source, Nat.le_trans first.onward second.onward, second.inside⟩

theorem Onward.leads (onward : Onward lexer later) (inside : Inside lexer) : Leads lexer later := by
  obtain ⟨text, opens, rfl⟩ := onward
  have within := opens.length_le
  have first := inside.start
  have last := inside.cursor
  rw [length_rest, remaining] at within
  refine ⟨rfl, Nat.le_add_right _ _, ?_, ?_⟩
  all_goals
    simp only [forward]
    omega

theorem Onward.of_cons {c : Char} {more : List Char} (left : lexer.rest = c :: more) :
    Onward lexer (lexer.forward [c]) := ⟨[c], ⟨more, left.symm⟩, rfl⟩

theorem Inside.mark (inside : Inside lexer) : Leads lexer lexer.mark :=
  ⟨rfl, Nat.le_refl _, Nat.le_refl _, inside.cursor⟩

theorem Inside.leads_front {front more : List Char} (inside : Inside lexer)
    (left : lexer.rest = front ++ more) : Leads lexer (lexer.mark.forward front) := by
  have opens : front <+: lexer.mark.rest := ⟨more, left.symm⟩
  have onward : Onward lexer.mark (lexer.mark.forward front) := ⟨front, opens, rfl⟩
  exact inside.mark.trans (onward.leads inside.mark.inside)

theorem Inside.lexeme?_eq (inside : Inside lexer) : lexer.lexeme? =
    some (String.ofList ((lexer.source.drop lexer.start).take (lexer.cursor - lexer.start))) :=
  if_pos ⟨inside.start, inside.cursor⟩

def Turn.reached : Turn → Lexer
  | goes _ lexer | fails _ lexer | outside lexer => lexer

theorem Moves.leads {state : State} {turn : Turn} (moves : Moves state lexer turn)
    (inside : Inside lexer) : Leads lexer turn.reached ∧ ∀ later, turn ≠ .outside later := by
  cases moves with
  | @opens _ c more _ left =>
    exact ⟨inside.leads_front (show _ = [c] ++ more from left), by simp⟩
  | @refuses _ c more _ left =>
    exact ⟨inside.leads_front (show _ = [c] ++ more from left), by simp⟩
  | ends => exact ⟨inside.mark, by simp⟩
  | comments _ _ left => exact ⟨(Onward.of_cons left).leads inside, by simp⟩
  | skips _ onward => exact ⟨onward.leads inside, by simp⟩
  | takes _ onward =>
    obtain ⟨source, onward, inside⟩ := onward.leads inside
    exact ⟨⟨source, onward, inside.start, inside.cursor⟩, by simp⟩
  | fails _ onward => exact ⟨onward.leads inside, by simp⟩
  | finishes => exact ⟨⟨rfl, Nat.le_refl _, inside.start, inside.cursor⟩, by simp⟩
  | rests => exact ⟨inside.leads, by simp⟩
  | outside onward none =>
    rw [(onward.leads inside).inside.lexeme?_eq] at none
    cases none

end Lexer

end YalSyntax
