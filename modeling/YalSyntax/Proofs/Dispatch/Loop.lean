import YalSyntax.Proofs.Dispatch.Lexeme

namespace YalSyntax

namespace Lexer

/-- What a call comes to: its answer, unless a text was to be cut out that is no part of the source,
the lexer that it leaves, and each state that it ran with the lexer that the state found. -/
structure Call where
  answer : Option (Except LexError (List Token))
  lexer : Lexer
  trace : List (State × Lexer)
deriving Repr

theorem stepsFrom_lt {state next : State} {lexer later : Lexer} (running : state ≠ .finished)
    (goes : step state lexer = .goes next later) : stepsFrom next later < stepsFrom state lexer :=
  ((goes ▸ step_moves state lexer).accounts running).1

/-- Run one state after the other until a step fails or the loop is finished. At the end the tokens
are handed over. -/
def run (state : State) (lexer : Lexer) : Call :=
  if _ : state = .finished then
    ⟨some (.ok lexer.tokens), { lexer with tokens := [] }, []⟩
  else
    match _ : step state lexer with
    | .goes next later =>
      let call := run next later
      { call with trace := (state, lexer) :: call.trace }
    | .fails error later => ⟨some (.error error), later, [(state, lexer)]⟩
    | .outside later => ⟨none, later, [(state, lexer)]⟩
termination_by stepsFrom state lexer
decreasing_by exact stepsFrom_lt ‹_› ‹_›

def tokenize (lexer : Lexer) : Call := lexer.run .start

def scan (lexer : Lexer) : Scan := ⟨lexer.position, lexer.rest, lexer.tokens.reverse⟩

/-- The answer of a call and the scan that it leaves. -/
def Call.told (call : Call) : Option (Except LexError (List Token)) × Scan :=
  (call.answer, call.lexer.scan)

def Turn.told : Turn → Option (Except LexError (List Token)) × Scan
  | goes next later => (run next later).told
  | fails error later => (some (.error error), later.scan)
  | outside later => (none, later.scan)

theorem told_run (state : State) (lexer : Lexer) :
    (run state lexer).told = (step state lexer).told := by
  by_cases finished : state = .finished
  · rw [finished]
    rfl
  · rw [run, dif_neg finished]
    split <;> rename_i came <;> rw [came] <;> rfl

variable {lexer : Lexer} {text : List Char} {c : Char}

theorem told_operator {kind : Token.Kind} (inside : Inside lexer) (left : lexer.rest = [c] ++ text)
    (known : Token.Kind.ofChar? c = some kind) :
    (run (.operator c) (lexer.mark.forward [c])).told =
      (lexer.turnOf (Lexeme.mark c text)).told := by
  have alone : ∀ text, Lexeme.single c text = ⟨.token kind, [c], text⟩ := by
    intro text
    rw [Lexeme.single, known]
  rw [told_run, step, readOperator, known, current?_first left, Option.getD_some]
  unfold Lexeme.mark
  cases text with
  | nil =>
    rw [alone]
    exact congrArg Turn.told (emit_first inside left kind [])
  | cons d rest =>
    have both : lexer.rest = [c, d] ++ rest := left
    dsimp only [List.head?_cons]
    rw [advance_first left, List.singleton_append]
    split
    · rename_i line
      obtain ⟨rfl, rfl⟩ := line
      exact (told_run _ _).trans (congrArg Turn.told (skipLineComment_eq both))
    split
    · rename_i block
      obtain ⟨rfl, rfl⟩ := block
      exact (told_run _ _).trans (congrArg Turn.told (skipBlockComment_eq both))
    · cases Token.Kind.ofPair? c d with
      | none =>
        rw [alone]
        exact congrArg Turn.told (emit_first inside left kind _)
      | some pair => exact congrArg Turn.told (emit_first inside both pair rest)

theorem told_state {state : State} (inside : Inside lexer) (left : lexer.rest = [c] ++ text)
    (opens : state.OpensWith c) : (run state (lexer.mark.forward [c])).told =
      (lexer.turnOf (state.lexeme c text)).told := by
  cases state with
  | operator first =>
    obtain ⟨rfl, kind, known⟩ := opens
    exact told_operator inside left known
  | punctuation kind => exact (told_run _ _).trans (congrArg _ (emit_first inside left kind text))
  | whitespace => exact told_run _ _
  | quoted =>
    cases opens
    exact (told_run _ _).trans (congrArg _ (readQuoted_eq inside left))
  | basedNumber =>
    cases opens
    exact (told_run _ _).trans (congrArg _ (readBasedNumber_eq inside left))
  | decimal => exact (told_run _ _).trans (congrArg _ (readDecimal_eq inside left))
  | word => exact (told_run _ _).trans (congrArg _ (readWord_eq inside left))
  | start | lineComment | blockComment | endOfInput | finished => cases opens

theorem told_first (inside : Inside lexer) (left : lexer.rest = c :: text) :
    lexer.tokenize.told = (lexer.turnOf (Lexeme.first c text)).told := by
  have marked : lexer.mark.rest = c :: text := left
  rw [tokenize, told_run, step, classify, current?_eq, marked, advance_of_cons marked,
    List.head?_cons, first_eq]
  dsimp only
  cases known : State.ofChar? c with
  | some state => exact told_state inside left (State.opensWith_of_ofChar? known)
  | none => rfl

theorem told_last (inside : Inside lexer) (left : lexer.rest = []) : lexer.tokenize.told =
    (some (.ok (lexer.tokens ++ [Token.finishAt lexer.position])), ⟨lexer.position, [], []⟩) := by
  have marked : lexer.mark.rest = [] := left
  have whole : lexer.rest = [] ++ [] := left
  have ended : lexer.mark.emit .finish .finished = .goes .finished (lexer.mark.push .finish "") :=
    cut_first inside whole _
  rw [tokenize, told_run, step, classify, current?_eq, marked, advance_of_nil marked,
    List.head?_nil]
  dsimp only [Turn.told]
  rw [told_run, step, ended, Turn.told, run, dif_pos rfl, ← left]
  rfl

theorem scan_front {front : List Char} (left : lexer.rest = front ++ text) :
    (lexer.mark.forward front).scan =
      ⟨lexer.position.after front, text, lexer.tokens.reverse⟩ := by
  rw [scan, rest_first left]
  rfl

theorem scan_push (lexer : Lexer) (kind : Token.Kind) (text : String) : (lexer.push kind text).scan =
    ⟨lexer.position, lexer.rest, ⟨kind, text, lexer.startPosition⟩ :: lexer.tokens.reverse⟩ := by
  rw [scan, push, List.reverse_append]
  rfl

theorem told_tokenize (inside : Inside lexer) :
    lexer.tokenize.told = (some lexer.scan.run.1, lexer.scan.run.2) := by
  generalize same : lexer.scan = scan
  -- By the lexemes of the scan and not by the steps of the loop: from one start state to the next
  -- there are two steps, or three for a comment.
  fun_induction Scan.run scan generalizing lexer with
  | case1 position collected =>
    obtain ⟨rfl, left, rfl⟩ := Scan.mk.inj same
    rw [told_last inside left, List.reverse_cons, List.reverse_reverse]
  | case2 position c text collected lexeme after space =>
    rename_i further
    obtain ⟨rfl, left, rfl⟩ := Scan.mk.inj same
    have whole := left.trans (Lexeme.first_append c text).symm
    have within := (inside.leads_front whole).inside
    rw [told_first inside left, turnOf, space]
    exact further within (scan_front whole)
  | case3 position c text collected lexeme after kind token =>
    rename_i further
    obtain ⟨rfl, left, rfl⟩ := Scan.mk.inj same
    have whole := left.trans (Lexeme.first_append c text).symm
    have within := (inside.leads_front whole).inside
    have pushed : Inside ((lexer.mark.forward lexeme.text).push kind (String.ofList lexeme.text)) :=
      ⟨within.start, within.cursor⟩
    rw [told_first inside left, turnOf, token]
    apply further pushed
    rw [scan_push, rest_first whole]
    rfl
  | case4 position c text collected lexeme after flaw =>
    rename_i found
    obtain ⟨rfl, left, rfl⟩ := Scan.mk.inj same
    have whole := left.trans (Lexeme.first_append c text).symm
    rw [told_first inside left, turnOf, found]
    exact congrArg (Prod.mk _) (scan_front whole)

end Lexer

end YalSyntax
