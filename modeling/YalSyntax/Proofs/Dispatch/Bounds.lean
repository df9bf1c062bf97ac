import YalSyntax.Proofs.Dispatch.Loop
import YalSyntax.Proofs.Lexical.Resumption

namespace YalSyntax

namespace Lexer

/-- The lexers that a call passes, from the one that it finds to the one that it leaves. -/
def Call.lexers (call : Call) : List Lexer := call.trace.map Prod.snd ++ [call.lexer]

def Call.tokens (call : Call) : List Token :=
  match call.answer with
  | some (.ok tokens) => tokens
  | _ => call.lexer.tokens

/-- A call that takes so many steps at most, adds so many tokens at most, does not leave the source
or go back in it, and cuts nothing out that is no part of it. -/
structure Orderly (steps tokens : Nat) (lexer : Lexer) (call : Call) : Prop where
  steps : call.trace.length ≤ steps
  tokens : ∃ added, call.tokens = lexer.tokens ++ added ∧ added.length ≤ tokens
  inside : ∀ passed ∈ call.lexers, Leads lexer passed
  onward : call.lexers.Pairwise fun earlier later => earlier.cursor ≤ later.cursor
  answers : call.answer ≠ none

variable {lexer later : Lexer} {state next : State}

theorem Orderly.goes {call : Call} {steps steps' tokens tokens' : Nat} {added : List Token}
    (orderly : Orderly steps tokens later call) (inside : Inside lexer) (leads : Leads lexer later)
    (fewer : steps < steps') (adds : later.tokens = lexer.tokens ++ added)
    (within : added.length + tokens ≤ tokens') :
    Orderly steps' tokens' lexer { call with trace := (state, lexer) :: call.trace } := by
  obtain ⟨more, same, bound⟩ := orderly.tokens
  have passes : ∀ passed ∈ call.lexers, Leads lexer passed := fun passed member =>
    leads.trans (orderly.inside passed member)
  refine ⟨?_, ⟨added ++ more, ?_, ?_⟩, ?_, ?_, orderly.answers⟩
  · have bound := orderly.steps
    rw [List.length_cons]
    omega
  · rw [← List.append_assoc, ← adds]
    exact same
  · rw [List.length_append]
    omega
  · intro passed member
    rcases List.mem_cons.mp member with rfl | member
    · exact inside.leads
    · exact passes passed member
  · apply List.Pairwise.cons
    · intro passed member
      exact (passes passed member).onward
    · exact orderly.onward

theorem State.steps_pos (running : state ≠ .finished) : 0 < state.steps := by
  cases state <;> first | exact Nat.succ_pos _ | exact absurd rfl running

theorem Orderly.fails {error : LexError} {steps tokens : Nat} (inside : Inside lexer)
    (leads : Leads lexer later) (some : 0 < steps) (same : later.tokens = lexer.tokens) :
    Orderly steps tokens lexer ⟨.some (.error error), later, [(state, lexer)]⟩ := by
  refine ⟨some, ⟨[], ?_, Nat.zero_le _⟩, ?_, ?_, by simp⟩
  · rw [List.append_nil]
    exact same
  · intro passed member
    rcases List.mem_cons.mp member with rfl | member
    · exact inside.leads
    · rw [List.mem_singleton.mp member]
      exact leads
  · simpa [Call.lexers] using leads.onward

/-- What a step keeps the loop keeps, from any state on. -/
theorem run_orderly (state : State) (inside : Inside lexer) :
    Orderly (stepsFrom state lexer) (tokensFrom state lexer) lexer (run state lexer) := by
  fun_induction run state lexer with
  | case1 lexer =>
    refine ⟨Nat.zero_le _, ⟨[], (List.append_nil _).symm, Nat.zero_le _⟩, ?_, ?_, by simp⟩
    · intro passed member
      rw [List.mem_singleton.mp member]
      exact ⟨rfl, Nat.le_refl _, inside.start, inside.cursor⟩
    · exact List.pairwise_singleton _ _
  | case2 state lexer running next later goes call further =>
    have moves := step_moves state lexer
    rw [goes] at moves
    obtain ⟨fewer, added, adds, within⟩ := moves.accounts running
    have leads := (moves.leads inside).1
    exact (further leads.inside).goes inside leads fewer adds within
  | case3 state lexer running error later fails =>
    have moves := step_moves state lexer
    rw [fails] at moves
    have leads := (moves.leads inside).1
    have some : 0 < stepsFrom state lexer := Nat.add_pos_right _ (State.steps_pos running)
    exact .fails inside leads some moves.tokens_of_fails
  | case4 state lexer running later outside =>
    have moves := step_moves state lexer
    exact absurd outside ((moves.leads inside).2 later)

def resumed (source : String) : Nat → Lexer
  | 0 => ofSource source
  | calls + 1 => (resumed source calls).tokenize.lexer

theorem Call.lexer_mem (call : Call) : call.lexer ∈ call.lexers :=
  List.mem_append_right _ (List.mem_singleton_self _)

theorem resumed_inside (source : String) (calls : Nat) :
    (resumed source calls).source = source.toList ∧ Inside (resumed source calls) := by
  induction calls with
  | zero => exact ⟨rfl, Nat.le_refl _, Nat.zero_le _⟩
  | succ calls further =>
    have leads := (run_orderly .start further.2).inside _ (Call.lexer_mem _)
    exact ⟨leads.source.trans further.1, leads.inside⟩

theorem resumed_scan (source : String) (calls : Nat) :
    (resumed source calls).scan = (Scan.ofSource source).resumed calls := by
  induction calls with
  | zero => rfl
  | succ calls further =>
    have told := told_tokenize (resumed_inside source calls).2
    rw [Scan.resumed_succ, ← further]
    exact congrArg Prod.snd told

theorem cursor_lt_of_error {error : LexError} (inside : Inside lexer)
    (failed : lexer.tokenize.answer = some (.error error)) :
    lexer.cursor < lexer.tokenize.lexer.cursor := by
  obtain ⟨answers, leaves⟩ := Prod.mk.inj (told_tokenize inside)
  have same := ((run_orderly .start inside).inside _ (Call.lexer_mem _)).source
  -- The step that fails may take nothing itself, as behind a quote that ends the source. The scan
  -- goes by lexemes, and a lexeme has a character at least.
  have shorter := Scan.run_rest_length lexer.scan
  rw [← Option.some.inj (failed.symm.trans answers), ← leaves] at shorter
  change lexer.tokenize.lexer.rest.length + 1 ≤ lexer.rest.length at shorter
  change lexer.tokenize.lexer.source = lexer.source at same
  rw [length_rest, length_rest, remaining, remaining, same] at shorter
  omega

/-- However often it was called before, a lexer runs two states for every character that is left and
two more at most before it finishes or fails, and adds one token for every character that is left and
one more at most. Behind a call that fails a character less is left, at least. Within a call the
cursor goes on to the end of the source at most, a lexeme never starts behind it, and it is always a
part of the source that is cut out. What the call answers is what the scan answers. -/
theorem tokenize_ends {source : String} {calls : Nat} {lexer : Lexer}
    (reached : resumed source calls = lexer) :
    lexer.source = source.toList ∧ lexer.scan = (Scan.ofSource source).resumed calls ∧
    Orderly (2 * lexer.remaining + 2) (lexer.remaining + 1) lexer lexer.tokenize ∧
    (∀ error, lexer.tokenize.answer = some (.error error) →
      lexer.cursor < lexer.tokenize.lexer.cursor) ∧
    lexer.tokenize.answer = some (Scan.answer source calls) := by
  subst reached
  obtain ⟨same, inside⟩ := resumed_inside source calls
  have scanned := resumed_scan source calls
  have told := told_tokenize inside
  rw [scanned] at told
  exact ⟨same, scanned, run_orderly .start inside, fun _ => cursor_lt_of_error inside,
    congrArg Prod.fst told⟩

theorem tokenize_ends_unclosed :
    (resumed "a $;\"b" 1).tokenize.answer = some (.error (.unterminatedString ⟨1, 5⟩)) ∧
      (resumed "a $;\"b" 1).cursor < (resumed "a $;\"b" 1).tokenize.lexer.cursor := by
  have reached : resumed "a $;\"b" 1 = resumed "a $;\"b" 1 := rfl
  obtain ⟨-, -, -, progress, answers⟩ := tokenize_ends reached
  have failed : Scan.answer "a $;\"b" 1 = .error (.unterminatedString ⟨1, 5⟩) := by cbv
  rw [failed] at answers
  exact ⟨answers, progress _ answers⟩

example : (ofSource "-;").tokenize.trace.length = 2 * (ofSource "-;").remaining + 2 := by
  decide +kernel

end Lexer

end YalSyntax
