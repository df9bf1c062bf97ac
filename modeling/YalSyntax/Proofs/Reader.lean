import YalSyntax.Proofs.Outcome

namespace YalSyntax

abbrev Answer (α : Type) := Except Fault α × List Token

theorem Outcome.answer_eq_ok {α : Type} {bound : Nat} {outcome : Outcome α bound} {value : α}
    {rest : List Token} (read : outcome.answer = (.ok value, rest)) :
    ∃ shorter, outcome = .ok value rest shorter := by
  cases outcome with
  | ok value rest shorter => cases read; exact ⟨shorter, rfl⟩
  | error fault rest => cases read

/-- Takes tokens from the front and leaves the rest. -/
abbrev Reader (α : Type) := List Token → Answer α

namespace Reader

variable {α β γ : Type}

/-- A reading that is told a bound above the number of its tokens, whichever that is. -/
def below (reading : {bound : Nat} → (tokens : List Token) → tokens.length < bound →
    Outcome α bound) : Reader α := fun tokens => (reading tokens Nat.le.refl).answer

def upTo (reading : {bound : Nat} → (tokens : List Token) → tokens.length ≤ bound →
    Outcome α bound) : Reader α := fun tokens => (reading tokens (Nat.le_succ _)).answer

def done (value : α) : Reader α := fun tokens => (.ok value, tokens)

def fail (fault : Fault) : Reader α := fun tokens => (.error fault, tokens)

def andThen (reader : Reader α) (next : α → Reader β) : Reader β := fun tokens =>
  match reader tokens with
  | (.ok value, rest) => next value rest
  | (.error fault, rest) => (.error fault, rest)

def nested (room : Allowance) (body : Allowance → Reader α) : Reader α :=
  match room.open? with
  | some room => body room
  | none => fail .tooDeep

def takeIf (choice : Token.Kind → Option γ) (taken : γ → Token → Reader α) (other : Reader α) :
    Reader α
  | [] => other []
  | first :: rest =>
    match choice first.kind with
    | some chosen => taken chosen first rest
    | none => other (first :: rest)

def takeKind (kind : Token.Kind) (taken : Token → Reader α) (other : Reader α) : Reader α :=
  takeIf (Option.guard (· = kind)) (fun _ => taken) other

/-- Stop behind the next token if its kind is one to refuse. -/
def refuse (choice : Token.Kind → Option γ) (fault : Token → Fault) (other : Reader α) : Reader α :=
  takeIf choice (fun _ first => fail (fault first)) other

/-- Go on as the next token tells, which is not taken. -/
def branch (test : Option Token.Kind → Bool) (yes no : Reader α) : Reader α := fun tokens =>
  if test (tokens.head?.map (·.kind)) then yes tokens else no tokens

theorem takeIf_of_some {choice : Token.Kind → Option γ} {chosen : γ} {first : Token}
    (found : choice first.kind = some chosen) (taken : γ → Token → Reader α) (other : Reader α)
    (rest : List Token) : takeIf choice taken other (first :: rest) = taken chosen first rest := by
  rw [takeIf, found]

theorem takeIf_of_none {choice : Token.Kind → Option γ} {tokens : List Token}
    (missing : ∀ next ∈ tokens.head?, choice next.kind = none) (taken : γ → Token → Reader α)
    (other : Reader α) : takeIf choice taken other tokens = other tokens := by
  cases tokens with
  | nil => rfl
  | cons first rest => rw [takeIf, missing first rfl]

theorem takeKind_of_eq {kind : Token.Kind} {first : Token} (same : first.kind = kind)
    (taken : Token → Reader α) (other : Reader α) (rest : List Token) :
    takeKind kind taken other (first :: rest) = taken first rest :=
  takeIf_of_some (Option.guard_eq_some_iff.mpr ⟨rfl, by simpa using same⟩) _ other rest

theorem takeKind_of_ne {kind : Token.Kind} {first : Token} (different : first.kind ≠ kind)
    (taken : Token → Reader α) (other : Reader α) (rest : List Token) :
    takeKind kind taken other (first :: rest) = other (first :: rest) :=
  takeIf_of_none (by simpa using different) _ other

def expect (kind : Token.Kind) : Reader Token := takeKind kind done (fail (.expected kind))

end Reader

namespace Outcome

open Reader

variable {α β : Type} {bound wider : Nat}

theorem answer_andThen {outcome : Outcome α bound} {reader : Reader α} {tokens : List Token}
    {next : (value : α) → (rest : List Token) → rest.length < bound → Outcome β wider}
    {others : α → Reader β} (first : outcome.answer = reader tokens)
    (second : ∀ value rest shorter, (next value rest shorter).answer = others value rest) :
    (outcome.andThen next).answer = reader.andThen others tokens := by
  rw [Reader.andThen, ← first]
  cases outcome with
  | ok value rest shorter => exact second value rest shorter
  | error fault rest => rfl

theorem answer_nested {room : Allowance} {tokens : List Token} {body : Allowance → Outcome α bound}
    {inner : Allowance → Reader α} (same : ∀ room, (body room).answer = inner room tokens) :
    (nested room tokens body).answer = Reader.nested room inner tokens := by
  unfold nested Reader.nested
  cases room.open? with
  | some room => exact same room
  | none => rfl

theorem answer_expect (kind : Token.Kind) (tokens : List Token) :
    (Reading.expect kind tokens).answer = Reader.expect kind tokens := by
  cases tokens with
  | nil => rfl
  | cons first rest =>
    by_cases same : first.kind = kind
    · rw [Reading.expect, if_pos same, Reader.expect, takeKind_of_eq same, answer, done]
    · rw [Reading.expect, if_neg same, Reader.expect, takeKind_of_ne same, answer, fail]

end Outcome

namespace Reader

theorem expect_eq_ok {kind : Token.Kind} {tokens rest : List Token} {token : Token}
    (read : expect kind tokens = (.ok token, rest)) : tokens = token :: rest ∧ token.kind = kind := by
  rw [← Outcome.answer_expect] at read
  obtain ⟨shorter, read⟩ := Outcome.answer_eq_ok read
  exact Reading.expect_eq_ok read

end Reader

end YalSyntax
