import YalSyntax.Proofs.Reader
import YalSyntax.Proofs.Rendering

namespace YalSyntax

namespace Fault

def isPlaced : Fault → Bool
  | assignmentTarget _ | suffixOperand _ _ => true
  | _ => false

def map (text : String → String) (place : Position → Position) : Fault → Fault
  | assignmentTarget position => assignmentTarget (place position)
  | suffixOperand operator position => suffixOperand (text operator) (place position)
  | fault => fault

theorem map_of_not_placed {fault : Fault} (text : String → String) (place : Position → Position)
    (free : fault.isPlaced = false) : fault.map text place = fault := by
  cases fault <;> first | rfl | cases free

end Fault

def isPlaced {α : Type} : Except Fault α → Bool
  | .ok _ => false
  | .error fault => fault.isPlaced

section

variable {α β γ δ ε : Type} (text : String → String) (place : Position → Position)

def mapResult (change : α → β) : Except Fault α → Except Fault β
  | .ok value => .ok (change value)
  | .error fault => .error (fault.map text place)

/-- Where `image` sees what `reader` has seen of the tokens, with other texts and positions, it
answers the same with these texts and positions, and leaves what stands there. A reader sees the
tokens it takes and the next one, but not the next one if its fault tells its own place. -/
def Mirrors (change : α → β) (reader : Reader α) (image : Reader β) (tokens : List Token) : Prop :=
  ∃ used, tokens = used ++ (reader tokens).2 ∧ (isPlaced (reader tokens).1 → used ≠ []) ∧
    ∀ rest, isPlaced (reader tokens).1 ∨
        rest.head? = (reader tokens).2.head?.map (Token.map text place) →
      image (used.map (Token.map text place) ++ rest) =
        (mapResult text place change (reader tokens).1, rest)

/-- The same behind a token that has been taken. -/
def MirrorsBehind (change : α → β) (reader : Reader α) (image : Reader β) (tokens : List Token) :
    Prop :=
  ∃ used, tokens = used ++ (reader tokens).2 ∧
    ∀ rest, isPlaced (reader tokens).1 ∨
        rest.head? = (reader tokens).2.head?.map (Token.map text place) →
      image (used.map (Token.map text place) ++ rest) =
        (mapResult text place change (reader tokens).1, rest)

variable {text place}

theorem head?_image {placed : Prop} {used left rest : List Token} (nonempty : placed → used ≠ [])
    (sees : placed ∨ rest.head? = left.head?.map (Token.map text place)) :
    (used.map (Token.map text place) ++ rest).head? =
      (used ++ left).head?.map (Token.map text place) := by
  cases used with
  | nil =>
    rcases sees with isPlaced | sees
    · exact absurd rfl (nonempty isPlaced)
    · exact sees
  | cons first used => rfl

namespace Mirrors

variable {change : α → β} {reader other : Reader α} {image otherImage : Reader β}
  {tokens : List Token}

theorem congr (mirrors : Mirrors text place change reader image tokens)
    (same : other tokens = reader tokens)
    (alike : ∀ seen : List Token, seen.head? = tokens.head?.map (Token.map text place) →
      otherImage seen = image seen) : Mirrors text place change other otherImage tokens := by
  obtain ⟨used, split, nonempty, mirrors⟩ := mirrors
  refine ⟨used, by rw [same]; exact split, by rw [same]; exact nonempty, fun rest sees => ?_⟩
  rw [same] at sees ⊢
  rw [alike _ ?_, mirrors rest sees]
  rw [head?_image nonempty sees, ← split]

theorem done {value : α} {value' : β} (same : change value = value') :
    Mirrors text place change (Reader.done value) (Reader.done value') tokens := by
  subst same
  exact ⟨[], rfl, nofun, fun rest _ => rfl⟩

theorem fail {fault : Fault} (free : fault.isPlaced = false) :
    Mirrors text place change (Reader.fail fault) (Reader.fail fault) tokens := by
  refine ⟨[], rfl, fun placed => ?_, fun rest _ => ?_⟩
  · rw [Reader.fail, isPlaced, free] at placed
    cases placed
  · rw [Reader.fail, Reader.fail, mapResult, fault.map_of_not_placed text place free]
    rfl

theorem nested {room : Allowance} {body : Allowance → Reader α} {body' : Allowance → Reader β}
    (inner : ∀ room, Mirrors text place change (body room) (body' room) tokens) :
    Mirrors text place change (Reader.nested room body) (Reader.nested room body') tokens := by
  unfold Reader.nested
  split
  · exact inner _
  · exact fail rfl

theorem andThen {convert : δ → ε} {next : α → Reader δ} {next' : β → Reader ε}
    (first : Mirrors text place change reader image tokens)
    (second : ∀ value rest, reader tokens = (.ok value, rest) →
      Mirrors text place convert (next value) (next' (change value)) rest) :
    Mirrors text place convert (reader.andThen next) (image.andThen next') tokens := by
  obtain ⟨used, split, nonempty, mirrors⟩ := first
  rw [Mirrors, Reader.andThen]
  rcases read : reader tokens with ⟨value | value, rest⟩ <;> rw [read] at split nonempty mirrors
  · refine ⟨used, split, nonempty, fun left sees => ?_⟩
    rw [Reader.andThen, mirrors left sees]
    rfl
  · obtain ⟨more, split', nonempty', mirrors'⟩ := second value rest read
    refine ⟨used ++ more, ?_, fun placed => ?_, fun left sees => ?_⟩
    · rw [List.append_assoc, ← split', split]
    · exact List.append_ne_nil_of_right_ne_nil _ (nonempty' placed)
    · have begins := head?_image nonempty' sees
      rw [← split'] at begins
      rw [List.map_append, List.append_assoc, Reader.andThen, mirrors _ (.inr begins)]
      exact mirrors' left sees

theorem takeIf_of_behind {choice : Token.Kind → Option γ} {taken : γ → Token → Reader α}
    {taken' : γ → Token → Reader β}
    (yes : ∀ chosen first rest, tokens = first :: rest → choice first.kind = some chosen →
      MirrorsBehind text place change (taken chosen first)
        (taken' chosen (first.map text place)) rest)
    (no : Mirrors text place change other otherImage tokens) :
    Mirrors text place change (Reader.takeIf choice taken other)
      (Reader.takeIf choice taken' otherImage) tokens := by
  have missing : (∀ next ∈ tokens.head?, choice next.kind = none) →
      Mirrors text place change (Reader.takeIf choice taken other)
        (Reader.takeIf choice taken' otherImage) tokens := by
    intro missing
    refine no.congr (Reader.takeIf_of_none missing _ other) fun seen begins => ?_
    refine Reader.takeIf_of_none (fun next isNext => ?_) _ otherImage
    rw [begins, Option.mem_def, Option.map_eq_some_iff] at isNext
    obtain ⟨first, isFirst, rfl⟩ := isNext
    exact missing first isFirst
  cases tokens with
  | nil => exact missing nofun
  | cons first rest =>
    cases found : choice first.kind with
    | none => exact missing (by simpa using found)
    | some chosen =>
      obtain ⟨used, split, mirrors⟩ := yes chosen first rest rfl found
      have same := Reader.takeIf_of_some found taken other rest
      have found' : choice (first.map text place).kind = some chosen := found
      refine ⟨first :: used, ?_, fun _ => List.cons_ne_nil _ _, fun left sees => ?_⟩
      · rw [same, List.cons_append, ← split]
      · rw [same] at sees ⊢
        exact (Reader.takeIf_of_some found' taken' otherImage _).trans (mirrors left sees)

theorem takeIf {choice : Token.Kind → Option γ} {taken : γ → Token → Reader α}
    {taken' : γ → Token → Reader β}
    (yes : ∀ chosen first rest, tokens = first :: rest → choice first.kind = some chosen →
      Mirrors text place change (taken chosen first) (taken' chosen (first.map text place)) rest)
    (no : Mirrors text place change other otherImage tokens) :
    Mirrors text place change (Reader.takeIf choice taken other)
      (Reader.takeIf choice taken' otherImage) tokens := by
  refine takeIf_of_behind (fun chosen first rest split found => ?_) no
  obtain ⟨used, split, -, mirrors⟩ := yes chosen first rest split found
  exact ⟨used, split, mirrors⟩

theorem takeKind {kind : Token.Kind} {taken : Token → Reader α} {taken' : Token → Reader β}
    (yes : ∀ first rest, tokens = first :: rest → first.kind = kind →
      Mirrors text place change (taken first) (taken' (first.map text place)) rest)
    (no : Mirrors text place change other otherImage tokens) :
    Mirrors text place change (Reader.takeKind kind taken other)
      (Reader.takeKind kind taken' otherImage) tokens :=
  takeIf (fun _ first rest split found =>
    yes first rest split (of_decide_eq_true (Option.guard_eq_some_iff.mp found).2)) no

theorem refuse {choice : Token.Kind → Option γ} {fault : Token → Fault}
    (same : ∀ token, (fault token).map text place = fault (token.map text place))
    (no : Mirrors text place change other otherImage tokens) :
    Mirrors text place change (Reader.refuse choice fault other)
      (Reader.refuse choice fault otherImage) tokens := by
  refine takeIf_of_behind (fun _ first rest _ _ => ⟨[], rfl, fun left _ => ?_⟩) no
  rw [Reader.fail, Reader.fail, mapResult, same]
  rfl

theorem branch {test : Option Token.Kind → Bool}
    (yes : test (tokens.head?.map (·.kind)) = true →
      Mirrors text place change reader image tokens)
    (no : test (tokens.head?.map (·.kind)) = false →
      Mirrors text place change other otherImage tokens) :
    Mirrors text place change (Reader.branch test reader other)
      (Reader.branch test image otherImage) tokens := by
  have same : ∀ seen : List Token, seen.head? = tokens.head?.map (Token.map text place) →
      seen.head?.map (·.kind) = tokens.head?.map (·.kind) := by
    intro seen begins
    rw [begins, Option.map_map]
    rfl
  cases holds : test (tokens.head?.map (·.kind)) with
  | true =>
    refine (yes holds).congr (if_pos holds) fun seen begins => if_pos ?_
    rw [same seen begins, holds]
  | false =>
    refine (no holds).congr (if_neg (by simp [holds])) fun seen begins => if_neg ?_
    rw [same seen begins, holds]
    exact Bool.false_ne_true

theorem expect {kind : Token.Kind} :
    Mirrors text place (Token.map text place) (Reader.expect kind) (Reader.expect kind) tokens :=
  takeKind (fun _ _ _ _ => done rfl) (fail rfl)

end Mirrors

end

end YalSyntax
