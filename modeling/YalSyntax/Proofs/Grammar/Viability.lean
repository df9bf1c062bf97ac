import YalSyntax.Proofs.Grammar
import YalSyntax.Proofs.Reader

namespace YalSyntax

/-- A relation between the tokens at which a phrase starts and the tokens it leaves. -/
abbrev Phrase := List Token → List Token → Prop

namespace Phrase

def of {α : Type} (rule : List Token → α → List Token → Prop) : Phrase := fun tokens rest =>
  ∃ value, rule tokens value rest

/-- What makes a phrase with the tokens before it. -/
def after (phrase : Phrase) (used : List Token) : Phrase := fun tokens rest =>
  phrase (used ++ tokens) rest

def token (kind : Token.Kind) : Phrase := fun tokens rest =>
  ∃ next, tokens = next :: rest ∧ next.kind = kind

def followedBy (first second : Phrase) : Phrase := fun tokens rest =>
  ∃ middle, first tokens middle ∧ second middle rest

/-- The tokens can be continued to a phrase, with any tokens behind it. -/
def Viable (phrase : Phrase) (before : List Token) : Prop :=
  ∃ more, (∀ token ∈ more, token.kind ≠ .finish) ∧ ∀ rest, phrase (before ++ (more ++ rest)) rest

/-- The phrase of these tokens stays one when other tokens stand behind it, if the first of them is
the same. -/
def Stays (phrase : Phrase) (used rest : List Token) : Prop :=
  ∀ others : List Token, others.head? = rest.head? → phrase (used ++ others) others

namespace Viable

variable {first second phrase : Phrase} {before : List Token}

theorem imp (viable : first.Viable before)
    (imp : ∀ {tokens rest}, first tokens rest → phrase tokens rest) : phrase.Viable before := by
  obtain ⟨more, plain, completes⟩ := viable
  exact ⟨more, plain, fun rest => imp (completes rest)⟩

theorem of_tokens (more : List Token) (plain : ∀ token ∈ more, token.kind ≠ .finish)
    (completes : ∀ rest, phrase (more ++ rest) rest) : phrase.Viable [] :=
  ⟨more, plain, completes⟩

theorem token {kind : Token.Kind} (plain : kind ≠ .finish) : (Phrase.token kind).Viable [] :=
  of_tokens [⟨kind, "", .start⟩] (by simpa using plain) fun _ => ⟨_, rfl, rfl⟩

theorem followedBy (viable : first.Viable before) (next : second.Viable []) :
    (first.followedBy second).Viable before := by
  obtain ⟨more, plain, completes⟩ := viable
  obtain ⟨others, plain', completes'⟩ := next
  refine ⟨more ++ others, fun token member => ?_, fun rest => ⟨others ++ rest, ?_, completes' rest⟩⟩
  · rcases List.mem_append.mp member with member | member
    · exact plain token member
    · exact plain' token member
  · rw [List.append_assoc]
    exact completes (others ++ rest)

theorem append {used behind left : List Token} (viable : first.Viable used)
    (stays : first.Stays used (behind ++ left)) (more : second.Viable behind)
    (next : second.Viable []) : (first.followedBy second).Viable (used ++ behind) := by
  cases behind with
  | nil => simpa using viable.followedBy next
  | cons token behind =>
    obtain ⟨others, plain, completes⟩ := more
    refine ⟨others, plain, fun rest => ⟨token :: behind ++ (others ++ rest), ?_, completes rest⟩⟩
    rw [List.append_assoc]
    exact stays _ rfl

theorem after_iff {used : List Token} :
    (phrase.after used).Viable before ↔ phrase.Viable (used ++ before) := by
  simp only [Viable, Phrase.after, List.append_assoc]

end Viable

end Phrase

/-- The tokens before a fault: those before the token whose place the fault tells, and otherwise
those that have been taken. -/
def Fault.At (fault : Fault) (tokens before rest : List Token) : Prop :=
  match fault with
  | assignmentTarget position => ∃ sign, tokens = before ++ sign :: rest ∧ sign.position = position
  | suffixOperand operator position =>
    ∃ sign, tokens = before ++ sign :: rest ∧ sign.text = operator ∧ sign.position = position
  | _ => tokens = before ++ rest

theorem Fault.At.append {fault : Fault} {tokens before rest : List Token}
    (located : fault.At tokens before rest) (used : List Token) :
    fault.At (used ++ tokens) (used ++ before) rest := by
  cases fault with
  | assignmentTarget position =>
    obtain ⟨sign, rfl, known⟩ := located
    exact ⟨sign, by simp, known⟩
  | suffixOperand operator position =>
    obtain ⟨sign, rfl, known⟩ := located
    exact ⟨sign, by simp, known⟩
  | _ =>
    obtain rfl : tokens = before ++ rest := located
    simp [At]

theorem Fault.At.split {fault : Fault} {tokens before rest : List Token}
    (located : fault.At tokens before rest) : ∃ left, tokens = before ++ left := by
  cases fault with
  | assignmentTarget | suffixOperand =>
    obtain ⟨sign, split, -⟩ := located
    exact ⟨sign :: rest, split⟩
  | _ => exact ⟨rest, located⟩

def Phrase.Admits {α : Type} (phrase : Phrase) (tokens : List Token) : Answer α → Prop
  | (.ok _, rest) => ∃ used, tokens = used ++ rest ∧ phrase.Stays used rest ∧ phrase.Viable used
  | (.error fault, rest) => ∃ before, fault.At tokens before rest ∧
    (fault ≠ .tooDeep → phrase.Viable before)

/-- Wherever a reader stops, what stands before it can be continued to a phrase. So it stops no later
than the first token with which no phrase goes on. -/
def Follows {α : Type} (phrase : Phrase) (reader : Reader α) (tokens : List Token) : Prop :=
  phrase.Admits tokens (reader tokens)

namespace Follows

open Phrase

variable {α β γ : Type} {first second phrase : Phrase} {reader other : Reader α}
  {tokens : List Token}

theorem congr (follows : Follows phrase reader tokens) (same : other tokens = reader tokens) :
    Follows phrase other tokens := by
  rwa [Follows, same]

theorem imp (follows : Follows first reader tokens)
    (imp : ∀ {tokens rest}, first tokens rest → phrase tokens rest) :
    Follows phrase reader tokens := by
  unfold Follows at follows ⊢
  generalize reader tokens = answer at follows ⊢
  rcases answer with ⟨fault | value, rest⟩
  · obtain ⟨before, located, viable⟩ := follows
    exact ⟨before, located, fun deep => (viable deep).imp imp⟩
  · obtain ⟨used, split, stays, viable⟩ := follows
    exact ⟨used, split, fun others same => imp (stays others same), viable.imp imp⟩

theorem done {value : α} (stays : phrase.Stays [] tokens) (viable : phrase.Viable []) :
    Follows phrase (Reader.done value) tokens :=
  ⟨[], rfl, stays, viable⟩

theorem done_of {value : α} (complete : ∀ others, phrase others others) :
    Follows phrase (Reader.done value) tokens :=
  done (fun others _ => complete others) (.of_tokens [] nofun complete)

theorem fail {fault : Fault} (located : fault.At tokens [] tokens) (viable : phrase.Viable []) :
    Follows phrase (Reader.fail fault : Reader α) tokens :=
  ⟨[], located, fun _ => viable⟩

theorem nested {room : Allowance} {body : Allowance → Reader α}
    (inner : ∀ room, Follows phrase (body room) tokens) :
    Follows phrase (Reader.nested room body) tokens := by
  unfold Reader.nested
  split
  · exact inner _
  · exact ⟨[], rfl, absurd rfl⟩

theorem of_after {used rest left : List Token} {result : Except Fault α}
    (follows : Follows (phrase.after used) reader rest) (read : reader rest = (result, left))
    (split : tokens = used ++ rest) (same : other tokens = (result, left)) :
    Follows phrase other tokens := by
  subst split
  unfold Follows at follows ⊢
  rw [read] at follows
  rw [same]
  cases result with
  | error fault =>
    obtain ⟨before, located, viable⟩ := follows
    exact ⟨used ++ before, located.append used, fun deep => Viable.after_iff.mp (viable deep)⟩
  | ok value =>
    obtain ⟨more, split, stays, viable⟩ := follows
    refine ⟨used ++ more, by rw [List.append_assoc, ← split], fun others same => ?_,
      Viable.after_iff.mp viable⟩
    rw [List.append_assoc]
    exact stays others same

theorem andThen_cases {next : α → Reader β} (before : Follows first reader tokens)
    (stops : ∀ {before}, first.Viable before → phrase.Viable before)
    (goes : ∀ value used rest, reader tokens = (.ok value, rest) → tokens = used ++ rest →
      first.Stays used rest → first.Viable used → Follows (phrase.after used) (next value) rest) :
    Follows phrase (reader.andThen next) tokens := by
  rcases read : reader tokens with ⟨fault | value, rest⟩
  · rw [Follows, read] at before
    obtain ⟨taken, located, viable⟩ := before
    rw [Follows, Reader.andThen, read]
    exact ⟨taken, located, fun deep => stops (viable deep)⟩
  · rw [Follows, read] at before
    obtain ⟨used, split, stays, viable⟩ := before
    refine (goes value used rest read split stays viable).of_after rfl split ?_
    rw [Reader.andThen, read]

theorem andThen {next : α → Reader β} (before : Follows first reader tokens)
    (behind : ∀ value rest, reader tokens = (.ok value, rest) → Follows second (next value) rest)
    (viable : second.Viable []) : Follows (first.followedBy second) (reader.andThen next) tokens := by
  refine andThen_cases before (fun known => known.followedBy viable)
    fun value used rest read split stays known => ?_
  have follows := behind value rest read
  unfold Follows at follows ⊢
  generalize next value rest = answer at follows ⊢
  rcases answer with ⟨fault | value, left⟩
  · obtain ⟨before, located, more⟩ := follows
    refine ⟨before, located, fun deep => ?_⟩
    obtain ⟨left, rfl⟩ := located.split
    exact Viable.after_iff.mpr (known.append stays (more deep) viable)
  · obtain ⟨more, rfl, stays', viable'⟩ := follows
    refine ⟨more, rfl, fun others same => ⟨more ++ others, ?_, stays' others same⟩, ?_⟩
    · exact stays _ (by rw [List.head?_append, List.head?_append, same])
    · exact Viable.after_iff.mpr (known.append stays viable' viable)

theorem andThen_done {next : α → β} (follows : Follows phrase reader tokens) :
    Follows phrase (reader.andThen fun value => Reader.done (next value)) tokens := by
  unfold Follows Reader.andThen at *
  generalize reader tokens = answer at *
  rcases answer with ⟨fault | value, rest⟩ <;> exact follows

theorem takeIf {choice : Token.Kind → Option γ} {taken : γ → Token → Reader α}
    (yes : ∀ chosen first rest, tokens = first :: rest → choice first.kind = some chosen →
      Follows (phrase.after [first]) (taken chosen first) rest)
    (no : (∀ next ∈ tokens.head?, choice next.kind = none) → Follows phrase other tokens) :
    Follows phrase (Reader.takeIf choice taken other) tokens := by
  have missing : (∀ next ∈ tokens.head?, choice next.kind = none) →
      Follows phrase (Reader.takeIf choice taken other) tokens := fun missing =>
    (no missing).congr (Reader.takeIf_of_none missing taken other)
  cases tokens with
  | nil => exact missing nofun
  | cons first rest =>
    cases found : choice first.kind with
    | none => exact missing (by simpa using found)
    | some chosen =>
      exact (yes chosen first rest rfl found).of_after rfl rfl
        (Reader.takeIf_of_some found taken other rest)

theorem takeKind {kind : Token.Kind} {taken : Token → Reader α}
    (yes : ∀ first rest, tokens = first :: rest → first.kind = kind →
      Follows (phrase.after [first]) (taken first) rest)
    (no : (∀ next ∈ tokens.head?, next.kind ≠ kind) → Follows phrase other tokens) :
    Follows phrase (Reader.takeKind kind taken other) tokens := by
  refine takeIf (fun _ first rest split found => ?_) fun missing => no fun next isNext same => ?_
  · exact yes first rest split (of_decide_eq_true (Option.guard_eq_some_iff.mp found).2)
  · simpa [same] using missing next isNext

theorem refuse {choice : Token.Kind → Option γ} {fault : Token → Fault}
    (located : ∀ sign rest, (fault sign).At (sign :: rest) [] rest) (viable : phrase.Viable [])
    (no : Follows phrase other tokens) :
    Follows phrase (Reader.refuse choice fault other) tokens := by
  cases tokens with
  | nil => exact no
  | cons first rest =>
    unfold Follows Reader.refuse
    cases found : choice first.kind with
    | none => rwa [Reader.takeIf, found]
    | some chosen =>
      rw [Reader.takeIf, found]
      exact ⟨[], located first rest, fun _ => viable⟩

theorem branch {test : Option Token.Kind → Bool}
    (yes : test (tokens.head?.map (·.kind)) = true → Follows phrase reader tokens)
    (no : test (tokens.head?.map (·.kind)) = false → Follows phrase other tokens) :
    Follows phrase (Reader.branch test reader other) tokens := by
  unfold Follows Reader.branch
  split
  · rename_i holds
    exact yes holds
  · rename_i fails
    exact no (Bool.eq_false_iff.mpr fails)

theorem expect {kind : Token.Kind} (plain : kind ≠ .finish) :
    Follows (Phrase.token kind) (Reader.expect kind) tokens :=
  takeKind (fun first _ _ same => done_of fun _ => ⟨first, rfl, same⟩)
    fun _ => fail rfl (.token plain)

end Follows

end YalSyntax
