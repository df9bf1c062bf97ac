import YalSyntax.Proofs.Lexical.Lexeme

namespace YalSyntax

namespace Lexical

section Class

variable {p : Char → Bool}

theorem inside_takeWhile {text : List Char} : ∀ c ∈ text.takeWhile p, p c :=
  List.all_eq_true.mp List.all_takeWhile

theorem takeWhile_boundary (text : List Char) :
    ∀ next ∈ (text.dropWhile p).head?, ¬ p next := by
  intro next ahead
  have stopped := List.head?_dropWhile_not p text
  rw [Option.mem_def.mp ahead] at stopped
  simpa using stopped

theorem length_le_of_boundary {front body rest : List Char} (inside : ∀ c ∈ front, p c)
    (boundary : ∀ next ∈ rest.head?, ¬ p next) (opens : front <+: body ++ rest) :
    front.length ≤ body.length := by
  rcases Nat.le_total front.length body.length with within | reaches
  · exact within
  · obtain ⟨more, rfl⟩ : body <+: front :=
      List.prefix_of_prefix_length_le (List.prefix_append body rest) opens reaches
    have behind : more <+: rest := (List.prefix_append_right_inj body).mp opens
    cases more with
    | nil => simp
    | cons next more =>
      obtain ⟨others, rfl⟩ := behind
      exact absurd (inside next (by simp)) (boundary next rfl)

end Class

theorem forall_ne_of_not_mem {c : Char} {text : List Char} (absent : c ∉ text) :
    ∀ d ∈ text, decide (d ≠ c) := by
  intro d member
  refine decide_eq_true ?_
  intro same
  subst same
  exact absent member

theorem quote_longest {inner inner' rest : List Char} (plain : '"' ∉ inner)
    (opens : inner ++ ['"'] <+: inner' ++ '"' :: rest) : inner.length ≤ inner'.length := by
  have opens' := (List.prefix_append inner ['"']).trans opens
  exact length_le_of_boundary (forall_ne_of_not_mem plain) (by simp) opens'

structure Ends (base : Base) (fraction rest : List Char) : Prop where
  noDigit : ∀ next ∈ rest.head?, ¬ base.isDigit next
  noPoint : fraction = [] → ∀ next ∈ rest.head?, next ≠ '.'

theorem digits_split (base : Base) (text : List Char) :
    ∃ fraction rest, Fraction base fraction ∧ Ends base fraction rest ∧
      text = text.takeWhile base.isDigit ++ fraction ++ rest ∧
      Lexeme.digits base text = (text.takeWhile base.isDigit ++ fraction, rest) := by
  have whole := List.takeWhile_append_dropWhile (p := base.isDigit) (l := text)
  have boundary := takeWhile_boundary (p := base.isDigit) text
  unfold Lexeme.digits
  split
  · rename_i rest left
    rw [left] at whole
    refine ⟨'.' :: rest.takeWhile base.isDigit, rest.dropWhile base.isDigit,
      .point fun c inside => inside_takeWhile c inside,
      ⟨takeWhile_boundary rest, fun absent => by cases absent⟩, ?_, rfl⟩
    simpa using whole.symm
  · rename_i noPoint
    refine ⟨[], text.dropWhile base.isDigit, .none, ⟨boundary, fun _ next ahead => ?_⟩,
      by simp, by simp⟩
    intro same
    subst same
    cases left : text.dropWhile base.isDigit with
    | nil => rw [left] at ahead; cases ahead
    | cons d rest =>
      rw [left] at ahead
      obtain rfl := Option.some.inj ahead
      exact noPoint rest left

section Number

variable {base : Base} {q : Char → Bool} {whole fraction excess : List Char}
  {whole' fraction' excess' rest : List Char}

theorem excess_within (noPoint : ¬ q '.') (continues : ∀ c ∈ excess, q c)
    (part' : Fraction base fraction') (boundary : ∀ next ∈ rest.head?, ¬ q next)
    (opens : excess <+: whole' ++ fraction' ++ excess' ++ rest) :
    excess.length ≤ (whole' ++ fraction' ++ excess').length := by
  cases part' with
  | none => exact length_le_of_boundary continues boundary opens
  | @point more =>
    have atPoint : ∀ next ∈ ('.' :: (more ++ excess' ++ rest)).head?, ¬ q next := by
      intro next ahead
      obtain rfl := Option.some.inj ahead
      exact noPoint
    have shorter : excess.length ≤ whole'.length :=
      length_le_of_boundary continues atPoint (by simpa using opens)
    simp only [List.length_append]
    omega

theorem run_longest (digitsIn : ∀ c, base.isDigit c → q c) (noPoint : ¬ q '.')
    (digits : Digits base whole) (part : Fraction base fraction) (continues : ∀ c ∈ excess, q c)
    (digits' : Digits base whole') (part' : Fraction base fraction')
    (ends : Ends base fraction' (excess' ++ rest)) (boundary : ∀ next ∈ rest.head?, ¬ q next)
    (opens : whole ++ fraction ++ excess <+: whole' ++ fraction' ++ excess' ++ rest) :
    (whole ++ fraction ++ excess).length ≤ (whole' ++ fraction' ++ excess').length := by
  -- along the digits of the maximal number; the other one has its point no earlier and no later
  induction whole' generalizing whole with
  | nil =>
    cases whole with
    | nil =>
      cases part with
      | none => exact excess_within noPoint continues part' boundary opens
      | @point digitsBehind inside =>
        cases part' with
        | none =>
          obtain ⟨more, same⟩ := opens
          rw [← show _ = excess' ++ rest from same] at ends
          exact absurd rfl (ends.noPoint rfl '.' rfl)
        | point =>
          have behind := (List.cons_prefix_cons.mp opens).2
          have members : ∀ c ∈ digitsBehind ++ excess, q c := by
            intro c member
            rcases List.mem_append.mp member with digit | other
            · exact digitsIn c (inside c digit)
            · exact continues c other
          have shorter := length_le_of_boundary members boundary behind
          simpa using shorter
    | cons c whole =>
      obtain ⟨more, same⟩ := opens
      cases part' with
      | none =>
        rw [← show _ = excess' ++ rest from same] at ends
        exact absurd (digits c (by simp)) (ends.noDigit c rfl)
      | point =>
        obtain ⟨rfl, -⟩ := List.cons.inj same
        exact absurd (digits '.' (by simp)) (Base.not_isDigit_point base)
  | cons c' whole' further =>
    cases whole with
    | nil =>
      cases part with
      | none => exact excess_within noPoint continues part' boundary opens
      | point =>
        obtain ⟨rfl, -⟩ := List.cons_prefix_cons.mp opens
        exact absurd ( digits' '.' (by simp)) (Base.not_isDigit_point base)
    | cons c whole =>
      have behind := (List.cons_prefix_cons.mp opens).2
      have shorter := further (fun d inside => digits d (List.mem_cons_of_mem c inside))
        (fun d inside => digits' d (List.mem_cons_of_mem c' inside)) behind
      simpa using shorter

theorem number_longest (digits : Digits base whole) (part : Fraction base fraction)
    (digits' : Digits base whole') (part' : Fraction base fraction')
    (ends : Ends base fraction' rest) (opens : whole ++ fraction <+: whole' ++ fraction' ++ rest) :
    (whole ++ fraction).length ≤ (whole' ++ fraction').length := by
  have nothing : ∀ c ∈ ([] : List Char), base.isDigit c := by simp
  have opens' : whole ++ fraction ++ [] <+: whole' ++ fraction' ++ [] ++ rest := by
    simpa using opens
  have ends' : Ends base fraction' ([] ++ rest) := ends
  have longest := run_longest (fun _ digit => digit) (Base.not_isDigit_point base) digits part
    nothing digits' part' ends' ends.noDigit opens'
  simpa using longest

theorem numberLike_longest (digits : Digits base whole) (part : Fraction base fraction)
    (continues : ∀ c ∈ excess, isWordChar c) (digits' : Digits base whole')
    (part' : Fraction base fraction') (ends : Ends base fraction' (excess' ++ rest))
    (boundary : ∀ next ∈ rest.head?, ¬ isWordChar next)
    (opens : whole ++ fraction ++ excess <+: whole' ++ fraction' ++ excess' ++ rest) :
    (whole ++ fraction ++ excess).length ≤ (whole' ++ fraction' ++ excess').length :=
  run_longest (fun _ => Base.isWordChar_of_isDigit) (by decide) digits part continues digits' part'
    ends boundary opens

end Number

end Lexical

end YalSyntax
