import YalSyntax.Proofs.Nesting

namespace YalSyntax

def Allowance.less : Allowance → Nat → Allowance
  | unlimited, _ => unlimited
  | levels count, depth => levels (count - depth)

theorem Allowance.open?_less (limit : Allowance) (depth : Nat) :
    (limit.less depth).open? =
      if limit.admits depth then some (limit.less (depth + 1)) else none := by
  cases limit with
  | unlimited => rfl
  | levels count =>
    simp only [less, admits, decide_eq_true_eq]
    split
    · rename_i admitted
      rw [show count - depth = count - (depth + 1) + 1 by omega, open?]
    · rename_i full
      rw [show count - depth = 0 by omega, open?]

def firstBeyond (count : Nat) (openings : List Opening) : Option Opening :=
  openings.find? fun opening => count < opening.level

theorem firstBeyond_append (count : Nat) (first second : List Opening) :
    firstBeyond count (first ++ second) = (firstBeyond count first).or (firstBeyond count second) :=
  List.find?_append

theorem firstBeyond_eq_none_iff {count : Nat} {openings : List Opening} :
    firstBeyond count openings = none ↔ ∀ opening ∈ openings, opening.level ≤ count := by
  simp [firstBeyond]

theorem firstBeyond_eq_some_iff {count : Nat} {openings : List Opening} {beyond : Opening} :
    firstBeyond count openings = some beyond ↔ count < beyond.level ∧
      ∃ before behind, openings = before ++ beyond :: behind ∧
        ∀ opening ∈ before, opening.level ≤ count := by
  simp [firstBeyond, List.find?_eq_some_iff_append]

/-- Every level is opened inside one that was opened before it: none is left out. -/
def Climbs : Nat → List Opening → Prop
  | _, [] => True
  | top, opening :: others => opening.level ≤ top + 1 ∧ Climbs (max top opening.level) others

theorem Climbs.mono {top higher : Nat} {openings : List Opening} (climbs : Climbs top openings)
    (above : top ≤ higher) : Climbs higher openings := by
  induction openings generalizing top higher with
  | nil => trivial
  | cons opening others further =>
    obtain ⟨next, rest⟩ := climbs
    exact ⟨by omega, further rest (by omega)⟩

theorem Climbs.append {top : Nat} {first second : List Opening} (before : Climbs top first)
    (behind : Climbs top second) : Climbs top (first ++ second) := by
  induction first generalizing top with
  | nil => exact behind
  | cons opening others further =>
    exact ⟨before.1, further before.2 (behind.mono (Nat.le_max_left _ _))⟩

theorem Climbs.firstBeyond_level {top count : Nat} {openings : List Opening} {beyond : Opening}
    (climbs : Climbs top openings) (within : top ≤ count)
    (first : firstBeyond count openings = some beyond) : beyond.level = count + 1 := by
  induction openings generalizing top with
  | nil => cases first
  | cons opening others further =>
    obtain ⟨next, rest⟩ := climbs
    rw [firstBeyond, List.find?_cons] at first
    split at first
    · rename_i above
      obtain rfl := Option.some.inj first
      have above := of_decide_eq_true above
      omega
    · rename_i below
      have below := of_decide_eq_false below
      exact further rest (by omega) first

variable {α β : Type} {bound wider : Nat}

/-- What a reading without a limit comes to when there is one. -/
def Counted.under (counted : Counted (Outcome α bound)) (count : Nat) : Outcome α bound :=
  match firstBeyond count counted.openings with
  | none => counted.outcome
  | some beyond => .error .tooDeep beyond.tokens

/-- The first reading counts what the second one does. -/
structure Counts (counted : Counter → Counted (Outcome α bound))
    (reading : Allowance → Outcome α bound) : Prop where
  restores : ∀ counter, (counted counter).depth = counter.depth
  agrees : ∀ counter, (counted counter).outcome = reading (counter.limit.less counter.depth)
  exact : ∀ count depth,
    (counted ⟨.levels count, depth⟩).outcome = (counted ⟨.unlimited, depth⟩).under count
  climbs : ∀ depth, Climbs depth (counted ⟨.unlimited, depth⟩).openings

namespace Counts

open Nesting

theorem level (outcome : Outcome α bound) :
    Counts (fun counter => Nesting.level counter outcome) fun room =>
      Nesting.level room outcome where
  restores _ := rfl
  agrees _ := rfl
  exact _ _ := rfl
  climbs _ := trivial

theorem andThen {counted : Counter → Counted (Outcome α bound)}
    {reading : Allowance → Outcome α bound}
    {next : Counter → (value : α) → (rest : List Token) → rest.length < bound →
      Counted (Outcome β wider)}
    {others : Allowance → (value : α) → (rest : List Token) → rest.length < bound →
      Outcome β wider}
    (first : Counts counted reading)
    (second : ∀ value rest shorter,
      Counts (fun counter => next counter value rest shorter)
        fun room => others room value rest shorter) :
    Counts (fun counter => Nesting.andThen counter (counted counter) next)
      fun room => Nesting.andThen room (reading room) others where
  restores counter := by
    have back := first.restores counter
    change (Counted.andThen counter (counted counter) next).depth = _
    unfold Counted.andThen
    split
    · rw [back]
      exact (second _ _ _).restores counter
    · exact back
  agrees counter := by
    change (Counted.andThen counter (counted counter) next).outcome = _
    rw [andThen_room, ← first.agrees, Counted.andThen, first.restores]
    cases (counted counter).outcome with
    | ok value rest shorter => exact (second value rest shorter).agrees counter
    | error fault rest => rfl
  exact count depth := by
    have same := first.exact count depth
    change (Counted.andThen _ (counted ⟨.levels count, depth⟩) next).outcome =
      (Counted.andThen _ (counted ⟨.unlimited, depth⟩) next).under count
    simp only [Counted.andThen, first.restores, same, Counted.under]
    cases beyond : firstBeyond count (counted ⟨.unlimited, depth⟩).openings with
    | none =>
      cases (counted ⟨.unlimited, depth⟩).outcome with
      | ok value rest shorter =>
        simp only [firstBeyond_append, beyond, Option.none_or]
        exact (second value rest shorter).exact count depth
      | error fault rest => simp only [beyond]
    | some opening =>
      cases (counted ⟨.unlimited, depth⟩).outcome with
      | ok value rest shorter => simp only [firstBeyond_append, beyond, Option.some_or]
      | error fault rest => simp only [beyond]
  climbs depth := by
    have before := first.climbs depth
    change Climbs depth (Counted.andThen _ (counted ⟨.unlimited, depth⟩) next).openings
    unfold Counted.andThen
    split
    · rw [first.restores]
      exact before.append ((second _ _ _).climbs depth)
    · exact before

theorem nested {inner : Counter → Counted (Outcome α bound)}
    {reading : Allowance → Outcome α bound} (tokens : List Token) (body : Counts inner reading) :
    Counts (fun counter => Nesting.nested counter tokens inner)
      fun room => Nesting.nested room tokens reading where
  restores counter := by
    change (Counted.nested counter tokens inner).depth = _
    unfold Counted.nested
    split
    · exact congrArg (· - 1) (body.restores _)
    · rfl
  agrees counter := by
    change (Counted.nested counter tokens inner).outcome = _
    rw [nested_room, Outcome.nested, Allowance.open?_less, Counted.nested]
    cases counter.limit.admits counter.depth with
    | true => exact body.agrees _
    | false => rfl
  exact count depth := by
    have same := body.exact count (depth + 1)
    change (Counted.nested _ tokens inner).outcome = (Counted.nested _ tokens inner).under count
    by_cases admitted : depth < count
    · have within : ¬ count < depth + 1 := by omega
      simpa [Counted.nested, Allowance.admits, admitted, Counted.under, firstBeyond, within]
        using same
    · have above : count < depth + 1 := by omega
      simp [Counted.nested, Allowance.admits, admitted, Counted.under, firstBeyond, above,
        Counted.level]
  climbs depth := by
    refine ⟨Nat.le_refl _, ?_⟩
    rw [Nat.max_eq_right (Nat.le_succ depth)]
    exact body.climbs (depth + 1)

theorem ite {condition : Prop} [Decidable condition]
    {counted counted' : Counter → Counted (Outcome α bound)}
    {reading reading' : Allowance → Outcome α bound} (yes : condition → Counts counted reading)
    (no : ¬condition → Counts counted' reading') :
    Counts (fun counter => if condition then counted counter else counted' counter)
      fun room => if condition then reading room else reading' room := by
  by_cases holds : condition
  · simpa only [holds, if_true] using yes holds
  · simpa only [holds, if_false] using no holds

theorem of_eq {counted counted' : Counter → Counted (Outcome α bound)}
    {reading reading' : Allowance → Outcome α bound}
    (same : ∀ counter, counted counter = counted' counter)
    (alike : ∀ room, reading room = reading' room) (counts : Counts counted' reading') :
    Counts counted reading := by
  obtain rfl : counted = counted' := funext same
  obtain rfl : reading = reading' := funext alike
  exact counts

end Counts

end YalSyntax
