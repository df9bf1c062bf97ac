import YalSyntax.Proofs.Json.Characters

namespace YalSyntax

namespace Json

def isSpace (c : Char) : Bool := c = ' ' || c = '\n' || c = '\r' || c = '\t'

/-- An array or object that is open, with what was read of it, the latest first. -/
inductive Frame
  | items (before : List Json)
  | fields (before : List (String × Json)) (key : String)
deriving Repr

inductive Role
  | value
  | key (before : List (String × Json))
deriving Repr

/-- What may come next. Characters that are read are kept with the latest first. -/
inductive Stage
  | value
  | firstItem
  | firstKey
  | key (before : List (String × Json))
  | colon (before : List (String × Json)) (key : String)
  | quoted (role : Role) (text : List Char)
  | escaped (role : Role) (text : List Char)
  | code (role : Role) (text : List Char) (count value : Nat)
  | digits (value : Nat)
  | word (rest : List Char) (value : Json)
  | behind (value : Json)
deriving Repr

def Stage.isBetween : Stage → Bool
  | value | firstItem | firstKey | key _ | colon _ _ | behind _ => true
  | quoted _ _ | escaped _ _ | code _ _ _ _ | digits _ | word _ _ => false

structure Prefix where
  stage : Stage
  frames : List Frame
deriving Repr

def unescape? : Char → Option Char
  | '"' => some '"'
  | '\\' => some '\\'
  | '/' => some '/'
  | 'b' => some '\x08'
  | 'f' => some '\x0c'
  | 'n' => some '\n'
  | 'r' => some '\r'
  | 't' => some '\t'
  | _ => none

def hexDigit? (c : Char) : Option Nat := (List.range 16).find? (·.digitChar = c.toLower)

namespace Prefix

def begin? (frames : List Frame) (c : Char) : Option Prefix :=
  if c = '"' then some ⟨.quoted .value [], frames⟩
  else if c = '[' then some ⟨.firstItem, frames⟩
  else if c = '\x7b' then some ⟨.firstKey, frames⟩
  else if c = 'n' then some ⟨.word ['u', 'l', 'l'] .null, frames⟩
  else if c = 't' then some ⟨.word ['r', 'u', 'e'] (.bool true), frames⟩
  else if c = 'f' then some ⟨.word ['a', 'l', 's', 'e'] (.bool false), frames⟩
  else if c = '0' then some ⟨.behind (.number 0), frames⟩
  else if c.isDigit then some ⟨.digits (c.toNat - '0'.toNat), frames⟩
  else none

def beginKey? (before : List (String × Json)) (frames : List Frame) (c : Char) : Option Prefix :=
  if c = '"' then some ⟨.quoted (.key before) [], frames⟩ else none

/-- Read what separates a value from the next one, or closes what is open around it. -/
def follow? (value : Json) (frames : List Frame) (c : Char) : Option Prefix :=
  match frames with
  | [] => none
  | .items before :: frames =>
    if c = ',' then some ⟨.value, .items (value :: before) :: frames⟩
    else if c = ']' then some ⟨.behind (.array (value :: before).reverse), frames⟩
    else none
  | .fields before key :: frames =>
    if c = ',' then some ⟨.key ((key, value) :: before), frames⟩
    else if c = '\x7d' then some ⟨.behind (.object ((key, value) :: before).reverse), frames⟩
    else none

def unquoted (role : Role) (text : List Char) (frames : List Frame) : Prefix :=
  match role with
  | .value => ⟨.behind (.string (String.ofList text.reverse)), frames⟩
  | .key before => ⟨.colon before (String.ofList text.reverse), frames⟩

def take? (reading : Prefix) (c : Char) : Option Prefix :=
  let frames := reading.frames
  match reading.stage with
  | .value => begin? frames c
  | .firstItem =>
    if c = ']' then some ⟨.behind (.array []), frames⟩ else begin? (.items [] :: frames) c
  | .firstKey =>
    if c = '\x7d' then some ⟨.behind (.object []), frames⟩ else beginKey? [] frames c
  | .key before => beginKey? before frames c
  | .colon before key =>
    if c = ':' then some ⟨.value, .fields before key :: frames⟩ else none
  | .quoted role text =>
    if c = '"' then some (unquoted role text frames)
    else if c = '\\' then some ⟨.escaped role text, frames⟩
    else if c.toNat < 32 then none
    else some ⟨.quoted role (c :: text), frames⟩
  | .escaped role text =>
    if c = 'u' then some ⟨.code role text 0 0, frames⟩
    else (unescape? c).map fun plain => ⟨.quoted role (plain :: text), frames⟩
  | .code role text count value =>
    (hexDigit? c).bind fun digit =>
      if count < 3 then some ⟨.code role text (count + 1) (16 * value + digit), frames⟩
      else if (16 * value + digit).isValidChar then
        some ⟨.quoted role (Char.ofNat (16 * value + digit) :: text), frames⟩
      else none
  | .digits value =>
    if c.isDigit then some ⟨.digits (10 * value + (c.toNat - '0'.toNat)), frames⟩
    else if isSpace c then some ⟨.behind (.number value), frames⟩
    else follow? (.number value) frames c
  | .word rest value =>
    match rest with
    | [] => none
    | [last] => if c = last then some ⟨.behind value, frames⟩ else none
    | next :: rest => if c = next then some ⟨.word rest value, frames⟩ else none
  | .behind value => follow? value frames c

def step? (reading : Prefix) (c : Char) : Option Prefix :=
  if reading.stage.isBetween && isSpace c then some reading else reading.take? c

def result? : Prefix → Option Json
  | ⟨.behind value, []⟩ => some value
  | ⟨.digits value, []⟩ => some (.number value)
  | _ => none

def run (reading : Prefix) : List Char → Option Json
  | [] => reading.result?
  | c :: text => (reading.step? c).bind fun next => next.run text

end Prefix

def read? (text : String) : Option Json := Prefix.run ⟨.value, []⟩ text.toList

namespace Prefix

theorem run_of_step? {reading next : Prefix} {c : Char} (step : reading.step? c = some next)
    (text : List Char) : reading.run (c :: text) = next.run text := by
  rw [run, step, Option.bind_some]

theorem step?_of_isSpace {reading : Prefix} {c : Char} (between : reading.stage.isBetween)
    (space : isSpace c) : reading.step? c = some reading := by
  rw [step?, between, space]
  rfl

theorem step?_of_solid {reading : Prefix} {c : Char} (solid : isSpace c = false) :
    reading.step? c = reading.take? c := by
  rw [step?, solid, Bool.and_false]
  rfl

theorem step?_of_inside {reading : Prefix} {c : Char} (inside : reading.stage.isBetween = false) :
    reading.step? c = reading.take? c := by
  rw [step?, inside, Bool.false_and]
  rfl

theorem run_spaces {reading : Prefix} (between : reading.stage.isBetween) {spaces : List Char}
    (blank : ∀ c ∈ spaces, isSpace c) (text : List Char) :
    reading.run (spaces ++ text) = reading.run text := by
  induction spaces with
  | nil => rfl
  | cons c spaces further =>
    rw [List.cons_append, run_of_step? (step?_of_isSpace between (blank c (by simp)))]
    exact further fun c member => blank c (List.mem_cons_of_mem _ member)

theorem isSpace_of_mem_gapChars {layout : Layout} {depth : Nat} {c : Char}
    (member : c ∈ layout.gapChars depth) : isSpace c := by
  cases layout with
  | compact => cases member
  | indented =>
    simp only [Layout.gapChars, List.mem_cons, List.mem_replicate] at member
    rcases member with rfl | ⟨-, rfl⟩ <;> rfl

theorem run_gap {reading : Prefix} (between : reading.stage.isBetween) (layout : Layout)
    (depth : Nat) (text : List Char) :
    reading.run (layout.gapChars depth ++ text) = reading.run text :=
  run_spaces between (fun _ => isSpace_of_mem_gapChars) text

section

variable {frames : List Frame} {rest : List Char}

theorem hexDigit?_digitChar {digit : Nat} (below : digit < 16) :
    hexDigit? digit.digitChar = some digit := by
  have each : ∀ digit < 16, hexDigit? digit.digitChar = some digit := by decide
  exact each digit below

theorem run_code {role : Role} {text : List Char} {c : Char} (below : c.toNat < 32) :
    run ⟨.code role text 0 0, frames⟩
      ('0' :: '0' :: (c.toNat / 16).digitChar :: (c.toNat % 16).digitChar :: rest) =
      run ⟨.quoted role (c :: text), frames⟩ rest := by
  have zero : hexDigit? '0' = some 0 := hexDigit?_digitChar (Nat.zero_lt_succ 15)
  have high : hexDigit? (c.toNat / 16).digitChar = some (c.toNat / 16) :=
    hexDigit?_digitChar (by omega)
  have low : hexDigit? (c.toNat % 16).digitChar = some (c.toNat % 16) :=
    hexDigit?_digitChar (by omega)
  have whole : 16 * (c.toNat / 16) + c.toNat % 16 = c.toNat := Nat.div_add_mod c.toNat 16
  have valid : c.toNat.isValidChar := c.valid
  have first : step? ⟨.code role text 0 0, frames⟩ '0' = some ⟨.code role text 1 0, frames⟩ := by
    rw [step?_of_inside rfl]
    simp [take?, zero]
  have second : step? ⟨.code role text 1 0, frames⟩ '0' = some ⟨.code role text 2 0, frames⟩ := by
    rw [step?_of_inside rfl]
    simp [take?, zero]
  have third : step? ⟨.code role text 2 0, frames⟩ (c.toNat / 16).digitChar =
      some ⟨.code role text 3 (c.toNat / 16), frames⟩ := by
    rw [step?_of_inside rfl]
    simp [take?, high]
  have last : step? ⟨.code role text 3 (c.toNat / 16), frames⟩ (c.toNat % 16).digitChar =
      some ⟨.quoted role (c :: text), frames⟩ := by
    rw [step?_of_inside rfl]
    simp [take?, low, whole, valid]
  rw [run_of_step? first, run_of_step? second, run_of_step? third, run_of_step? last]

theorem run_backslash (role : Role) (text rest : List Char) :
    run ⟨.quoted role text, frames⟩ ('\\' :: rest) = run ⟨.escaped role text, frames⟩ rest :=
  run_of_step? rfl rest

theorem run_escaped {role : Role} {text : List Char} {letter c : Char}
    (stands : unescape? letter = some c) :
    run ⟨.quoted role text, frames⟩ ('\\' :: letter :: rest) =
      run ⟨.quoted role (c :: text), frames⟩ rest := by
  have other : letter ≠ 'u' := by
    rintro rfl
    cases stands
  rw [run_backslash, run_of_step?]
  rw [step?_of_inside rfl]
  simp [take?, other, stands]

theorem run_escape (role : Role) (text : List Char) (c : Char) :
    run ⟨.quoted role text, frames⟩ (escape c ++ rest) =
      run ⟨.quoted role (c :: text), frames⟩ rest := by
  unfold escape
  split_ifs with quote backslash b f n r t code
  · exact run_escaped (congrArg some quote.symm)
  · exact run_escaped (congrArg some backslash.symm)
  · exact run_escaped (congrArg some b.symm)
  · exact run_escaped (congrArg some f.symm)
  · exact run_escaped (congrArg some n.symm)
  · exact run_escaped (congrArg some r.symm)
  · exact run_escaped (congrArg some t.symm)
  · have announced : step? ⟨.escaped role text, frames⟩ 'u' =
        some ⟨.code role text 0 0, frames⟩ := rfl
    rw [List.cons_append, run_backslash, List.cons_append, run_of_step? announced]
    exact run_code code
  · refine run_of_step? ?_ rest
    rw [step?_of_inside rfl]
    simp [take?, quote, backslash, code]

theorem run_quoted (role : Role) (text chars : List Char) :
    run ⟨.quoted role text, frames⟩ (chars.flatMap escape ++ '"' :: rest) =
      run (unquoted role (chars.reverse ++ text) frames) rest := by
  induction chars generalizing text with
  | nil => exact run_of_step? rfl rest
  | cons c chars further =>
    rw [List.flatMap_cons, List.append_assoc, run_escape, further, List.reverse_cons,
      List.append_assoc]
    rfl

theorem run_quoted_toList (role : Role) (text : String) :
    run ⟨.quoted role [], frames⟩ (text.toList.flatMap escape ++ '"' :: rest) =
      run (unquoted role text.toList.reverse frames) rest := by
  rw [run_quoted, List.append_nil]

theorem run_key {reading : Prefix} {before : List (String × Json)}
    (begins : reading.step? '"' = some ⟨.quoted (.key before) [], frames⟩) (layout : Layout)
    (key : String) : reading.run (quoteChars key ++ layout.colonChars ++ rest) =
      run ⟨.value, .fields before key :: frames⟩ rest := by
  have named : unquoted (.key before) key.toList.reverse frames = ⟨.colon before key, frames⟩ := by
    rw [unquoted, List.reverse_reverse, String.ofList_toList]
  rw [quoteChars, List.cons_append, List.cons_append, run_of_step? begins, List.append_assoc,
    List.append_assoc, List.singleton_append, run_quoted_toList, named]
  cases layout with
  | compact => exact run_of_step? rfl rest
  | indented =>
    exact (run_of_step? rfl _).trans (run_of_step? (step?_of_isSpace rfl rfl) rest)

/-- The reading takes a value in these frames next. -/
def Awaits (reading : Prefix) (frames : List Frame) : Prop :=
  ∀ c, isSpace c = false → c ≠ ']' → reading.step? c = begin? frames c

theorem value_awaits (frames : List Frame) : Awaits ⟨.value, frames⟩ frames := by
  intro c solid _
  rw [step?_of_solid solid]
  rfl

theorem firstItem_awaits (frames : List Frame) :
    Awaits ⟨.firstItem, frames⟩ (.items [] :: frames) := by
  intro c solid other
  rw [step?_of_solid solid]
  simp [take?, other]

variable {reading : Prefix}

theorem isSpace_of_isDigit {c : Char} (digit : c.isDigit) : isSpace c = false := by
  by_contra space
  simp only [isSpace, Bool.not_eq_false, Bool.or_eq_true, decide_eq_true_eq] at space
  rcases space with ((rfl | rfl) | rfl) | rfl <;> cases digit

theorem begin?_digitChar {digit : Nat} (positive : 0 < digit) (below : digit < 10) :
    begin? frames digit.digitChar = some ⟨.digits digit, frames⟩ := by
  interval_cases digit <;> rfl

theorem Awaits.step?_of_isDigit (awaits : reading.Awaits frames) {c : Char} (digit : c.isDigit) :
    reading.step? c = begin? frames c := by
  refine awaits c (isSpace_of_isDigit digit) ?_
  rintro rfl
  cases digit

theorem run_toDigits (awaits : reading.Awaits frames) (value : Nat) (positive : 0 < value)
    (rest : List Char) :
    reading.run (Nat.toDigits 10 value ++ rest) = run ⟨.digits value, frames⟩ rest := by
  rcases Nat.lt_or_ge value 10 with one | more
  · rw [Nat.toDigits_of_lt_base one, List.singleton_append, run_of_step?]
    rw [awaits.step?_of_isDigit (by simp [one]), begin?_digitChar positive one]
  · -- the digits before the last one are those of a smaller number, still above zero
    have last : value % 10 < 10 := Nat.mod_lt value (by decide)
    have digit : (value % 10).digitChar.isDigit := by simp [last]
    have step : step? ⟨.digits (value / 10), frames⟩ (value % 10).digitChar =
        some ⟨.digits value, frames⟩ := by
      have whole : 10 * (value / 10) + value % 10 = value := Nat.div_add_mod value 10
      have single : (value % 10).digitChar.toNat - '0'.toNat = value % 10 :=
        Nat.toNat_digitChar_sub_48_of_lt_ten last
      rw [step?_of_inside rfl]
      simp only [take?, digit, if_true, single, whole]
    rw [Nat.toDigits_of_base_le (by decide) more, List.append_assoc,
      run_toDigits awaits (value / 10) (by omega), List.singleton_append, run_of_step? step]
termination_by value
decreasing_by omega

theorem run_digits {value : Nat} (ended : ∀ c ∈ rest.head?, c.isDigit = false) :
    run ⟨.digits value, frames⟩ rest = run ⟨.behind (.number value), frames⟩ rest := by
  cases rest with
  | nil => cases frames <;> rfl
  | cons c rest =>
    have other : c.isDigit = false := ended c rfl
    by_cases space : isSpace c
    · simp [run, step?, take?, Stage.isBetween, other, space]
    · simp [run, step?, take?, Stage.isBetween, other, space]

theorem Awaits.run_cons (awaits : reading.Awaits frames) {c : Char} {next : Prefix}
    (solid : isSpace c = false) (other : c ≠ ']') (begins : begin? frames c = some next)
    (text : List Char) : reading.run (c :: text) = next.run text :=
  run_of_step? ((awaits c solid other).trans begins) text

theorem ended_itemsChars (layout : Layout) (depth : Nat) (items : List Json) (rest : List Char) :
    ∀ c ∈ (itemsChars layout depth items ++ rest).head?, c.isDigit = false := by
  cases items <;> cases layout <;> simp [itemsChars, Layout.gapChars]

theorem ended_fieldsChars (layout : Layout) (depth : Nat) (fields : List (String × Json))
    (rest : List Char) :
    ∀ c ∈ (fieldsChars layout depth fields ++ rest).head?, c.isDigit = false := by
  cases fields <;> cases layout <;> simp [fieldsChars, Layout.gapChars]

theorem run_close {value whole : Json} {frame : Frame} {close : Char}
    (closes : step? ⟨.behind value, frame :: frames⟩ close = some ⟨.behind whole, frames⟩)
    (layout : Layout) (depth : Nat) :
    run ⟨.behind value, frame :: frames⟩ (layout.gapChars depth ++ [close] ++ rest) =
      run ⟨.behind whole, frames⟩ rest := by
  rw [List.append_assoc, run_gap rfl, List.singleton_append,
    run_of_step? closes]

end

mutual

theorem run_chars (layout : Layout) (depth : Nat) (document : Json) {reading : Prefix}
    {frames : List Frame} (awaits : reading.Awaits frames) {rest : List Char}
    (ended : ∀ c ∈ rest.head?, c.isDigit = false) :
    reading.run (document.chars layout depth ++ rest) =
      run ⟨.behind document, frames⟩ rest := by
  cases document with
  | null =>
    rw [chars, List.cons_append, awaits.run_cons rfl (by decide) rfl]
    rfl
  | bool value =>
    cases value with
    | true =>
      rw [chars, List.cons_append, awaits.run_cons rfl (by decide) rfl]
      rfl
    | false =>
      rw [chars, List.cons_append, awaits.run_cons rfl (by decide) rfl]
      rfl
  | number value =>
    rw [chars]
    rcases Nat.eq_zero_or_pos value with rfl | positive
    · exact awaits.run_cons rfl (by decide) rfl rest
    · rw [run_toDigits awaits value positive, run_digits ended]
  | string value =>
    rw [chars, quoteChars, List.cons_append, awaits.run_cons rfl (by decide) rfl,
      List.append_assoc, List.singleton_append, run_quoted_toList, unquoted, List.reverse_reverse,
      String.ofList_toList]
  | array items =>
    cases items with
    | nil =>
      rw [chars, List.cons_append, awaits.run_cons rfl (by decide) rfl]
      exact run_of_step? rfl rest
    | cons item items =>
      -- behind the bracket an item is awaited as a value is, since no item begins with a `]`
      rw [chars, List.cons_append, awaits.run_cons rfl (by decide) rfl, List.append_assoc,
        List.append_assoc, run_gap rfl,
        run_chars layout (depth + 1) item (firstItem_awaits frames)
          (ended_itemsChars layout depth items rest),
        run_itemsChars layout depth items item []]
      rfl
  | object fields =>
    cases fields with
    | nil =>
      rw [chars, List.cons_append, awaits.run_cons rfl (by decide) rfl]
      exact run_of_step? rfl rest
    | cons field fields =>
      obtain ⟨key, value⟩ := field
      rw [chars, List.cons_append, awaits.run_cons rfl (by decide) rfl, List.append_assoc,
        List.append_assoc, run_gap rfl,
        List.append_assoc (quoteChars key ++ layout.colonChars), run_key rfl,
        run_chars layout (depth + 1) value (value_awaits _)
          (ended_fieldsChars layout depth fields rest),
        run_fieldsChars layout depth fields key value []]
      rfl

theorem run_itemsChars (layout : Layout) (depth : Nat) (items : List Json) (item : Json)
    (before : List Json) {frames : List Frame} {rest : List Char} :
    run ⟨.behind item, .items before :: frames⟩ (itemsChars layout depth items ++ rest) =
      run ⟨.behind (.array (before.reverse ++ item :: items)), frames⟩ rest := by
  cases items with
  | nil =>
    rw [itemsChars, run_close rfl, List.reverse_cons]
  | cons next items =>
    rw [itemsChars, List.cons_append, run_of_step? rfl, List.append_assoc, List.append_assoc,
      run_gap rfl,
      run_chars layout (depth + 1) next (value_awaits _)
        (ended_itemsChars layout depth items rest),
      run_itemsChars layout depth items next (item :: before), List.reverse_cons,
      List.append_assoc, List.singleton_append]

theorem run_fieldsChars (layout : Layout) (depth : Nat) (fields : List (String × Json))
    (key : String) (value : Json) (before : List (String × Json)) {frames : List Frame}
    {rest : List Char} :
    run ⟨.behind value, .fields before key :: frames⟩ (fieldsChars layout depth fields ++ rest) =
      run ⟨.behind (.object (before.reverse ++ (key, value) :: fields)), frames⟩ rest := by
  cases fields with
  | nil => rw [fieldsChars, run_close rfl, List.reverse_cons]
  | cons field fields =>
    obtain ⟨name, next⟩ := field
    rw [fieldsChars, List.cons_append, run_of_step? rfl, List.append_assoc, List.append_assoc,
      run_gap rfl,
      List.append_assoc (quoteChars name ++ layout.colonChars), run_key rfl,
      run_chars layout (depth + 1) next (value_awaits _)
        (ended_fieldsChars layout depth fields rest),
      run_fieldsChars layout depth fields name next ((key, value) :: before), List.reverse_cons,
      List.append_assoc, List.singleton_append]

end

end Prefix

/-- A document is read back from its text, also when blanks follow. -/
theorem read?_render_append (layout : Layout) (document : Json) {blanks : String}
    (blank : ∀ c ∈ blanks.toList, isSpace c) :
    read? (document.render layout ++ blanks) = some document := by
  have ended : ∀ c ∈ blanks.toList.head?, c.isDigit = false := by
    intro c first
    have space := blank c (List.mem_of_mem_head? first)
    by_contra digit
    rw [Prefix.isSpace_of_isDigit (by simpa using digit)] at space
    cases space
  have behind : Prefix.run ⟨.behind document, []⟩ (blanks.toList ++ []) =
      Prefix.run ⟨.behind document, []⟩ [] :=
    Prefix.run_spaces rfl blank []
  rw [List.append_nil] at behind
  rw [read?, String.toList_append, toList_render,
    Prefix.run_chars layout 0 document (Prefix.value_awaits []) ended, behind]
  rfl

theorem read?_render (layout : Layout) (document : Json) :
    read? (document.render layout) = some document := by
  rw [← String.append_empty (s := document.render layout)]
  exact read?_render_append layout document (by simp)

example : read? "[01]" = none ∧ read? "[1,]" = none := by
  constructor <;> cbv

end Json

end YalSyntax
