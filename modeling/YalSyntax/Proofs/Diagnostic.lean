import Mathlib
import YalSyntax.Error

namespace YalSyntax

section

variable {first first' second second' : List Char}

theorem cut_eq {sign : Char} (free : sign ∉ first) (free' : sign ∉ first')
    (same : first ++ sign :: second = first' ++ sign :: second') :
    first = first' ∧ second = second' := by
  induction first generalizing first' with
  | nil =>
    cases first' with
    | nil => exact ⟨rfl, (List.cons.inj same).2⟩
    | cons c first' =>
      obtain ⟨rfl, -⟩ := List.cons.inj same
      exact absurd List.mem_cons_self free'
  | cons c first further =>
    cases first' with
    | nil =>
      obtain ⟨rfl, -⟩ := List.cons.inj same
      exact absurd List.mem_cons_self free
    | cons d first' =>
      obtain ⟨rfl, -⟩ := List.cons.inj same
      obtain ⟨rfl, rest⟩ := further (List.not_mem_of_not_mem_cons free)
        (List.not_mem_of_not_mem_cons free') (List.cons.inj same).2
      exact ⟨rfl, rest⟩

theorem begins_alike (same : first ++ second = first' ++ second') :
    first <+: first' ∨ first' <+: first :=
  List.prefix_or_prefix_of_prefix ⟨second, same⟩ ⟨second', rfl⟩

end

theorem toDigits_inj {number other : Nat} (same : Nat.toDigits 10 number = Nat.toDigits 10 other) :
    number = other := by
  simpa using congrArg (Nat.ofDigitChars 10 · 0) same

theorem notMem_toDigits {sign : Char} (noDigit : sign.isDigit = false) (number : Nat) :
    sign ∉ Nat.toDigits 10 number := by
  intro member
  have digit := Nat.isDigit_of_mem_toDigits (by decide) (by decide) member
  rw [noDigit] at digit
  cases digit

namespace Token.Kind

theorem describe_injective : Function.Injective describe := by
  have distinct : (all.map describe).Nodup := by decide +kernel
  intro kind other same
  exact List.inj_on_of_nodup_map distinct (mem_all kind) (mem_all other) same

theorem comma_notMem_describe (kind : Kind) : ',' ∉ kind.describe.toList := by
  cases kind <;> decide

theorem quote_notMem_describe (kind : Kind) : '\'' ∉ kind.describe.toList := by
  cases kind <;> decide

theorem describe_ne_expression (kind : Kind) : kind.describe ≠ "expression" := by
  cases kind <;> decide

end Token.Kind

namespace Position

theorem toList_describe (position : Position) :
    position.describe.toList = "line ".toList ++ (Nat.toDigits 10 position.line ++
      ',' :: (" column ".toList ++ Nat.toDigits 10 position.column)) := by
  simp only [describe, toString, String.toList_append, Nat.toList_repr, List.append_assoc]
  rfl

theorem describe_cut {position other : Position} {rest rest' : List Char}
    (same : position.describe.toList ++ ':' :: rest = other.describe.toList ++ ':' :: rest') :
    position = other ∧ rest = rest' := by
  obtain ⟨line, column⟩ := position
  obtain ⟨line', column'⟩ := other
  simp only [toList_describe, List.append_assoc, List.cons_append] at same
  have same := List.append_cancel_left same
  obtain ⟨lines, same⟩ := cut_eq (notMem_toDigits rfl line) (notMem_toDigits rfl line') same
  have same := List.append_cancel_left same
  obtain ⟨columns, same⟩ := cut_eq (notMem_toDigits rfl column) (notMem_toDigits rfl column') same
  exact ⟨by rw [toDigits_inj lines, toDigits_inj columns], same⟩

end Position

section

variable (stage reason : String) (position : Position)

theorem toList_message : (stage ++ position.describe ++ ": " ++ reason).toList =
    stage.toList ++ (position.describe.toList ++ ':' :: (' ' :: reason.toList)) := by
  rw [String.toList_append, String.toList_append, String.toList_append, List.append_assoc,
    List.append_assoc]
  rfl

end

theorem message_cut (stage : String) {reason reason' : String} {position other : Position}
    (same : stage ++ position.describe ++ ": " ++ reason =
      stage ++ other.describe ++ ": " ++ reason') : position = other ∧ reason = reason' := by
  have same := congrArg String.toList same
  rw [toList_message, toList_message] at same
  obtain ⟨place, same⟩ := Position.describe_cut (List.append_cancel_left same)
  exact ⟨place, String.toList_inj.mp (List.cons.inj same).2⟩

namespace LexError

/-- The words by which a reason is known, up to what it tells of the lexeme. -/
def opening : LexError → String
  | illegalCharacter _ _ => "illegal character '"
  | unterminatedString _ => "unterminated string literal"
  | unterminatedComment _ => "unterminated block comment"
  | malformedNumber _ _ => "malformed number literal '"

def told : LexError → List Char
  | illegalCharacter char _ => [char, '\'']
  | malformedNumber text _ => text.toList ++ ['\'']
  | unterminatedString _ | unterminatedComment _ => []

theorem toList_reason (error : LexError) :
    error.reason.toList = error.opening.toList ++ error.told := by
  have quote : ∀ opening text : String, (opening ++ text ++ "'").toList =
      opening.toList ++ (text.toList ++ ['\'']) := by
    intro opening text
    simp
  cases error with
  | illegalCharacter char =>
    have single : [char] = (String.singleton char).toList := by simp
    exact (quote _ (String.singleton char)).trans (by rw [← single]; rfl)
  | malformedNumber text => exact quote _ text
  | unterminatedString | unterminatedComment => exact (List.append_nil _).symm

theorem eq_of_reason {error other : LexError} (place : error.position = other.position)
    (same : error.reason = other.reason) : error = other := by
  have same : error.opening.toList ++ error.told = other.opening.toList ++ other.told := by
    rw [← toList_reason, ← toList_reason, same]
  have alike := begins_alike same
  cases error with
  | illegalCharacter char position =>
    cases other with
    | illegalCharacter char' position' =>
      obtain rfl : position = position' := place
      have same := List.append_cancel_left same
      rw [(List.cons.inj same).1]
    | _ => exact absurd alike (by dsimp only [opening]; decide)
  | unterminatedString position =>
    cases other with
    | unterminatedString position' => exact congrArg unterminatedString place
    | _ => exact absurd alike (by dsimp only [opening]; decide)
  | unterminatedComment position =>
    cases other with
    | unterminatedComment position' => exact congrArg unterminatedComment place
    | _ => exact absurd alike (by dsimp only [opening]; decide)
  | malformedNumber text position =>
    cases other with
    | malformedNumber text' position' =>
      obtain rfl : position = position' := place
      have same := List.append_cancel_right (List.append_cancel_left same)
      rw [String.toList_inj.mp same]
    | _ => exact absurd alike (by dsimp only [opening]; decide)

end LexError

namespace ParseError

def unexpected (wanted : String) (found : Token) : List Char :=
  wanted.toList ++ ',' :: (" found ".toList ++ (found.kind.describe.toList ++ ' ' :: '\'' ::
    (found.text.toList ++ ['\''])))

theorem unexpected_inj {wanted wanted' : String} {found found' : Token}
    (free : ',' ∉ wanted.toList) (free' : ',' ∉ wanted'.toList)
    (place : found.position = found'.position)
    (same : unexpected wanted found = unexpected wanted' found') :
    wanted = wanted' ∧ found = found' := by
  obtain ⟨kind, text, position⟩ := found
  obtain ⟨kind', text', position'⟩ := found'
  obtain rfl : position = position' := place
  obtain ⟨wants, same⟩ := cut_eq free free' same
  have same := List.append_cancel_left same
  simp only [List.append_cons _ ' ' (_ :: _)] at same
  have quoteless : ∀ kind : Token.Kind, '\'' ∉ kind.describe.toList ++ [' '] := by
    intro kind
    simp [kind.quote_notMem_describe]
  obtain ⟨kinds, same⟩ := cut_eq (quoteless kind) (quoteless kind') same
  have kinds := String.toList_inj.mp (List.append_cancel_right kinds)
  have texts := String.toList_inj.mp (List.append_cancel_right same)
  rw [String.toList_inj.mp wants, Token.Kind.describe_injective kinds, texts]
  exact ⟨rfl, rfl⟩

def opening : ParseError → String
  | expected _ _ | expectedExpression _ => "expected "
  | assignmentTarget _ => "invalid assignment target"
  | suffixOperand _ _ => "'"
  | tooDeep _ => "nesting is too deep (maximum 128 levels)"

def told : ParseError → List Char
  | expected kind found => unexpected kind.describe found
  | expectedExpression found => unexpected "expression" found
  | suffixOperand operator _ => operator.toList ++ "' can only follow a variable".toList
  | assignmentTarget _ | tooDeep _ => []

theorem toList_reason (error : ParseError) :
    error.reason.toList = error.opening.toList ++ error.told := by
  have wanted : ∀ (wanted : String) (found : Token),
      s!"expected {wanted}, found {found.kind.describe} '{found.text}'".toList =
        "expected ".toList ++ unexpected wanted found := by
    intro wanted found
    simp only [toString, String.toList_append, List.append_assoc]
    rfl
  cases error with
  | expected kind found => exact wanted kind.describe found
  | expectedExpression found => exact wanted "expression" found
  | suffixOperand operator =>
    change ("'" ++ operator ++ "' can only follow a variable").toList = _
    rw [String.toList_append, String.toList_append, List.append_assoc]
    rfl
  | assignmentTarget => exact (List.append_nil _).symm
  | tooDeep =>
    rw [told, List.append_nil]
    rfl

theorem eq_of_reason {error other : ParseError} (place : error.position = other.position)
    (same : error.reason = other.reason) : error = other := by
  have same : error.opening.toList ++ error.told = other.opening.toList ++ other.told := by
    rw [← toList_reason, ← toList_reason, same]
  have alike := begins_alike same
  have expression : ',' ∉ "expression".toList := by decide
  cases error with
  | expected kind found =>
    have free := kind.comma_notMem_describe
    cases other with
    | expected kind' found' =>
      have same := List.append_cancel_left same
      obtain ⟨kinds, rfl⟩ := unexpected_inj free kind'.comma_notMem_describe place same
      rw [Token.Kind.describe_injective kinds]
    | expectedExpression found' =>
      have same := List.append_cancel_left same
      exact absurd (unexpected_inj free expression place same).1 kind.describe_ne_expression
    | _ => exact absurd alike (by dsimp only [opening]; decide)
  | expectedExpression found =>
    cases other with
    | expected kind' found' =>
      have free := kind'.comma_notMem_describe
      have same := List.append_cancel_left same
      exact absurd (unexpected_inj expression free place same).1.symm kind'.describe_ne_expression
    | expectedExpression found' =>
      have same := List.append_cancel_left same
      rw [(unexpected_inj expression expression place same).2]
    | _ => exact absurd alike (by dsimp only [opening]; decide)
  | assignmentTarget position =>
    cases other with
    | assignmentTarget position' => exact congrArg assignmentTarget place
    | _ => exact absurd alike (by dsimp only [opening]; decide)
  | suffixOperand operator position =>
    cases other with
    | suffixOperand operator' position' =>
      obtain rfl : position = position' := place
      have same := List.append_cancel_right (List.append_cancel_left same)
      rw [String.toList_inj.mp same]
    | _ => exact absurd alike (by dsimp only [opening]; decide)
  | tooDeep position =>
    cases other with
    | tooDeep position' => exact congrArg tooDeep place
    | _ => exact absurd alike (by dsimp only [opening]; decide)

end ParseError

theorem LexError.message_inj {error other : LexError} (same : error.message = other.message) :
    error = other := by
  obtain ⟨place, reasons⟩ := message_cut "Lex error at " same
  exact eq_of_reason place reasons

theorem ParseError.message_inj {error other : ParseError} (same : error.message = other.message) :
    error = other := by
  obtain ⟨place, reasons⟩ := message_cut "Parse error at " same
  exact eq_of_reason place reasons

theorem LexError.message_ne (error : LexError) (other : ParseError) :
    error.message ≠ other.message := by
  intro same
  have lexed := toList_message "Lex error at " error.reason error.position
  have parsed := toList_message "Parse error at " other.reason other.position
  have whole := lexed.symm.trans ((congrArg String.toList same).trans parsed)
  exact absurd (begins_alike whole) (by decide)

theorem SyntaxError.message_inj {error other : SyntaxError} (same : error.message = other.message) :
    error = other := by
  cases error with
  | lex error =>
    cases other with
    | lex other => rw [LexError.message_inj same]
    | parse other => exact absurd same (error.message_ne other)
  | parse error =>
    cases other with
    | lex other => exact absurd same.symm (other.message_ne error)
    | parse other => rw [ParseError.message_inj same]

/-- A message tells its error, whether a scan ends with it or the reading of a source: of two errors
with one message the stages, the reasons, the lines and the columns are the same, and so is what
they tell of lexemes and tokens. -/
theorem message_eq_iff :
    (∀ error other : LexError, error.message = other.message ↔ error = other) ∧
    (∀ (error : LexError) (other : SyntaxError),
      error.message = other.message ↔ other = .lex error) ∧
    ∀ error other : SyntaxError, error.message = other.message ↔ error = other := by
  refine ⟨fun error other => ⟨LexError.message_inj, congrArg _⟩, fun error other => ⟨?_, ?_⟩,
    fun error other => ⟨SyntaxError.message_inj, congrArg _⟩⟩
  · intro same
    exact (SyntaxError.message_inj (show (SyntaxError.lex error).message = _ from same)).symm
  · rintro rfl
    rfl

end YalSyntax
