import Mathlib
import YalSyntax.Json

namespace YalSyntax

namespace Json

def Layout.gapChars (layout : Layout) (depth : Nat) : List Char :=
  match layout with
  | compact => []
  | indented => '\n' :: List.replicate (2 * depth) ' '

def Layout.colonChars : Layout → List Char
  | compact => [':']
  | indented => [':', ' ']

def quoteChars (text : String) : List Char := '"' :: (text.toList.flatMap escape ++ ['"'])

mutual

/-- The characters of a document that stands at `depth`. -/
def chars (layout : Layout) (depth : Nat) : Json → List Char
  | null => ['n', 'u', 'l', 'l']
  | bool true => ['t', 'r', 'u', 'e']
  | bool false => ['f', 'a', 'l', 's', 'e']
  | number value => Nat.toDigits 10 value
  | string value => quoteChars value
  | array [] => ['[', ']']
  | array (item :: items) =>
    '[' :: (layout.gapChars (depth + 1) ++ chars layout (depth + 1) item ++
      itemsChars layout depth items)
  | object [] => ['\x7b', '\x7d']
  | object ((key, value) :: fields) =>
    '\x7b' :: (layout.gapChars (depth + 1) ++ (quoteChars key ++ layout.colonChars ++
      chars layout (depth + 1) value) ++ fieldsChars layout depth fields)

def itemsChars (layout : Layout) (depth : Nat) : List Json → List Char
  | [] => layout.gapChars depth ++ [']']
  | item :: items =>
    ',' :: (layout.gapChars (depth + 1) ++ chars layout (depth + 1) item ++
      itemsChars layout depth items)

def fieldsChars (layout : Layout) (depth : Nat) : List (String × Json) → List Char
  | [] => layout.gapChars depth ++ ['\x7d']
  | (key, value) :: fields =>
    ',' :: (layout.gapChars (depth + 1) ++ (quoteChars key ++ layout.colonChars ++
      chars layout (depth + 1) value) ++ fieldsChars layout depth fields)

end

theorem toList_pushn (out : String) (c : Char) (count : Nat) :
    (out.pushn c count).toList = out.toList ++ List.replicate count c := by
  rw [String.pushn_eq_repeat_push]
  induction count with
  | zero => simp [Nat.repeat]
  | succ count further => simp [Nat.repeat, further, List.replicate_succ']

@[simp]
theorem toList_gap (layout : Layout) (depth : Nat) (out : String) :
    (layout.gap depth out).toList = out.toList ++ layout.gapChars depth := by
  cases layout with
  | compact => simp [Layout.gap, Layout.gapChars]
  | indented => simp [Layout.gap, Layout.gapChars, toList_pushn]

@[simp]
theorem toList_colon (layout : Layout) (out : String) :
    (layout.colon out).toList = out.toList ++ layout.colonChars := by
  cases layout <;> simp [Layout.colon, Layout.colonChars]

theorem toList_foldl_push (text : List Char) (out : String) :
    (text.foldl String.push out).toList = out.toList ++ text := by
  induction text generalizing out with
  | nil => simp
  | cons c text further => simp [further]

theorem toList_foldl_escape (text : List Char) (out : String) :
    (text.foldl (fun out c => (escape c).foldl String.push out) out).toList =
      out.toList ++ text.flatMap escape := by
  induction text generalizing out with
  | nil => simp
  | cons c text further => simp [further, toList_foldl_push]

@[simp]
theorem toList_quote (text out : String) :
    (quote text out).toList = out.toList ++ quoteChars text := by
  simp [quote, quoteChars, toList_foldl_escape]

mutual

@[simp]
theorem toList_write (layout : Layout) (depth : Nat) (document : Json) (out : String) :
    (document.write layout depth out).toList = out.toList ++ document.chars layout depth := by
  cases document with
  | null => simp [write, chars]
  | bool value => cases value <;> simp [write, chars]
  | number value => simp [write, chars]
  | string value => simp [write, chars]
  | array items =>
    cases items with
    | nil => simp [write, chars]
    | cons item items =>
      simp [write, chars, toList_writeItems layout depth items, toList_write layout _ item]
  | object fields =>
    cases fields with
    | nil => simp [write, chars]
    | cons field fields =>
      obtain ⟨key, value⟩ := field
      simp [write, chars, toList_writeFields layout depth fields, toList_write layout _ value]

@[simp]
theorem toList_writeItems (layout : Layout) (depth : Nat) (items : List Json) (out : String) :
    (writeItems layout depth items out).toList = out.toList ++ itemsChars layout depth items := by
  cases items with
  | nil => simp [writeItems, itemsChars]
  | cons item items =>
    simp [writeItems, itemsChars, toList_writeItems layout depth items, toList_write layout _ item]

@[simp]
theorem toList_writeFields (layout : Layout) (depth : Nat) (fields : List (String × Json))
    (out : String) :
    (writeFields layout depth fields out).toList =
      out.toList ++ fieldsChars layout depth fields := by
  cases fields with
  | nil => simp [writeFields, fieldsChars]
  | cons field fields =>
    obtain ⟨key, value⟩ := field
    simp [writeFields, fieldsChars, toList_writeFields layout depth fields,
      toList_write layout _ value]

end

theorem toList_render (layout : Layout) (document : Json) :
    (document.render layout).toList = document.chars layout 0 := by
  simp [render]

theorem lineFeed_notMem_escape (c : Char) : '\n' ∉ escape c := by
  unfold escape
  split_ifs
  all_goals simp [eq_comm, *]

theorem lineFeed_notMem_quoteChars (text : String) : '\n' ∉ quoteChars text := by
  simp [quoteChars, lineFeed_notMem_escape]

theorem lineFeed_notMem_toDigits (value : Nat) : '\n' ∉ Nat.toDigits 10 value := by
  intro member
  have digit := Nat.isDigit_of_mem_toDigits (by decide) (by decide) member
  cases digit

mutual

theorem lineFeed_notMem_chars (depth : Nat) (document : Json) :
    '\n' ∉ document.chars .compact depth := by
  cases document with
  | null => simp [chars]
  | bool value => cases value <;> simp [chars]
  | number value => exact lineFeed_notMem_toDigits value
  | string value => exact lineFeed_notMem_quoteChars value
  | array items =>
    cases items with
    | nil => simp [chars]
    | cons item items =>
      have first := lineFeed_notMem_chars (depth + 1) item
      have others := lineFeed_notMem_itemsChars depth items
      simp [chars, Layout.gapChars, first, others]
  | object fields =>
    cases fields with
    | nil => simp [chars]
    | cons field fields =>
      obtain ⟨key, value⟩ := field
      have name := lineFeed_notMem_quoteChars key
      have first := lineFeed_notMem_chars (depth + 1) value
      have others := lineFeed_notMem_fieldsChars depth fields
      simp [chars, Layout.gapChars, Layout.colonChars, name, first, others]

theorem lineFeed_notMem_itemsChars (depth : Nat) (items : List Json) :
    '\n' ∉ itemsChars .compact depth items := by
  cases items with
  | nil => simp [itemsChars, Layout.gapChars]
  | cons item items =>
    have first := lineFeed_notMem_chars (depth + 1) item
    have others := lineFeed_notMem_itemsChars depth items
    simp [itemsChars, Layout.gapChars, first, others]

theorem lineFeed_notMem_fieldsChars (depth : Nat) (fields : List (String × Json)) :
    '\n' ∉ fieldsChars .compact depth fields := by
  cases fields with
  | nil => simp [fieldsChars, Layout.gapChars]
  | cons field fields =>
    obtain ⟨key, value⟩ := field
    have name := lineFeed_notMem_quoteChars key
    have first := lineFeed_notMem_chars (depth + 1) value
    have others := lineFeed_notMem_fieldsChars depth fields
    simp [fieldsChars, Layout.gapChars, Layout.colonChars, name, first, others]

end

theorem lineFeed_notMem_render (document : Json) : '\n' ∉ (document.render .compact).toList := by
  rw [toList_render]
  exact lineFeed_notMem_chars 0 document

end Json

end YalSyntax
