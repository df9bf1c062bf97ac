namespace YalSyntax

inductive Json
  | null
  | bool (value : Bool)
  | number (value : Nat)
  | string (value : String)
  | array (items : List Json)
  | object (fields : List (String × Json))
deriving Inhabited, Repr

namespace Json

inductive Layout
  | compact
  | indented
deriving DecidableEq, Repr

/-- Append what stands before a part at `depth`: a new line and two spaces for each level, or
nothing. -/
def Layout.gap (layout : Layout) (depth : Nat) (out : String) : String :=
  match layout with
  | compact => out
  | indented => (out.push '\n').pushn ' ' (2 * depth)

def Layout.colon (layout : Layout) (out : String) : String :=
  match layout with
  | compact => out.push ':'
  | indented => out ++ ": "

/-- How a character is written inside quotes. Only quotes, backslashes and control characters are
escaped. -/
def escape (c : Char) : List Char :=
  if c = '"' then ['\\', '"']
  else if c = '\\' then ['\\', '\\']
  else if c = '\x08' then ['\\', 'b']
  else if c = '\x0c' then ['\\', 'f']
  else if c = '\n' then ['\\', 'n']
  else if c = '\r' then ['\\', 'r']
  else if c = '\t' then ['\\', 't']
  else if c.toNat < 32 then
    ['\\', 'u', '0', '0', Nat.digitChar (c.toNat / 16), Nat.digitChar (c.toNat % 16)]
  else [c]

def quote (text : String) (out : String) : String :=
  (text.toList.foldl (fun out c => (escape c).foldl String.push out) (out.push '"')).push '"'

mutual

def write (layout : Layout) (depth : Nat) : Json → String → String
  | null, out => out ++ "null"
  | bool true, out => out ++ "true"
  | bool false, out => out ++ "false"
  | number value, out => out ++ value.repr
  | string value, out => quote value out
  | array [], out => out ++ "[]"
  | array (item :: items), out =>
    writeItems layout depth items
      (write layout (depth + 1) item (layout.gap (depth + 1) (out.push '[')))
  | object [], out => (out.push '{').push '}'
  | object ((key, value) :: fields), out =>
    writeFields layout depth fields
      (write layout (depth + 1) value
        (layout.colon (quote key (layout.gap (depth + 1) (out.push '{')))))

def writeItems (layout : Layout) (depth : Nat) : List Json → String → String
  | [], out => (layout.gap depth out).push ']'
  | item :: items, out =>
    writeItems layout depth items
      (write layout (depth + 1) item (layout.gap (depth + 1) (out.push ',')))

def writeFields (layout : Layout) (depth : Nat) : List (String × Json) → String → String
  | [], out => (layout.gap depth out).push '}'
  | (key, value) :: fields, out =>
    writeFields layout depth fields
      (write layout (depth + 1) value
        (layout.colon (quote key (layout.gap (depth + 1) (out.push ',')))))

end

def render (layout : Layout) (document : Json) : String := document.write layout 0 ""

end Json

end YalSyntax
