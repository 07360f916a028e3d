/-!
# JSON values

Values as they are written and read. A number is kept as the characters it is written with. A value
is rendered on one line without blanks, or indented with one item or member a line.
-/

namespace Chiptune

inductive Json where
  | null
  | bool (value : Bool)
  | number (digits : String)
  | string (content : String)
  | array (items : List Json)
  | object (members : List (String × Json))

namespace Json

def ofNat (value : Nat) : Json := number (toString value)

def ofNats (values : List Nat) : Json := array (values.map ofNat)

/-! ### Strings -/

/-- Four hexadecimal digits. -/
def fourDigits (value : Nat) : List Char :=
  let digits := Nat.toDigits 16 value
  List.replicate (4 - digits.length) '0' ++ digits

/-- A character as it stands in a string. Only quotes, backslashes and controls are escaped. -/
def escapeChar (c : Char) : List Char :=
  match c with
  | '"' => ['\\', '"']
  | '\\' => ['\\', '\\']
  | '\x08' => ['\\', 'b']
  | '\t' => ['\\', 't']
  | '\n' => ['\\', 'n']
  | '\x0c' => ['\\', 'f']
  | '\r' => ['\\', 'r']
  | c => if c.toNat < 32 then '\\' :: 'u' :: fourDigits c.toNat else [c]

def quote (content : String) : String :=
  String.ofList ('"' :: (content.toList.flatMap escapeChar ++ ['"']))

/-! ### Layouts -/

inductive Layout where
  | compact
  | indented
deriving DecidableEq, Repr

namespace Layout

/-- What stands in front of an item or member at a depth of nesting. -/
def lineBreak : Layout → (depth : Nat) → String
  | compact, _ => ""
  | indented, depth => String.ofList ('\n' :: List.replicate (2 * depth) ' ')

/-- What stands between a key and its value. -/
def colon : Layout → String
  | compact => ":"
  | indented => ": "

/-- Rendered parts between brackets, which stand at `depth`. -/
def bracket (layout : Layout) (depth : Nat) (left right : String) (parts : List String) : String :=
  if parts.isEmpty then left ++ right
  else
    left ++ layout.lineBreak (depth + 1) ++
      ("," ++ layout.lineBreak (depth + 1)).intercalate parts ++ layout.lineBreak depth ++ right

end Layout

mutual

/-- A value that stands at a depth of nesting. -/
def renderAt (layout : Layout) (depth : Nat) : Json → String
  | null => "null"
  | bool true => "true"
  | bool false => "false"
  | number digits => digits
  | string content => quote content
  | array items => layout.bracket depth "[" "]" (renderItems layout (depth + 1) [] items)
  | object members =>
    layout.bracket depth "\x7b" "\x7d" (renderMembers layout (depth + 1) [] members)

/-- Items of an array; `before` holds the rendered ones, latest first. -/
def renderItems (layout : Layout) (depth : Nat) (before : List String) : List Json → List String
  | [] => before.reverse
  | item :: items => renderItems layout depth (renderAt layout depth item :: before) items

/-- Members of an object; `before` holds the rendered ones, latest first. -/
def renderMembers (layout : Layout) (depth : Nat) (before : List String) :
    List (String × Json) → List String
  | [] => before.reverse
  | (key, value) :: members =>
    renderMembers layout depth
      ((quote key ++ layout.colon ++ renderAt layout depth value) :: before) members

end

def render (layout : Layout) (value : Json) : String := renderAt layout 0 value

end Json

end Chiptune
