import Chiptune.Json
import Chiptune.Literal

/-!
# Reading JSON

A text is cut into tokens, and a machine with a stack of open arrays and objects takes them one by
one. The reader is strict: no trailing commas, no comments, nothing but blanks around the value.
Nesting is not limited.

Escapes can spell half of a surrogate pair, which is no character. Such a string is of no use, and
is let pass: as a value, and as a key of an object that stands inside another value. Only the keys
of the outermost object have to be text, because its members are looked up by them.
-/

namespace Chiptune.Json

inductive Token where
  | leftBracket
  | rightBracket
  | leftBrace
  | rightBrace
  | comma
  | colon
  | null
  | bool (value : Bool)
  | number (digits : String)
  /-- A string, with whether all its escapes spell characters. -/
  | string (content : String) (sound : Bool)
deriving DecidableEq, Repr

/-! ### Strings -/

def fourHex? (a b c d : Char) : Option Nat := do
  let a ← Literal.hexDigit? a
  let b ← Literal.hexDigit? b
  let c ← Literal.hexDigit? c
  let d ← Literal.hexDigit? d
  return 4096 * a + 256 * b + 16 * c + d

def simpleEscape? : Char → Option Char
  | '"' => some '"'
  | '\\' => some '\\'
  | '/' => some '/'
  | 'b' => some '\x08'
  | 'f' => some '\x0c'
  | 'n' => some '\n'
  | 'r' => some '\r'
  | 't' => some '\t'
  | _ => none

/-- One character of a string, written as itself or as an escape. -/
inductive StringUnit where
  | character (c : Char)
  /-- A number of sixteen bits. -/
  | code (value : Nat)

/-- The units of a string after its opening quote, and the text after its closing quote. `read`
holds the units read, latest first. -/
def stringUnits (read : List StringUnit) : List Char → Option (List StringUnit × List Char)
  | [] => none
  | '"' :: rest => some (read.reverse, rest)
  | '\\' :: 'u' :: a :: b :: c :: d :: rest =>
    match fourHex? a b c d with
    | some value => stringUnits (.code value :: read) rest
    | none => none
  | '\\' :: escape :: rest =>
    match simpleEscape? escape with
    | some c => stringUnits (.character c :: read) rest
    | none => none
  | c :: rest =>
    if c.toNat < 32 || c == '\\' then none else stringUnits (.character c :: read) rest

theorem length_lt_of_stringUnits {read units : List StringUnit} {text rest : List Char}
    (hunits : stringUnits read text = some (units, rest)) : rest.length < text.length := by
  fun_induction stringUnits read text with
  | case1 => cases hunits
  | case2 =>
    cases hunits
    exact Nat.lt_succ_self _
  | case3 _ _ _ _ _ _ _ _ ih =>
    have := ih hunits
    simp only [List.length_cons]
    omega
  | case4 => cases hunits
  | case5 _ _ _ _ _ _ ih =>
    have := ih hunits
    simp only [List.length_cons]
    omega
  | case6 => cases hunits
  | case7 => cases hunits
  | case8 _ _ _ _ _ _ _ ih => exact Nat.lt_succ_of_lt (ih hunits)

def isHighSurrogate (value : Nat) : Bool := 0xD800 ≤ value && value ≤ 0xDBFF

def isLowSurrogate (value : Nat) : Bool := 0xDC00 ≤ value && value ≤ 0xDFFF

/-- The characters that units spell; none if half of a surrogate pair stands alone. `read` holds the
characters read, latest first. -/
def joinUnits (read : List Char) : List StringUnit → Option (List Char)
  | [] => some read.reverse
  | .character c :: rest => joinUnits (c :: read) rest
  | .code high :: .code low :: rest =>
    if isHighSurrogate high && isLowSurrogate low then
      joinUnits (Char.ofNat (0x10000 + 1024 * (high - 0xD800) + (low - 0xDC00)) :: read) rest
    else if isHighSurrogate high || isLowSurrogate high then none
    else joinUnits (Char.ofNat high :: read) (.code low :: rest)
  | .code value :: rest =>
    if isHighSurrogate value || isLowSurrogate value then none
    else joinUnits (Char.ofNat value :: read) rest

def stringToken (units : List StringUnit) : Token :=
  match joinUnits [] units with
  | some content => .string (String.ofList content) true
  | none => .string "" false

/-! ### Numbers -/

def isDigit (c : Char) : Bool := '0' ≤ c && c ≤ '9'

/-- Drops one or more digits. -/
def dropDigits? : List Char → Option (List Char)
  | c :: rest => if isDigit c then some (rest.dropWhile isDigit) else none
  | [] => none

/-- Drops the part of a number in front of a point: a zero, or digits that start with none. -/
def dropWhole? : List Char → Option (List Char)
  | '0' :: rest => some rest
  | text => dropDigits? text

def dropFraction? : List Char → Option (List Char)
  | '.' :: rest => dropDigits? rest
  | text => some text

def dropExponent? : List Char → Option (List Char)
  | mark :: rest =>
    if mark == 'e' || mark == 'E' then
      match rest with
      | '+' :: rest => dropDigits? rest
      | '-' :: rest => dropDigits? rest
      | rest => dropDigits? rest
    else some (mark :: rest)
  | [] => some []

def dropMinus : List Char → List Char
  | '-' :: rest => rest
  | text => text

/-- Whether a run of characters is a number as a whole. -/
def isNumber (text : List Char) : Bool :=
  (dropWhole? (dropMinus text) >>= dropFraction? >>= dropExponent?) == some []

/-- The characters that a number can hold. -/
def isNumberChar (c : Char) : Bool :=
  isDigit c || c == '-' || c == '+' || c == '.' || c == 'e' || c == 'E'

/-! ### Tokens -/

def isBlank (c : Char) : Bool := c == ' ' || c == '\t' || c == '\n' || c == '\r'

def punctuation? : Char → Option Token
  | '[' => some .leftBracket
  | ']' => some .rightBracket
  | '\x7b' => some .leftBrace
  | '\x7d' => some .rightBrace
  | ',' => some .comma
  | ':' => some .colon
  | _ => none

def nameToken? (name : List Char) : Option Token :=
  if name == ['n', 'u', 'l', 'l'] then some .null
  else if name == ['t', 'r', 'u', 'e'] then some (.bool true)
  else if name == ['f', 'a', 'l', 's', 'e'] then some (.bool false)
  else none

/-- The token that starts with `c`, and the text after it. -/
def nextToken? (c : Char) (rest : List Char) : Option (Token × List Char) :=
  match punctuation? c with
  | some token => some (token, rest)
  | none =>
    if c == '"' then
      (stringUnits [] rest).map fun (units, rest) => (stringToken units, rest)
    else if c == '-' || isDigit c then
      let digits := c :: rest.takeWhile isNumberChar
      if isNumber digits then some (.number (String.ofList digits), rest.dropWhile isNumberChar)
      else none
    else
      (nameToken? (c :: rest.takeWhile Char.isAlpha)).map (·, rest.dropWhile Char.isAlpha)

theorem length_le_of_nextToken? {c : Char} {rest rest' : List Char} {token : Token}
    (hnext : nextToken? c rest = some (token, rest')) : rest'.length ≤ rest.length := by
  unfold nextToken? at hnext
  split at hnext
  · cases hnext
    exact Nat.le_refl _
  · split at hnext
    · obtain ⟨⟨units, after⟩, hunits, heq⟩ := Option.map_eq_some_iff.mp hnext
      cases heq
      exact Nat.le_of_lt (length_lt_of_stringUnits hunits)
    · split at hnext
      · simp only [Option.ite_none_right_eq_some, Option.some.injEq, Prod.mk.injEq] at hnext
        rw [← hnext.2.2]
        exact (List.dropWhile_suffix _).length_le
      · obtain ⟨_, _, heq⟩ := Option.map_eq_some_iff.mp hnext
        cases heq
        exact (List.dropWhile_suffix _).length_le

/-- The tokens of a text in front of which the tokens `found` were read, latest first. -/
def tokensAfter (found : List Token) : List Char → Option (List Token)
  | [] => some found.reverse
  | c :: rest =>
    if isBlank c then tokensAfter found rest
    else
      match _hnext : nextToken? c rest with
      | none => none
      | some (token, rest') => tokensAfter (token :: found) rest'
termination_by text => text.length
decreasing_by
  · exact Nat.lt_succ_self _
  · exact Nat.lt_succ_of_le (length_le_of_nextToken? _hnext)

def tokens? (text : List Char) : Option (List Token) := tokensAfter [] text

/-! ### Values -/

/-- An array or object that is still open, with what was read of it, latest first. -/
inductive Frame where
  | items (items : List Json)
  | members (members : List (String × Json)) (key : String)

/-- Where the machine stands. -/
inductive State where
  /-- A value must come. -/
  | value (stack : List Frame)
  /-- An array was just opened. -/
  | firstItem (stack : List Frame)
  /-- An object was just opened. -/
  | firstKey (stack : List Frame)
  /-- Another key of the innermost object must come. -/
  | key (members : List (String × Json)) (stack : List Frame)
  /-- A colon must come after a key. -/
  | colon (members : List (String × Json)) (key : String) (stack : List Frame)
  /-- A value is complete. -/
  | complete (value : Json) (stack : List Frame)

def beginValue (stack : List Frame) : Token → Option State
  | .leftBracket => some (.firstItem stack)
  | .leftBrace => some (.firstKey stack)
  | .null => some (.complete .null stack)
  | .bool value => some (.complete (.bool value) stack)
  | .number digits => some (.complete (.number digits) stack)
  | .string content _ => some (.complete (.string content) stack)
  | _ => none

/-- Whether a string can be a key of an object around which `stack` is open. -/
def canBeKey (sound : Bool) (stack : List Frame) : Bool := sound || !stack.isEmpty

def step : State → Token → Option State
  | .value stack, token => beginValue stack token
  | .firstItem stack, .rightBracket => some (.complete (.array []) stack)
  | .firstItem stack, token => beginValue (.items [] :: stack) token
  | .firstKey stack, .rightBrace => some (.complete (.object []) stack)
  | .firstKey stack, .string content sound =>
    if canBeKey sound stack then some (.colon [] content stack) else none
  | .key members stack, .string content sound =>
    if canBeKey sound stack then some (.colon members content stack) else none
  | .colon members key stack, .colon => some (.value (.members members key :: stack))
  | .complete value (.items items :: stack), .comma =>
    some (.value (.items (value :: items) :: stack))
  | .complete value (.items items :: stack), .rightBracket =>
    some (.complete (.array (value :: items).reverse) stack)
  | .complete value (.members members key :: stack), .comma =>
    some (.key ((key, value) :: members) stack)
  | .complete value (.members members key :: stack), .rightBrace =>
    some (.complete (.object ((key, value) :: members).reverse) stack)
  | _, _ => none

/-- The value that a text spells. -/
def parse? (text : List Char) : Option Json := do
  let tokens ← tokens? text
  match ← tokens.foldlM step (.value []) with
  | .complete value [] => some value
  | _ => none

end Chiptune.Json
