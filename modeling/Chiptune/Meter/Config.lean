import Chiptune.Json.Reader

/-!
# Meter settings

The level at which a bar is full, and the width of a full bar in pixels. Settings are exchanged as
JSON: an object with both settings, in which other members are ignored, or an array of the two.
-/

namespace Chiptune.Meter

structure Config where
  levelMax : UInt8 := 63
  widthMax : UInt16 := 120
deriving DecidableEq, Repr

namespace Config

/-- A whole number that is not negative and at most `limit`, written without point or exponent. -/
def natural? (limit : Nat) : Json → Option Nat
  | .number digits => (Literal.magnitude? 10 digits.toList).filter (· ≤ limit)
  | _ => none

def ofValues? (level width : Json) : Option Config := do
  let level ← natural? 255 level
  let width ← natural? 65535 width
  return ⟨UInt8.ofNat level, UInt16.ofNat width⟩

/-- The value of a member that must occur exactly once. -/
def member? (key : String) (members : List (String × Json)) : Option Json :=
  match members.filter (·.1 == key) with
  | [(_, value)] => some value
  | _ => none

def ofJson? : Json → Option Config
  | .object members => do
    let level ← member? "level_max" members
    let width ← member? "width_max" members
    ofValues? level width
  | .array [level, width] => ofValues? level width
  | _ => none

def parse? (text : List Char) : Option Config := do
  let value ← Json.parse? text
  ofJson? value

def toJson (config : Config) : Json :=
  .object [("level_max", .ofNat config.levelMax.toNat), ("width_max", .ofNat config.widthMax.toNat)]

end Config

end Chiptune.Meter
