/-!
# The simple meter

A follower with instant attack. Its envelope is a level in 1/256ths. A sample at or above the
envelope replaces it; otherwise the envelope loses a sixteenth of itself, and one more, each tick.
-/

namespace Chiptune.Meter

/-- Subtraction that stops at zero. -/
def saturatingSub (left right : UInt16) : UInt16 := if left ≤ right then 0 else left - right

/-- A sample on the scale of an envelope. -/
def target (sample : UInt8) : UInt16 := sample.toUInt16 <<< 8

structure Simple where
  envelope : UInt16
deriving DecidableEq, Repr

namespace Simple

/-- The highest level shown. -/
def levelMax : UInt8 := 63

def init : Simple := ⟨0⟩

def level (meter : Simple) : UInt8 := min (meter.envelope >>> 8).toUInt8 levelMax

/-- One tick with a sample. The level shown is that of the meter after it. -/
def step (meter : Simple) (sample : UInt8) : Simple :=
  if meter.envelope ≤ target sample then ⟨target sample⟩
  else ⟨saturatingSub meter.envelope ((meter.envelope >>> 4) + 1)⟩

end Simple

end Chiptune.Meter
