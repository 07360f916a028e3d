import Chiptune.Meter.Config
import Chiptune.Meter.Simple

/-!
# The smoothed meter

A follower for drawing bars. Its envelope falls by an eighth of the gap to the sample, and one more,
each tick. The level is scaled to pixels and 1/256ths of a pixel. A phase counts the ticks modulo
256, and the bar is drawn one pixel wider while the fraction is above the phase, so that over a full
sweep of the phase the average width is exact.
-/

namespace Chiptune.Meter

/-- A width in whole pixels and 1/256ths of a pixel. -/
structure BarWidth where
  pixels : UInt16
  fraction : UInt8
deriving DecidableEq, Repr

/-- A level on the scale on which the highest level is a full bar. -/
def scale (config : Config) (level : UInt8) : BarWidth :=
  if config.levelMax = 0 then ⟨0, 0⟩
  else
    let level := min level config.levelMax
    let width : UInt32 :=
      level.toUInt32 * config.widthMax.toUInt32 * 256 / config.levelMax.toUInt32
    ⟨(width >>> 8).toUInt16, width.toUInt8⟩

structure Smoothed where
  config : Config
  envelope : UInt16
  phase : UInt8
deriving DecidableEq, Repr

namespace Smoothed

def init (config : Config) : Smoothed := ⟨config, 0, 0⟩

def reset (meter : Smoothed) : Smoothed := init meter.config

def level (meter : Smoothed) : UInt8 :=
  (min (meter.envelope >>> 8) meter.config.levelMax.toUInt16).toUInt8

/-- The exact width for the current level. -/
def barWidth (meter : Smoothed) : BarWidth := scale meter.config meter.level

/-- The envelope after a tick with a sample. -/
def follow (envelope : UInt16) (sample : UInt8) : UInt16 :=
  if envelope ≤ target sample then target sample
  else saturatingSub envelope (((envelope - target sample) >>> 3) + 1)

/-- The whole number of pixels drawn at a phase. -/
def shownWidth (width : BarWidth) (phase : UInt8) : UInt16 :=
  if phase < width.fraction then width.pixels + 1 else width.pixels

/-- One tick with a sample: the width drawn and the meter after it. -/
def step (meter : Smoothed) (sample : UInt8) : UInt16 × Smoothed :=
  let followed := { meter with envelope := follow meter.envelope sample }
  (shownWidth followed.barWidth meter.phase, { followed with phase := meter.phase + 1 })

end Smoothed

end Chiptune.Meter
