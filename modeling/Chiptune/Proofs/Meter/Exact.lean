import Chiptune.Meter.Smoothed
import Mathlib.Data.UInt

/-!
# The smoothed meter in plain numbers

The meter works on words of 8, 16 and 32 bits. Here each of its steps is read as a step on natural
numbers, with no reduction anywhere: the envelope (`toNat_follow`), the level (`toNat_level`), the
width in 1/256ths of a pixel (`exactWidth`) and the width drawn (`toNat_shownWidth`). The last one is
a single division: the phase decides from which 1/256th on a pixel counts as covered.

What is proved of the meter later on is proved of these numbers.
-/

namespace Chiptune.Meter

theorem toNat_target (sample : UInt8) : (target sample).toNat = 256 * sample.toNat := by
  have hsample := sample.toNat_lt
  rw [target, UInt16.toNat_shiftLeft, UInt8.toNat_toUInt16, Nat.shiftLeft_eq]
  show sample.toNat * 256 % 65536 = _
  omega

theorem saturatingSub_eq {left right : UInt16} (hle : right ≤ left) :
    saturatingSub left right = left - right := by
  rw [saturatingSub]
  split
  · next hle' => rw [UInt16.le_antisymm hle hle', UInt16.sub_self]
  · rfl

/-- The top byte of an envelope is the level in it. -/
theorem toNat_topByte (envelope : UInt16) : (envelope >>> 8).toNat = envelope.toNat / 256 := by
  rw [UInt16.toNat_shiftRight]
  exact Nat.shiftRight_eq_div_pow _ 8

namespace Smoothed

/-! ### The envelope -/

section

variable {envelope : UInt16} {sample : UInt8} (habove : target sample < envelope)

include habove

theorem toNat_gap : (envelope - target sample).toNat = envelope.toNat - 256 * sample.toNat := by
  rw [UInt16.toNat_sub_of_le _ _ (UInt16.le_of_lt habove), toNat_target]

theorem toNat_eighth : ((envelope - target sample) >>> 3).toNat =
    (envelope.toNat - 256 * sample.toNat) / 8 := by
  rw [UInt16.toNat_shiftRight, toNat_gap habove]
  exact Nat.shiftRight_eq_div_pow _ 3

theorem toNat_decay : (((envelope - target sample) >>> 3) + 1).toNat =
    (envelope.toNat - 256 * sample.toNat) / 8 + 1 := by
  have henvelope := envelope.toNat_lt
  rw [UInt16.toNat_add, toNat_eighth habove]
  show ((envelope.toNat - 256 * sample.toNat) / 8 + 1) % 65536 = _
  omega

/-- The envelope never falls past the sample, so there is something to take the decay from. -/
theorem decay_le : ((envelope - target sample) >>> 3) + 1 ≤ envelope := by
  have hlt := UInt16.lt_iff_toNat_lt.1 habove
  rw [toNat_target] at hlt
  rw [UInt16.le_iff_toNat_le, toNat_decay habove]
  omega

end

theorem toNat_follow (envelope : UInt16) (sample : UInt8) :
    (follow envelope sample).toNat =
      if envelope.toNat ≤ 256 * sample.toNat then 256 * sample.toNat
      else envelope.toNat - ((envelope.toNat - 256 * sample.toNat) / 8 + 1) := by
  by_cases hle : envelope ≤ target sample
  · have hle' := UInt16.le_iff_toNat_le.1 hle
    rw [toNat_target] at hle'
    rw [follow, if_pos hle, if_pos hle', toNat_target]
  · have habove : target sample < envelope := UInt16.not_le.1 hle
    have hle' : ¬ envelope.toNat ≤ 256 * sample.toNat := by
      rwa [UInt16.le_iff_toNat_le, toNat_target] at hle
    rw [follow, if_neg hle, if_neg hle', saturatingSub_eq (decay_le habove),
      UInt16.toNat_sub_of_le _ _ (decay_le habove), toNat_decay habove]

/-! ### The level -/

theorem toNat_level (meter : Smoothed) :
    meter.level.toNat = min (meter.envelope.toNat / 256) meter.config.levelMax.toNat := by
  have hmax := meter.config.levelMax.toNat_lt
  rw [level, UInt16.toNat_toUInt8, UInt16.toNat_min, toNat_topByte, UInt8.toNat_toUInt16]
  omega

theorem level_le (meter : Smoothed) : meter.level.toNat ≤ meter.config.levelMax.toNat := by
  rw [toNat_level]
  exact Nat.min_le_right _ _

end Smoothed

/-! ### The width -/

/-- The width of a level in 1/256ths of a pixel. Where the highest level is 0 there is no bar: division
by 0 is 0. -/
def exactWidth (config : Config) (level : UInt8) : Nat :=
  min level.toNat config.levelMax.toNat * config.widthMax.toNat * 256 / config.levelMax.toNat

variable (config : Config)

theorem exactWidth_mono {lower upper : UInt8} (hle : lower.toNat ≤ upper.toNat) :
    exactWidth config lower ≤ exactWidth config upper := by
  have hlevel : min lower.toNat config.levelMax.toNat ≤ min upper.toNat config.levelMax.toNat := by
    omega
  exact Nat.div_le_div_right (Nat.mul_le_mul_right 256 (Nat.mul_le_mul_right _ hlevel))

theorem exactWidth_zero : exactWidth config 0 = 0 := by
  simp [exactWidth]

theorem exactWidth_levelMax (hmax : config.levelMax.toNat ≠ 0) :
    exactWidth config config.levelMax = 256 * config.widthMax.toNat := by
  rw [exactWidth, Nat.min_self, Nat.mul_assoc, Nat.mul_div_cancel_left _ (Nat.pos_of_ne_zero hmax),
    Nat.mul_comm]

theorem exactWidth_le (level : UInt8) : exactWidth config level ≤ 256 * config.widthMax.toNat := by
  by_cases hmax : config.levelMax.toNat = 0
  · rw [exactWidth, hmax, Nat.div_zero]
    exact Nat.zero_le _
  · rw [exactWidth]
    apply Nat.div_le_of_le_mul
    have hlevel : min level.toNat config.levelMax.toNat ≤ config.levelMax.toNat := Nat.min_le_right _ _
    calc min level.toNat config.levelMax.toNat * config.widthMax.toNat * 256
        ≤ config.levelMax.toNat * config.widthMax.toNat * 256 :=
          Nat.mul_le_mul_right 256 (Nat.mul_le_mul_right _ hlevel)
      _ = config.levelMax.toNat * (256 * config.widthMax.toNat) := by
          rw [Nat.mul_assoc, Nat.mul_comm config.widthMax.toNat]

theorem pixels_le (level : UInt8) : exactWidth config level / 256 ≤ config.widthMax.toNat := by
  have hle := exactWidth_le config level
  omega

/-- A fraction is left over only where the bar is not full, so one more pixel fits. -/
theorem pixels_lt {level : UInt8} (hfraction : exactWidth config level % 256 ≠ 0) :
    exactWidth config level / 256 < config.widthMax.toNat := by
  have hle := exactWidth_le config level
  omega

/-- The product stays below 2 ^ 32, if only just: 255 * 65535 * 256 is 4278124800. -/
theorem product_lt (level : UInt8) (width : UInt16) :
    level.toNat * width.toNat * 256 < 2 ^ 32 := by
  have hlevel : level.toNat ≤ 255 := Nat.le_of_lt_succ level.toNat_lt
  have hwidth : width.toNat ≤ 65535 := Nat.le_of_lt_succ width.toNat_lt
  have hproduct : level.toNat * width.toNat ≤ 255 * 65535 := Nat.mul_le_mul hlevel hwidth
  omega

theorem toNat_mul_width (level : UInt8) (width : UInt16) :
    (level.toUInt32 * width.toUInt32).toNat = level.toNat * width.toNat := by
  have hlt := product_lt level width
  rw [UInt32.toNat_mul, UInt8.toNat_toUInt32, UInt16.toNat_toUInt32, Nat.mod_eq_of_lt (by omega)]

theorem toNat_product (level : UInt8) (width : UInt16) :
    (level.toUInt32 * width.toUInt32 * 256).toNat = level.toNat * width.toNat * 256 := by
  rw [UInt32.toNat_mul, toNat_mul_width]
  exact Nat.mod_eq_of_lt (product_lt level width)

/-- The 32-bit quotient from which a width is cut is the exact width. -/
theorem toNat_quotient (level : UInt8) :
    ((min level config.levelMax).toUInt32 * config.widthMax.toUInt32 * 256 /
      config.levelMax.toUInt32).toNat = exactWidth config level := by
  rw [UInt32.toNat_div, toNat_product, UInt8.toNat_toUInt32, UInt8.toNat_min, exactWidth]

theorem toNat_pixels (level : UInt8) :
    (((min level config.levelMax).toUInt32 * config.widthMax.toUInt32 * 256 /
      config.levelMax.toUInt32) >>> 8).toNat = exactWidth config level / 256 := by
  rw [UInt32.toNat_shiftRight, toNat_quotient]
  exact Nat.shiftRight_eq_div_pow _ 8

theorem toNat_scale (level : UInt8) :
    (scale config level).pixels.toNat = exactWidth config level / 256 ∧
      (scale config level).fraction.toNat = exactWidth config level % 256 := by
  by_cases hmax : config.levelMax = 0
  · have hnone : exactWidth config level = 0 := by
      rw [exactWidth, hmax]
      exact Nat.div_zero _
    rw [scale, if_pos hmax, hnone]
    exact ⟨rfl, rfl⟩
  · have hpixels := pixels_le config level
    have hwidth := config.widthMax.toNat_lt
    rw [scale, if_neg hmax]
    constructor
    · rw [UInt32.toNat_toUInt16, toNat_pixels, Nat.mod_eq_of_lt (by omega)]
    · rw [UInt32.toNat_toUInt8, toNat_quotient]

/-- A pixel is drawn if more than `phase` of its 256 parts are covered. -/
theorem toNat_shownWidth (level phase : UInt8) :
    (Smoothed.shownWidth (scale config level) phase).toNat =
      (exactWidth config level + (255 - phase.toNat)) / 256 := by
  obtain ⟨hpixels, hfraction⟩ := toNat_scale config level
  have hphase := phase.toNat_lt
  rw [Smoothed.shownWidth]
  split
  · next hextra =>
    rw [UInt8.lt_iff_toNat_lt, hfraction] at hextra
    have hlt : exactWidth config level / 256 < config.widthMax.toNat := pixels_lt config (by omega)
    have hwidth := config.widthMax.toNat_lt
    rw [UInt16.toNat_add, hpixels, UInt16.toNat_one, Nat.mod_eq_of_lt (by omega)]
    omega
  · next hextra =>
    rw [UInt8.lt_iff_toNat_lt, hfraction] at hextra
    rw [hpixels]
    omega

/-! ### Ticks -/

namespace Smoothed

@[simp] theorem config_step (meter : Smoothed) (sample : UInt8) :
    (meter.step sample).2.config = meter.config := rfl

@[simp] theorem phase_step (meter : Smoothed) (sample : UInt8) :
    (meter.step sample).2.phase = meter.phase + 1 := rfl

@[simp] theorem envelope_step (meter : Smoothed) (sample : UInt8) :
    (meter.step sample).2.envelope = follow meter.envelope sample := rfl

/-- The width drawn belongs to the level after the tick and the phase before it. -/
theorem toNat_step (meter : Smoothed) (sample : UInt8) :
    (meter.step sample).1.toNat =
      (exactWidth meter.config (meter.step sample).2.level + (255 - meter.phase.toNat)) / 256 :=
  toNat_shownWidth meter.config _ meter.phase

/-- What a meter does with samples one after the other: the width drawn at each and the meter after
it. -/
def ticks (meter : Smoothed) : List UInt8 → List (UInt16 × Smoothed)
  | [] => []
  | sample :: samples => meter.step sample :: ticks (meter.step sample).2 samples

end Smoothed

end Chiptune.Meter
