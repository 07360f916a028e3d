import Chiptune.Proofs.Meter.Exact

/-!
# What the simple meter shows of its samples

The simple meter on natural numbers, and how close it stays to what it is fed with. It rises to a
sample at once, but it falls by a share of its own envelope, whatever the sample is, and so it can
fall past a sample that is only a little lower. `Simple.level_falling` is such a case.

`Simple.level_step_bounds` says how far that goes. The level is never off by more than a sixteenth
of the sample, and a sample that is not lower brings it back on the next tick.
-/

namespace Chiptune.Meter.Simple

/-! ### Plain numbers -/

theorem toNat_decay (envelope : UInt16) :
    ((envelope >>> 4) + 1).toNat = envelope.toNat / 16 + 1 := by
  have hshift : (envelope >>> 4).toNat = envelope.toNat / 16 := by
    rw [UInt16.toNat_shiftRight]
    exact Nat.shiftRight_eq_div_pow _ 4
  have henvelope := envelope.toNat_lt
  rw [UInt16.toNat_add, hshift]
  show (envelope.toNat / 16 + 1) % 65536 = _
  omega

theorem decay_le {envelope : UInt16} (hpos : 0 < envelope.toNat) :
    (envelope >>> 4) + 1 ≤ envelope := by
  rw [UInt16.le_iff_toNat_le, toNat_decay]
  omega

theorem envelope_step_of_le {meter : Simple} {sample : UInt8}
    (hle : meter.envelope.toNat ≤ 256 * sample.toNat) :
    (meter.step sample).envelope.toNat = 256 * sample.toNat := by
  have hle' : meter.envelope ≤ target sample := by
    rwa [UInt16.le_iff_toNat_le, toNat_target]
  rw [step, if_pos hle', toNat_target]

/-- Above the sample there is something to take the decay from, and all of it is taken. -/
theorem envelope_step_of_lt {meter : Simple} {sample : UInt8}
    (hlt : 256 * sample.toNat < meter.envelope.toNat) :
    (meter.step sample).envelope.toNat + (meter.envelope.toNat / 16 + 1) =
      meter.envelope.toNat := by
  have hlt' : ¬ meter.envelope ≤ target sample := by
    rw [UInt16.le_iff_toNat_le, toNat_target]
    exact Nat.not_le.2 hlt
  have hdecay := decay_le (Nat.zero_lt_of_lt hlt)
  have hle := UInt16.le_iff_toNat_le.1 hdecay
  rw [toNat_decay] at hle
  rw [step, if_neg hlt', saturatingSub_eq hdecay, UInt16.toNat_sub_of_le _ _ hdecay, toNat_decay]
  exact Nat.sub_add_cancel hle

theorem toNat_level (meter : Simple) :
    meter.level.toNat = min (meter.envelope.toNat / 256) 63 := by
  have henvelope := meter.envelope.toNat_lt
  rw [level, UInt8.toNat_min, UInt16.toNat_toUInt8, toNat_topByte]
  show min (meter.envelope.toNat / 256 % 256) 63 = _
  omega

/-! ### How far the level can be off -/

variable (meter : Simple) (sample : UInt8)

/-- After a tick the envelope is at least fifteen sixteenths of the sample. -/
theorem le_envelope_step : 240 * sample.toNat ≤ (meter.step sample).envelope.toNat := by
  by_cases hle : meter.envelope.toNat ≤ 256 * sample.toNat
  · rw [envelope_step_of_le hle]
    omega
  · have hdecay := envelope_step_of_lt (Nat.lt_of_not_le hle)
    omega

variable {meter sample}

theorem level_step_of_le (hle : meter.envelope.toNat ≤ 256 * sample.toNat) :
    (meter.step sample).level.toNat = min sample.toNat 63 := by
  rw [toNat_level, envelope_step_of_le hle, Nat.mul_div_cancel_left _ (by decide)]

/-- A tick shows its sample in full if the sample is not below the envelope, or if the decay does
not go past it. -/
theorem sample_le_level_step_iff :
    min sample.toNat 63 ≤ (meter.step sample).level.toNat ↔
      meter.envelope.toNat ≤ 256 * sample.toNat ∨
      256 * min sample.toNat 63 + (meter.envelope.toNat / 16 + 1) ≤ meter.envelope.toNat := by
  by_cases hle : meter.envelope.toNat ≤ 256 * sample.toNat
  · simp only [level_step_of_le hle, hle, true_or, le_refl]
  · have hdecay := envelope_step_of_lt (Nat.lt_of_not_le hle)
    rw [toNat_level]
    omega

/-- A level below the sample comes with an envelope below it, so the next sample is risen to. -/
theorem level_step_step {next : UInt8} (hnext : sample ≤ next)
    (hbelow : (meter.step sample).level.toNat < min sample.toNat 63) :
    ((meter.step sample).step next).level.toNat = min next.toNat 63 := by
  have hsample := UInt8.le_iff_toNat_le.1 hnext
  rw [toNat_level] at hbelow
  exact level_step_of_le (by omega)

/-- From whatever state, a tick shows at least fifteen sixteenths of its sample, up to the highest
level. It shows all of it unless the envelope is above the sample and the decay goes past it. If it
does not, it shows all of the next sample that is not lower. -/
theorem level_step_bounds (meter : Simple) (sample : UInt8) :
    min (15 * sample.toNat / 16) 63 ≤ (meter.step sample).level.toNat ∧
    (min sample.toNat 63 ≤ (meter.step sample).level.toNat ↔
      meter.envelope.toNat ≤ 256 * sample.toNat ∨
      256 * min sample.toNat 63 + (meter.envelope.toNat / 16 + 1) ≤ meter.envelope.toNat) ∧
    ∀ next, sample ≤ next → (meter.step sample).level.toNat < min sample.toNat 63 →
      ((meter.step sample).step next).level.toNat = min next.toNat 63 := by
  refine ⟨?_, sample_le_level_step_iff, fun next => level_step_step⟩
  have hle := le_envelope_step meter sample
  rw [toNat_level]
  omega

/-- A sample of 62 after one of 63 is shown as less. -/
theorem level_falling : ¬ min 62 63 ≤ ((init.step 63).step 62).level := by decide

/-- When the sample comes again, it is shown in full. -/
theorem level_step_bounds_falling :
    ((init.step 63).step 62).level.toNat = 59 ∧
    (((init.step 63).step 62).step 62).level.toNat = 62 := by
  obtain ⟨-, -, hback⟩ := level_step_bounds (init.step 63) 62
  exact ⟨by decide, hback 62 (by decide) (by decide)⟩

end Chiptune.Meter.Simple
