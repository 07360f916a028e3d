import Chiptune.Proofs.Meter.Exact
import Mathlib.Data.List.Forall2

/-!
# Louder signals never show shorter bars

Two smoothed meters with the same settings and the same phase are compared, one of them with the
higher envelope and fed with samples at least as high. `Smoothed.ticks_ordered` says that it stays
ahead on every tick, in its envelope, in its level and in the width that it draws.

The step is where it could fail, since one meter may rise to its sample while the other decays, and
the faster decay is that of the meter with the wider gap. `follow_mono` settles it: a gap that is wider
by one decays by at most one more.
-/

namespace Chiptune.Meter.Smoothed

/-- After a tick the envelope is at least the sample. -/
theorem le_follow (envelope : UInt16) (sample : UInt8) :
    256 * sample.toNat ≤ (follow envelope sample).toNat := by
  rw [toNat_follow]
  split
  · exact Nat.le_refl _
  · omega

/-- After a tick the envelope is at most the higher one of the sample and where it was. -/
theorem follow_le_max (envelope : UInt16) (sample : UInt8) :
    (follow envelope sample).toNat ≤ max (256 * sample.toNat) envelope.toNat := by
  rw [toNat_follow]
  split
  · exact Nat.le_max_left _ _
  · exact Nat.le_trans (Nat.sub_le _ _) (Nat.le_max_right _ _)

theorem follow_mono {envelope envelope' : UInt16} {sample sample' : UInt8}
    (henvelope : envelope ≤ envelope') (hsample : sample ≤ sample') :
    follow envelope sample ≤ follow envelope' sample' := by
  rw [UInt16.le_iff_toNat_le] at henvelope ⊢
  rw [UInt8.le_iff_toNat_le] at hsample
  by_cases hrises : envelope.toNat ≤ 256 * sample.toNat
  · -- The quieter meter stands at its sample, which the louder one does not fall below.
    calc (follow envelope sample).toNat = 256 * sample.toNat := by rw [toNat_follow, if_pos hrises]
      _ ≤ 256 * sample'.toNat := Nat.mul_le_mul_left 256 hsample
      _ ≤ (follow envelope' sample').toNat := le_follow envelope' sample'
  · rw [toNat_follow, toNat_follow, if_neg hrises]
    split
    · -- The louder meter rises, so it ends above where the quieter one was before it fell.
      omega
    · omega

/-- Settings and phase are the same, and the envelope is not above the other one. -/
structure IsBelow (lower upper : Smoothed) : Prop where
  config_eq : lower.config = upper.config
  phase_eq : lower.phase = upper.phase
  envelope_le : lower.envelope ≤ upper.envelope

section

variable {lower upper : Smoothed}

theorem IsBelow.level_le (hbelow : IsBelow lower upper) : lower.level ≤ upper.level := by
  have henvelope := UInt16.le_iff_toNat_le.1 hbelow.envelope_le
  rw [UInt8.le_iff_toNat_le, toNat_level, toNat_level, hbelow.config_eq]
  omega

variable {sample sample' : UInt8} (hbelow : IsBelow lower upper) (hsample : sample ≤ sample')

include hbelow hsample

theorem IsBelow.step : IsBelow (lower.step sample).2 (upper.step sample').2 where
  config_eq := hbelow.config_eq
  phase_eq := congrArg (· + 1) hbelow.phase_eq
  envelope_le := follow_mono hbelow.envelope_le hsample

theorem IsBelow.width_le : (lower.step sample).1 ≤ (upper.step sample').1 := by
  have hlevel := UInt8.le_iff_toNat_le.1 (hbelow.step hsample).level_le
  have hwidth := exactWidth_mono upper.config hlevel
  rw [UInt16.le_iff_toNat_le, toNat_step, toNat_step, hbelow.config_eq, hbelow.phase_eq]
  exact Nat.div_le_div_right (Nat.add_le_add_right hwidth _)

end

/-- A meter that is not below another one and is not fed with less stays ahead of it on every tick, in
envelope, level and width. Each tick leaves an envelope between the sample and the higher of sample and
envelope before. -/
theorem ticks_ordered {lower upper : Smoothed} {samples samples' : List UInt8}
    (hbelow : IsBelow lower upper) (hsamples : List.Forall₂ (· ≤ ·) samples samples') :
    List.Forall₂ (fun tick tick' => tick.2.envelope ≤ tick'.2.envelope ∧
        tick.2.level ≤ tick'.2.level ∧ tick.1 ≤ tick'.1)
      (lower.ticks samples) (upper.ticks samples') ∧
    ∀ (meter : Smoothed) (sample : UInt8),
      256 * sample.toNat ≤ (meter.step sample).2.envelope.toNat ∧
      (meter.step sample).2.envelope.toNat ≤ max (256 * sample.toNat) meter.envelope.toNat := by
  constructor
  · induction hsamples generalizing lower upper with
    | nil => exact .nil
    | cons hsample _ ih =>
      have hstep := hbelow.step hsample
      exact .cons ⟨hstep.envelope_le, hstep.level_le, hbelow.width_le hsample⟩ (ih hstep)
  · intro meter sample
    rw [envelope_step]
    exact ⟨le_follow meter.envelope sample, follow_le_max meter.envelope sample⟩

/-- The louder meter decays to its first sample while the quieter one rises to its own. -/
theorem ticks_ordered_crossing :
    IsBelow ⟨{}, 100, 30⟩ ⟨{}, 15000, 30⟩ ∧
    List.Forall₂ (fun tick tick' => tick.2.envelope ≤ tick'.2.envelope ∧
        tick.2.level ≤ tick'.2.level ∧ tick.1 ≤ tick'.1)
      (ticks ⟨{}, 100, 30⟩ [40, 0]) (ticks ⟨{}, 15000, 30⟩ [41, 3]) := by
  have hbelow : IsBelow ⟨{}, 100, 30⟩ ⟨{}, 15000, 30⟩ := ⟨rfl, rfl, by decide⟩
  exact ⟨hbelow, (ticks_ordered hbelow (.cons (by decide) (.cons (by decide) .nil))).1⟩

end Chiptune.Meter.Smoothed
