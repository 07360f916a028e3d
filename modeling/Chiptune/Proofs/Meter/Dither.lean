import Chiptune.Proofs.Meter.Exact
import Mathlib.Algebra.Order.Floor.Div
import Mathlib.Data.Nat.Periodic

/-!
# The average width over a sweep of the phase

A bar is drawn in whole pixels, and the pixel that is covered in part is drawn on some ticks and left
out on others. `Smoothed.sum_widths_of_sweep` says that over 256 ticks in a row at one level nothing is
lost: the widths add up to the exact width in 1/256ths of a pixel.

It does not matter at which phase the ticks begin. The phase starts over after 256 ticks, so a window
of that many ticks has every phase in it once (`countP_window`), and the partly covered pixel
is drawn at as many of them as the fraction says.
-/

namespace Chiptune.Meter

/-! ### The width of a level that is not clamped -/

section

variable {config : Config} {level : UInt8} (hlevel : level.toNat ≤ config.levelMax.toNat)

include hlevel

theorem exactWidth_eq : exactWidth config level =
    level.toNat * config.widthMax.toNat * 256 / config.levelMax.toNat := by
  rw [exactWidth, Nat.min_eq_left hlevel]

/-- The whole pixels are the width rounded down. -/
theorem exactWidth_div : exactWidth config level / 256 =
    level.toNat * config.widthMax.toNat / config.levelMax.toNat := by
  rw [exactWidth_eq hlevel, Nat.div_div_eq_div_mul, Nat.mul_div_mul_right _ _ (by decide)]

/-- With a pixel covered in part, one more than the whole pixels is the width rounded up. -/
theorem exactWidth_div_succ (hfraction : exactWidth config level % 256 ≠ 0) :
    exactWidth config level / 256 + 1 =
      (level.toNat * config.widthMax.toNat) ⌈/⌉ config.levelMax.toNat := by
  have hmax : 0 < config.levelMax.toNat := by
    apply Nat.pos_of_ne_zero
    intro hzero
    rw [exactWidth, hzero, Nat.div_zero] at hfraction
    exact hfraction rfl
  have hwhole := exactWidth_div hlevel
  rw [exactWidth_eq hlevel] at hfraction
  rw [hwhole]
  generalize level.toNat * config.widthMax.toNat = product at hfraction
  apply Nat.le_antisymm
  · apply Nat.succ_le_of_lt
    apply Nat.lt_of_not_le
    intro hle
    rw [ceilDiv_le_iff_le_mul hmax] at hle
    -- No more than the whole pixels: then they are the whole width, and no fraction is left.
    have hexact : product = config.levelMax.toNat * (product / config.levelMax.toNat) :=
      Nat.le_antisymm hle (Nat.mul_div_le _ _)
    rw [hexact, Nat.mul_assoc, Nat.mul_div_cancel_left _ hmax, Nat.mul_mod_left] at hfraction
    exact hfraction rfl
  · rw [ceilDiv_le_iff_le_mul hmax]
    exact (Nat.lt_mul_div_succ product hmax).le

end

/-! ### Every phase once -/

theorem countP_window (start : Nat) {fraction : Nat} (hfraction : fraction ≤ 256) :
    (List.range' start 256).countP (fun moment => moment % 256 < fraction) = fraction := by
  have hperiodic : Function.Periodic (fun moment => moment % 256 < fraction) 256 := by
    intro moment
    show ((moment + 256) % 256 < fraction) = _
    rw [Nat.add_mod_right]
  have hlist : Multiset.Ico start (start + 256) = ↑(List.range' start 256) := by
    show ((List.range' start (start + 256 - start) : List Nat) : Multiset Nat) = _
    rw [Nat.add_sub_cancel_left]
  have hfirst : (Finset.range 256).filter (fun moment => moment % 256 < fraction) =
      Finset.range fraction := by
    ext moment
    rw [Finset.mem_filter, Finset.mem_range, Finset.mem_range]
    omega
  calc (List.range' start 256).countP (fun moment => moment % 256 < fraction)
      = ((Multiset.Ico start (start + 256)).filter (fun moment => moment % 256 < fraction)).card := by
        rw [hlist, List.countP_eq_length_filter]
        rfl
    _ = Nat.count (fun moment => moment % 256 < fraction) 256 :=
        Nat.filter_multiset_Ico_card_eq_of_periodic start 256 _ hperiodic
    _ = fraction := by
        rw [Nat.count_eq_card_filter_range, hfirst, Finset.card_range]

/-! ### Ticks at one level -/

namespace Smoothed

/-- Whether a tick draws the pixel that its width covers only in part. -/
def drawsExtra (tick : UInt16 × Smoothed) : Bool := tick.2.barWidth.pixels < tick.1

theorem drawsExtra_step (meter : Smoothed) (sample : UInt8) :
    drawsExtra (meter.step sample) =
      decide (meter.phase.toNat < (meter.step sample).2.barWidth.fraction.toNat) := by
  obtain ⟨hpixels, hfraction⟩ := toNat_scale meter.config (meter.step sample).2.level
  have hphase := meter.phase.toNat_lt
  rw [drawsExtra, decide_eq_decide, UInt16.lt_iff_toNat_lt, toNat_step, barWidth, config_step,
    hpixels, hfraction]
  omega

theorem toNat_step_eq (meter : Smoothed) (sample : UInt8) :
    (meter.step sample).1.toNat = (meter.step sample).2.barWidth.pixels.toNat +
      if drawsExtra (meter.step sample) then 1 else 0 := by
  obtain ⟨hpixels, hfraction⟩ := toNat_scale meter.config (meter.step sample).2.level
  have hphase := meter.phase.toNat_lt
  rw [drawsExtra_step, toNat_step, barWidth, config_step, hpixels, hfraction]
  simp only [decide_eq_true_eq]
  split
  · omega
  · omega

theorem exists_step_of_mem_ticks {meter : Smoothed} {samples : List UInt8}
    {tick : UInt16 × Smoothed} (htick : tick ∈ meter.ticks samples) :
    ∃ (before : Smoothed) (sample : UInt8), before.config = meter.config ∧
      tick = before.step sample := by
  induction samples generalizing meter with
  | nil => cases htick
  | cons sample samples ih =>
    obtain rfl | hlater := List.mem_cons.1 htick
    · exact ⟨meter, sample, rfl, rfl⟩
    · have hbefore := ih hlater
      exact hbefore

theorem phase_getLast?_ticks (meter : Smoothed) (sample : UInt8) (samples : List UInt8) :
    (meter.ticks (sample :: samples)).getLast?.map (·.2.phase) =
      some (meter.phase + UInt8.ofNat (samples.length + 1)) := by
  induction samples generalizing meter sample with
  | nil => rfl
  | cons next samples ih =>
    have hnext := ih (meter.step sample).2 next
    rw [ticks] at hnext
    rw [ticks, ticks, List.getLast?_cons_cons, hnext, phase_step, List.length_cons,
      UInt8.ofNat_add (samples.length + 1), UInt8.add_assoc, UInt8.add_comm 1]
    rfl

section

variable {meter : Smoothed} {samples : List UInt8} {level : UInt8}
  (hlevel : ∀ tick ∈ meter.ticks samples, tick.2.level = level)

include hlevel

theorem barWidth_of_mem_ticks {tick : UInt16 × Smoothed} (htick : tick ∈ meter.ticks samples) :
    tick.2.barWidth = scale meter.config level := by
  obtain ⟨before, sample, hconfig, rfl⟩ := exists_step_of_mem_ticks htick
  rw [barWidth, hlevel _ htick, config_step, hconfig]

theorem countP_drawsExtra {start : Nat} (hstart : meter.phase.toNat = start % 256) :
    (meter.ticks samples).countP drawsExtra = (List.range' start samples.length).countP
      (fun moment => moment % 256 < (scale meter.config level).fraction.toNat) := by
  induction samples generalizing meter start with
  | nil => rfl
  | cons sample samples ih =>
    have hwidth := barWidth_of_mem_ticks hlevel List.mem_cons_self
    have hnext : (meter.step sample).2.phase.toNat = (start + 1) % 256 := by
      rw [phase_step, UInt8.toNat_add, hstart]
      exact Nat.mod_add_mod start 256 1
    have hrest := ih (fun tick htick => hlevel tick (List.mem_cons_of_mem _ htick)) hnext
    rw [ticks, List.countP_cons, hrest, drawsExtra_step, hwidth, hstart, List.length_cons,
      List.range'_succ, List.countP_cons]
    rfl

theorem sum_widths : ((meter.ticks samples).map (·.1.toNat)).sum =
    samples.length * (scale meter.config level).pixels.toNat +
      (meter.ticks samples).countP drawsExtra := by
  induction samples generalizing meter with
  | nil => simp [ticks]
  | cons sample samples ih =>
    have hwidth := barWidth_of_mem_ticks hlevel List.mem_cons_self
    have hrest := ih (fun tick htick => hlevel tick (List.mem_cons_of_mem _ htick))
    rw [ticks, List.map_cons, List.sum_cons, hrest, toNat_step_eq, hwidth, List.countP_cons,
      List.length_cons, Nat.succ_mul, config_step]
    omega

theorem level_le_of_mem_ticks {tick : UInt16 × Smoothed} (htick : tick ∈ meter.ticks samples) :
    level.toNat ≤ meter.config.levelMax.toNat := by
  obtain ⟨before, sample, hconfig, rfl⟩ := exists_step_of_mem_ticks htick
  have hle := level_le (before.step sample).2
  rwa [hlevel _ htick, config_step, hconfig] at hle

/-- A width drawn is the exact one rounded down or rounded up. -/
theorem width_eq_floor_or_ceil {tick : UInt16 × Smoothed} (htick : tick ∈ meter.ticks samples) :
    tick.1.toNat = level.toNat * meter.config.widthMax.toNat / meter.config.levelMax.toNat ∨
    tick.1.toNat = (level.toNat * meter.config.widthMax.toNat) ⌈/⌉ meter.config.levelMax.toNat := by
  have hle := level_le_of_mem_ticks hlevel htick
  obtain ⟨before, sample, hconfig, rfl⟩ := exists_step_of_mem_ticks htick
  have hphase := before.phase.toNat_lt
  rw [toNat_step, hlevel _ htick, hconfig]
  by_cases hextra : before.phase.toNat < exactWidth meter.config level % 256
  · right
    rw [← exactWidth_div_succ hle (by omega)]
    omega
  · left
    rw [← exactWidth_div hle]
    omega

end

/-- Over a sweep of the phase, from whatever phase and envelope on, a meter that stays at one level
draws its exact width: the widths add up to it in 1/256ths of a pixel, the pixel covered in part is
drawn on as many ticks as the fraction says, and every width is the exact one rounded down or up. The
phase comes back to where it was. Where the highest level is 0, so are the quotients and the bar. -/
theorem sum_widths_of_sweep {meter : Smoothed} {samples : List UInt8} {level : UInt8}
    (hsweep : samples.length = 256)
    (hlevel : ∀ tick ∈ meter.ticks samples, tick.2.level = level) :
    ((meter.ticks samples).map (·.1.toNat)).sum =
      level.toNat * meter.config.widthMax.toNat * 256 / meter.config.levelMax.toNat ∧
    (∀ tick ∈ meter.ticks samples,
      (meter.ticks samples).countP drawsExtra = tick.2.barWidth.fraction.toNat) ∧
    (∀ tick ∈ meter.ticks samples,
      tick.1.toNat = level.toNat * meter.config.widthMax.toNat / meter.config.levelMax.toNat ∨
      tick.1.toNat = (level.toNat * meter.config.widthMax.toNat) ⌈/⌉ meter.config.levelMax.toNat) ∧
    (meter.ticks samples).getLast?.map (·.2.phase) = some meter.phase := by
  obtain ⟨first, rest, rfl⟩ := List.exists_cons_of_length_eq_add_one hsweep
  obtain ⟨hpixels, hfraction⟩ := toNat_scale meter.config level
  have hle := level_le_of_mem_ticks hlevel List.mem_cons_self
  have hextra : (meter.ticks (first :: rest)).countP drawsExtra =
      (scale meter.config level).fraction.toNat := by
    rw [countP_drawsExtra hlevel (Nat.mod_eq_of_lt meter.phase.toNat_lt).symm, hsweep]
    exact countP_window _ (Nat.le_of_lt (UInt8.toNat_lt _))
  refine ⟨?_, ?_, fun tick => width_eq_floor_or_ceil hlevel, ?_⟩
  · rw [sum_widths hlevel, hsweep, hextra, hpixels, hfraction, Nat.div_add_mod,
      exactWidth_eq hle]
  · intro tick htick
    rw [hextra, barWidth_of_mem_ticks hlevel htick]
  · rw [List.length_cons] at hsweep
    rw [phase_getLast?_ticks, hsweep]
    exact congrArg some (UInt8.add_zero _)

/-- Samples under which an envelope of 2815 falls, but not below level 10. -/
def settlingSamples : List UInt8 := 9 :: 10 :: 9 :: List.replicate 253 10

/-- A bar of 10 * 120 / 63 pixels is 19 pixels wide and 12/256 of one, from phase 200 on as well. -/
theorem sum_widths_of_sweep_settling :
    settlingSamples.length = 256 ∧
    (∀ tick ∈ ticks ⟨{}, 2815, 200⟩ settlingSamples, tick.2.level = 10) ∧
    ((ticks ⟨{}, 2815, 200⟩ settlingSamples).map (·.1.toNat)).sum = 19 * 256 + 12 := by
  have hsweep : settlingSamples.length = 256 := by decide +kernel
  have hlevel : ∀ tick ∈ ticks ⟨{}, 2815, 200⟩ settlingSamples, tick.2.level = 10 := by
    decide +kernel
  exact ⟨hsweep, hlevel, (sum_widths_of_sweep hsweep hlevel).1⟩

end Smoothed

end Chiptune.Meter
