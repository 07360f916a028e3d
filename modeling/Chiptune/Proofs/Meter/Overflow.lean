import Chiptune.Proofs.Meter.Exact

/-!
# The smoothed meter never overflows

Arithmetic on words can be made to refuse what it cannot give exactly: a sum, a difference or a
product that does not fit, a division by 0, a narrowing that loses bits. `Checked.step?` is a tick in
such arithmetic, also where the meter's own subtraction would stop at zero. `Checked.step?_eq` says
that it refuses nothing, whatever the settings and the state.

`Smoothed.drawn_within_bar` says so of every run of ticks and resets, together with what it means for
the bar: it is never drawn wider than a full one, it is full at the highest level and empty at level 0.
-/

namespace Chiptune.Meter

/-! ### Arithmetic that refuses -/

namespace Checked

def add? (left right : UInt16) : Option UInt16 :=
  if left.toBitVec.uaddOverflow right.toBitVec then none else some (left + right)

def sub? (left right : UInt16) : Option UInt16 :=
  if left.toBitVec.usubOverflow right.toBitVec then none else some (left - right)

def mul? (left right : UInt32) : Option UInt32 :=
  if left.toBitVec.umulOverflow right.toBitVec then none else some (left * right)

def div? (left right : UInt32) : Option UInt32 := if right = 0 then none else some (left / right)

/-- The 16-bit word of the same value. -/
def narrow? (value : UInt32) : Option UInt16 :=
  if value.toUInt16.toUInt32 = value then some value.toUInt16 else none

theorem add?_eq {left right : UInt16} (hfits : left.toNat + right.toNat < 2 ^ 16) :
    add? left right = some (left + right) := by
  have hoverflow : left.toBitVec.uaddOverflow right.toBitVec = false :=
    decide_eq_false (Nat.not_le.2 hfits)
  rw [add?, hoverflow]
  rfl

theorem sub?_eq {left right : UInt16} (hle : right ≤ left) :
    sub? left right = some (left - right) := by
  have hoverflow : left.toBitVec.usubOverflow right.toBitVec = false :=
    decide_eq_false (Nat.not_lt.2 (UInt16.le_iff_toNat_le.1 hle))
  rw [sub?, hoverflow]
  rfl

theorem mul?_eq {left right : UInt32} (hfits : left.toNat * right.toNat < 2 ^ 32) :
    mul? left right = some (left * right) := by
  have hoverflow : left.toBitVec.umulOverflow right.toBitVec = false :=
    decide_eq_false (Nat.not_le.2 hfits)
  rw [mul?, hoverflow]
  rfl

theorem div?_eq {left right : UInt32} (hzero : right ≠ 0) :
    div? left right = some (left / right) :=
  if_neg hzero

theorem narrow?_eq {value : UInt32} (hfits : value.toNat < 2 ^ 16) :
    narrow? value = some value.toUInt16 := by
  apply if_pos
  apply UInt32.toNat_inj.1
  rw [UInt16.toNat_toUInt32, UInt32.toNat_toUInt16, Nat.mod_eq_of_lt hfits]

/-! ### A tick in such arithmetic -/

def scale? (config : Config) (level : UInt8) : Option BarWidth :=
  if config.levelMax = 0 then some ⟨0, 0⟩
  else do
    let product ← mul? (min level config.levelMax).toUInt32 config.widthMax.toUInt32
    let product ← mul? product 256
    let width ← div? product config.levelMax.toUInt32
    let pixels ← narrow? (width >>> 8)
    return ⟨pixels, width.toUInt8⟩

def follow? (envelope : UInt16) (sample : UInt8) : Option UInt16 :=
  if envelope ≤ target sample then some (target sample)
  else do
    let gap ← sub? envelope (target sample)
    let decay ← add? (gap >>> 3) 1
    -- Stopping at zero is refused here like any other difference that is not exact.
    sub? envelope decay

def shownWidth? (width : BarWidth) (phase : UInt8) : Option UInt16 :=
  if phase < width.fraction then add? width.pixels 1 else some width.pixels

/-- The phase is a counter that starts over, so it alone may wrap. -/
def step? (meter : Smoothed) (sample : UInt8) : Option (UInt16 × Smoothed) := do
  let envelope ← follow? meter.envelope sample
  let followed := { meter with envelope }
  let width ← scale? followed.config followed.level
  let shown ← shownWidth? width meter.phase
  return (shown, { followed with phase := meter.phase + 1 })

theorem scale?_eq (config : Config) (level : UInt8) :
    scale? config level = some (scale config level) := by
  by_cases hmax : config.levelMax = 0
  · rw [scale?, scale, if_pos hmax, if_pos hmax]
  · have hlt := product_lt (min level config.levelMax) config.widthMax
    have hproduct : mul? (min level config.levelMax).toUInt32 config.widthMax.toUInt32 =
        some ((min level config.levelMax).toUInt32 * config.widthMax.toUInt32) := by
      apply mul?_eq
      rw [UInt8.toNat_toUInt32, UInt16.toNat_toUInt32]
      omega
    have hscaled : mul? ((min level config.levelMax).toUInt32 * config.widthMax.toUInt32) 256 =
        some ((min level config.levelMax).toUInt32 * config.widthMax.toUInt32 * 256) := by
      apply mul?_eq
      rw [toNat_mul_width]
      exact hlt
    have hzero : config.levelMax.toUInt32 ≠ 0 := by
      intro hzero
      apply hmax
      apply UInt8.toNat_inj.1
      rw [← UInt8.toNat_toUInt32, hzero]
      rfl
    have hpixels : (((min level config.levelMax).toUInt32 * config.widthMax.toUInt32 * 256 /
        config.levelMax.toUInt32) >>> 8).toNat < 2 ^ 16 := by
      rw [toNat_pixels]
      exact Nat.lt_of_le_of_lt (pixels_le config level) config.widthMax.toNat_lt
    simp only [scale?, scale, if_neg hmax, hproduct, hscaled, div?_eq hzero, narrow?_eq hpixels,
      Option.bind_eq_bind, Option.bind_some, Option.pure_def]

theorem follow?_eq (envelope : UInt16) (sample : UInt8) :
    follow? envelope sample = some (Smoothed.follow envelope sample) := by
  by_cases hle : envelope ≤ target sample
  · rw [follow?, Smoothed.follow, if_pos hle, if_pos hle]
  · have habove : target sample < envelope := UInt16.not_le.1 hle
    have hgap : sub? envelope (target sample) = some (envelope - target sample) :=
      sub?_eq (UInt16.le_of_lt habove)
    have hdecay : add? ((envelope - target sample) >>> 3) 1 =
        some (((envelope - target sample) >>> 3) + 1) := by
      have henvelope := envelope.toNat_lt
      apply add?_eq
      rw [Smoothed.toNat_eighth habove, UInt16.toNat_one]
      omega
    have hfall := Smoothed.decay_le habove
    simp only [follow?, Smoothed.follow, if_neg hle, hgap, hdecay, sub?_eq hfall,
      saturatingSub_eq hfall, Option.bind_eq_bind, Option.bind_some]

theorem shownWidth?_eq (config : Config) (level phase : UInt8) :
    shownWidth? (scale config level) phase =
      some (Smoothed.shownWidth (scale config level) phase) := by
  rw [shownWidth?, Smoothed.shownWidth]
  split
  · next hextra =>
    obtain ⟨hpixels, hfraction⟩ := toNat_scale config level
    rw [UInt8.lt_iff_toNat_lt, hfraction] at hextra
    have hlt : exactWidth config level / 256 < config.widthMax.toNat := pixels_lt config (by omega)
    apply add?_eq
    rw [hpixels, UInt16.toNat_one]
    exact Nat.lt_of_le_of_lt hlt config.widthMax.toNat_lt
  · rfl

/-- No state of a meter makes a tick refuse. -/
theorem step?_eq (meter : Smoothed) (sample : UInt8) :
    step? meter sample = some (meter.step sample) := by
  simp only [step?, follow?_eq, scale?_eq, shownWidth?_eq, Option.bind_eq_bind, Option.bind_some,
    Option.pure_def]
  rfl

end Checked

/-! ### Runs of ticks and resets -/

namespace Smoothed

/-- What a smoothed meter can be told. -/
inductive Command where
  | step (sample : UInt8)
  | reset
deriving DecidableEq

def perform (meter : Smoothed) : Command → Smoothed
  | .step sample => (meter.step sample).2
  | .reset => meter.reset

/-- A meter after commands. -/
def after (config : Config) (commands : List Command) : Smoothed :=
  commands.foldl perform (init config)

/-- A command in arithmetic that refuses. -/
def perform? (meter : Smoothed) : Command → Option Smoothed
  | .step sample => (Checked.step? meter sample).map Prod.snd
  | .reset => some meter.reset

theorem perform?_eq (meter : Smoothed) (command : Command) :
    meter.perform? command = some (meter.perform command) := by
  cases command with
  | step sample => rw [perform?, Checked.step?_eq]; rfl
  | reset => rfl

theorem foldlM_perform? (meter : Smoothed) (commands : List Command) :
    commands.foldlM perform? meter = some (commands.foldl perform meter) := by
  induction commands generalizing meter with
  | nil => rfl
  | cons command commands ih =>
    rw [List.foldlM_cons, perform?_eq, List.foldl_cons]
    exact ih (meter.perform command)

theorem config_foldl_perform (meter : Smoothed) (commands : List Command) :
    (commands.foldl perform meter).config = meter.config := by
  induction commands generalizing meter with
  | nil => rfl
  | cons command commands ih =>
    rw [List.foldl_cons, ih]
    cases command with
    | step sample => rfl
    | reset => rfl

theorem config_after (config : Config) (commands : List Command) :
    (after config commands).config = config :=
  config_foldl_perform (init config) commands

theorem width_le (meter : Smoothed) (sample : UInt8) :
    (meter.step sample).1 ≤ meter.config.widthMax := by
  have hle := exactWidth_le meter.config (meter.step sample).2.level
  rw [UInt16.le_iff_toNat_le, toNat_step]
  omega

theorem width_eq_widthMax {meter : Smoothed} {sample : UInt8} (hmax : 0 < meter.config.levelMax)
    (hlevel : (meter.step sample).2.level = meter.config.levelMax) :
    (meter.step sample).1 = meter.config.widthMax := by
  have hmax' : meter.config.levelMax.toNat ≠ 0 := (UInt8.lt_iff_toNat_lt.1 hmax).ne'
  apply UInt16.toNat_inj.1
  rw [toNat_step, hlevel, exactWidth_levelMax _ hmax']
  omega

theorem width_eq_zero {meter : Smoothed} {sample : UInt8}
    (hlevel : (meter.step sample).2.level = 0) : (meter.step sample).1 = 0 := by
  apply UInt16.toNat_inj.1
  rw [toNat_step, hlevel, exactWidth_zero, Nat.zero_add]
  exact Nat.div_eq_of_lt (by omega)

/-- Whatever a meter is told, all of its arithmetic is exact, and each tick draws at most a full bar:
a full one at the highest level and none at level 0. -/
theorem drawn_within_bar (config : Config) (commands : List Command) (sample : UInt8) :
    commands.foldlM perform? (init config) = some (after config commands) ∧
    Checked.step? (after config commands) sample = some ((after config commands).step sample) ∧
    ((after config commands).step sample).1 ≤ config.widthMax ∧
    (0 < config.levelMax → ((after config commands).step sample).2.level = config.levelMax →
      ((after config commands).step sample).1 = config.widthMax) ∧
    (((after config commands).step sample).2.level = 0 →
      ((after config commands).step sample).1 = 0) := by
  refine ⟨foldlM_perform? _ _, Checked.step?_eq _ _, ?_⟩
  have hconfig := config_after config commands
  -- Of the run, only that it has kept the settings matters to the width.
  generalize after config commands = meter at hconfig ⊢
  subst hconfig
  exact ⟨width_le meter sample, width_eq_widthMax, width_eq_zero⟩

/-- The widest bar there can be, at the highest level there can be. -/
def widestBar : Config := ⟨255, 65535⟩

/-- After a reset a loud sample fills the bar, and a silent one leaves it empty. -/
theorem drawn_within_bar_widestBar :
    ((after widestBar [.step 90, .reset]).step 255).1 = 65535 ∧
    ((after widestBar [.step 90, .reset]).step 0).1 = 0 := by
  obtain ⟨-, -, -, hfull, -⟩ := drawn_within_bar widestBar [.step 90, .reset] 255
  obtain ⟨-, -, -, -, hempty⟩ := drawn_within_bar widestBar [.step 90, .reset] 0
  exact ⟨hfull (by decide) (by decide), hempty (by decide)⟩

end Smoothed

end Chiptune.Meter
