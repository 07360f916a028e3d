import Chiptune.Proofs.Meter.Order
import Chiptune.Proofs.Meter.Simple

/-!
# Meters settle

A meter that is fed with one sample again and again comes to stand at it, from whatever envelope it
starts (`settles_on_held_sample`). The smoothed meter falls to the sample and never past it. The
simple meter may fall past it, but it is back on the next tick and stays there.

Both are alike in what matters for that: an envelope above the sample falls, if only by one, and any
other envelope is replaced by the sample. `Seeks` is that much about a tick, and the rest of the run
follows from it.
-/

namespace Chiptune.Meter

/-! ### Ticks that seek a height -/

/-- What a tick with a held sample does to the height of a meter: above `goal` it falls, and from
`goal` or below it is at `goal` at once. -/
structure Seeks {State : Type} (tick : State → State) (height : State → Nat) (goal : Nat) :
    Prop where
  falls : ∀ state, goal < height state → height (tick state) < height state
  rises : ∀ state, height state ≤ goal → height (tick state) = goal

/-- A run of heights that falls as long as it is above `goal` and comes to stand at it for good. -/
structure SettlesAt (goal : Nat) (heights : Nat → Nat) : Prop where
  falls : ∀ n, goal < heights n → heights (n + 1) < heights n
  settles : ∃ settled, ∀ n, settled ≤ n → heights n = goal

namespace Seeks

variable {State : Type} {tick : State → State} {height : State → Nat} {goal : Nat}
  (hseeks : Seeks tick height goal)

include hseeks

/-- A run is at the goal from the tick after one on which it was not above. -/
theorem height_eq_of_le {state : State} (hle : height state ≤ goal) {n : Nat} (hn : 0 < n) :
    height (tick^[n] state) = goal := by
  induction n, hn using Nat.le_induction with
  | base => exact hseeks.rises state hle
  | succ n _ ih =>
    rw [Function.iterate_succ_apply']
    exact hseeks.rises _ (Nat.le_of_eq ih)

theorem exists_settled (state : State) :
    ∃ settled, ∀ n, settled ≤ n → height (tick^[n] state) = goal := by
  by_cases hle : height state ≤ goal
  · exact ⟨1, fun n hn => hseeks.height_eq_of_le hle hn⟩
  · have hlt := hseeks.falls state (Nat.lt_of_not_le hle)
    obtain ⟨settled, hsettled⟩ := exists_settled (tick state)
    refine ⟨settled + 1, fun n hn => ?_⟩
    obtain ⟨n, rfl⟩ := Nat.exists_eq_add_of_le' (Nat.le_trans (Nat.le_add_left 1 settled) hn)
    exact hsettled n (Nat.le_of_succ_le_succ hn)
termination_by height state

theorem settlesAt (state : State) : SettlesAt goal fun n => height (tick^[n] state) where
  falls n hlt := by
    rw [Function.iterate_succ_apply']
    exact hseeks.falls _ hlt
  settles := hseeks.exists_settled state

/-- A run that was below the goal is at the goal from then on. -/
theorem below_subsingleton (state : State) :
    {n | height (tick^[n] state) < goal}.Subsingleton := by
  have hlater : ∀ m n, height (tick^[m] state) < goal → m < n →
      height (tick^[n] state) = goal := by
    intro m n hm hmn
    rw [← Nat.sub_add_cancel (Nat.le_of_lt hmn), Function.iterate_add_apply]
    exact hseeks.height_eq_of_le (Nat.le_of_lt hm) (Nat.sub_pos_of_lt hmn)
  intro m hm n hn
  obtain hmn | rfl | hnm := Nat.lt_trichotomy m n
  · exact absurd (hlater m n hm hmn) (Nat.ne_of_lt hn)
  · rfl
  · exact absurd (hlater n m hn hnm) (Nat.ne_of_lt hm)

end Seeks

/-- Under silence nothing rises. -/
theorem Seeks.antitone {State : Type} {tick : State → State} {height : State → Nat}
    (hseeks : Seeks tick height 0) (state : State) : Antitone fun n => height (tick^[n] state) := by
  apply antitone_nat_of_succ_le
  intro n
  rw [Function.iterate_succ_apply']
  by_cases hle : height (tick^[n] state) ≤ 0
  · rw [hseeks.rises _ hle]
    exact Nat.zero_le _
  · exact Nat.le_of_lt (hseeks.falls _ (Nat.lt_of_not_le hle))

/-! ### The two meters -/

namespace Smoothed

/-- A meter after `n` ticks with one sample. -/
def held (meter : Smoothed) (sample : UInt8) (n : Nat) : Smoothed :=
  (fun meter => (meter.step sample).2)^[n] meter

theorem seeks (sample : UInt8) :
    Seeks (fun meter : Smoothed => (meter.step sample).2) (·.envelope.toNat)
      (256 * sample.toNat) where
  falls meter hlt := by
    rw [envelope_step, toNat_follow, if_neg (Nat.not_le.2 hlt)]
    omega
  rises meter hle := by
    rw [envelope_step, toNat_follow, if_pos hle]

theorem le_envelope_held (meter : Smoothed) (sample : UInt8) (n : Nat) :
    256 * sample.toNat ≤ (meter.held sample (n + 1)).envelope.toNat := by
  rw [held, Function.iterate_succ_apply', envelope_step]
  exact le_follow _ sample

theorem config_held (meter : Smoothed) (sample : UInt8) (n : Nat) :
    (meter.held sample n).config = meter.config := by
  induction n with
  | zero => rfl
  | succ n ih =>
    rw [held, Function.iterate_succ_apply', config_step]
    exact ih

theorem antitone_level_held (meter : Smoothed) :
    Antitone fun n => (meter.held 0 n).level.toNat := by
  intro n later hle
  have henvelope := (seeks 0).antitone meter hle
  simp only [toNat_level, config_held]
  exact min_le_min_right _ (Nat.div_le_div_right henvelope)

end Smoothed

namespace Simple

/-- A meter after `n` ticks with one sample. -/
def held (meter : Simple) (sample : UInt8) (n : Nat) : Simple := (·.step sample)^[n] meter

theorem seeks (sample : UInt8) :
    Seeks (fun meter : Simple => meter.step sample) (·.envelope.toNat) (256 * sample.toNat) where
  falls meter hlt := by
    have hdecay := envelope_step_of_lt hlt
    omega
  rises meter hle := envelope_step_of_le hle

theorem envelope_held_of_lt {meter : Simple} {sample : UInt8} {n : Nat}
    (hlt : 256 * sample.toNat < (meter.held sample n).envelope.toNat) :
    (meter.held sample (n + 1)).envelope.toNat +
      ((meter.held sample n).envelope.toNat / 16 + 1) = (meter.held sample n).envelope.toNat := by
  have hstep : meter.held sample (n + 1) = (meter.held sample n).step sample :=
    Function.iterate_succ_apply' ..
  rw [hstep, envelope_step_of_lt hlt]

theorem exists_level_held (meter : Simple) (sample : UInt8) :
    ∃ settled, ∀ n, settled ≤ n → (meter.held sample n).level.toNat = min sample.toNat 63 := by
  obtain ⟨settled, hsettled⟩ := (seeks sample).exists_settled meter
  refine ⟨settled, fun n hn => ?_⟩
  have henvelope : (meter.held sample n).envelope.toNat = 256 * sample.toNat := hsettled n hn
  rw [toNat_level, henvelope, Nat.mul_div_cancel_left _ (by decide)]

theorem antitone_level_held (meter : Simple) :
    Antitone fun n => (meter.held 0 n).level.toNat := by
  intro n later hle
  have henvelope := (seeks 0).antitone meter hle
  simp only [toNat_level]
  exact min_le_min_right _ (Nat.div_le_div_right henvelope)

end Simple

/-- From whatever state, both meters settle on a sample that is held, and under silence neither
level rises. After a tick the smoothed meter is never below the sample. The simple one loses its
whole decay on every tick above the sample, with nothing cut off at zero, and it is below the sample
at most once. -/
theorem settles_on_held_sample (smoothed : Smoothed) (simple : Simple) (sample : UInt8) :
    SettlesAt (256 * sample.toNat) (fun n => (smoothed.held sample n).envelope.toNat) ∧
    (∀ n, 256 * sample.toNat ≤ (smoothed.held sample (n + 1)).envelope.toNat) ∧
    SettlesAt (256 * sample.toNat) (fun n => (simple.held sample n).envelope.toNat) ∧
    (∀ n, 256 * sample.toNat < (simple.held sample n).envelope.toNat →
      (simple.held sample (n + 1)).envelope.toNat +
        ((simple.held sample n).envelope.toNat / 16 + 1) =
          (simple.held sample n).envelope.toNat) ∧
    {n | (simple.held sample n).envelope.toNat < 256 * sample.toNat}.Subsingleton ∧
    (∃ settled, ∀ n, settled ≤ n → (simple.held sample n).level.toNat = min sample.toNat 63) ∧
    Antitone (fun n => (smoothed.held 0 n).level.toNat) ∧
    Antitone (fun n => (simple.held 0 n).level.toNat) :=
  ⟨(Smoothed.seeks sample).settlesAt smoothed, smoothed.le_envelope_held sample,
    (Simple.seeks sample).settlesAt simple, fun _ => Simple.envelope_held_of_lt,
    (Simple.seeks sample).below_subsingleton simple, simple.exists_level_held sample,
    smoothed.antitone_level_held, simple.antitone_level_held⟩

/-- From 63 down to 62 the simple meter falls past the sample on the first tick, and on no other. -/
theorem settles_on_held_sample_past :
    (Simple.held ⟨16128⟩ 62 1).envelope = 15119 ∧
    ∀ n, n ≠ 1 → 256 * 62 ≤ (Simple.held ⟨16128⟩ 62 n).envelope.toNat := by
  obtain ⟨-, -, -, -, honce, -⟩ := settles_on_held_sample (.init {}) ⟨16128⟩ 62
  refine ⟨by decide, fun n hn => ?_⟩
  apply Nat.le_of_not_lt
  intro hbelow
  have hfirst : (Simple.held ⟨16128⟩ 62 1).envelope.toNat < 256 * 62 := by decide
  exact hn (honce hbelow hfirst)

end Chiptune.Meter
