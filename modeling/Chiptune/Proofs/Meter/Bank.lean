import Chiptune.Meter.Bank
import Mathlib.Data.List.DropRight
import Mathlib.Data.List.Induction

/-!
# Banks over time

A bank is told to tick and to reset, in any order. `Bank.channels_after` says that its channels never
learn of each other: each one is in the state of two meters on their own that were fed with the
samples of that channel, and nothing from before the latest reset is left in it.

Two facts carry the proof. A tick does to each channel what its own sample does
(`Bank.getElem?_tick`), and a reset makes the bank a new one (`Bank.reset_fed`), so that a bank is a
new one fed with the ticks since then (`Bank.after_eq_fed`).
-/

namespace Chiptune.Meter

/-! ### Meters on their own -/

namespace Simple

/-- A simple meter fed with samples one after the other. -/
def fed (samples : List UInt8) : Simple := samples.foldl step init

/-- What the latest step showed, or 0 if there was none. -/
def latestLevel (samples : List UInt8) : UInt8 :=
  match samples.getLast? with
  | none => 0
  | some sample => ((fed samples.dropLast).step sample).level

end Simple

namespace Smoothed

/-- A smoothed meter fed with samples one after the other. -/
def fed (config : Config) (samples : List UInt8) : Smoothed :=
  samples.foldl (fun meter sample => (meter.step sample).2) (init config)

/-- What the latest step showed, or 0 if there was none. -/
def latestWidth (config : Config) (samples : List UInt8) : UInt16 :=
  match samples.getLast? with
  | none => 0
  | some sample => ((fed config samples.dropLast).step sample).1

@[simp] theorem config_fed (config : Config) (samples : List UInt8) :
    (fed config samples).config = config := by
  induction samples using List.reverseRecOn with
  | nil => rfl
  | append_singleton samples sample ih =>
    rw [fed, List.foldl_append]
    exact ih

end Smoothed

namespace Channel

/-- A channel that is nothing but two meters on their own, fed with the same samples. -/
def alone (config : Config) (samples : List UInt8) : Channel :=
  ⟨.fed samples, .fed config samples, Simple.latestLevel samples,
    Smoothed.latestWidth config samples⟩

theorem alone_concat (config : Config) (samples : List UInt8) (sample : UInt8) :
    alone config (samples ++ [sample]) = (alone config samples).step sample := by
  simp [alone, step, Simple.fed, Smoothed.fed, Simple.latestLevel, Smoothed.latestWidth]

/-- Of all that a channel has come to, a reset keeps the settings only. -/
theorem reset_alone (config : Config) (samples : List UInt8) :
    (alone config samples).reset = init config := by
  simp [reset, alone, init, Smoothed.reset]

end Channel

/-! ### Commands -/

/-- What a bank can be told. -/
inductive Command where
  | tick (samples : List UInt8)
  | reset
deriving DecidableEq

namespace Command

def samples? : Command → Option (List UInt8)
  | tick samples => some samples
  | reset => none

end Command

/-- The ticks since the latest reset, each with its samples. -/
def ticksSinceReset (commands : List Command) : List (List UInt8) :=
  (commands.rtakeWhile (·.samples?.isSome)).filterMap Command.samples?

/-- The sample of a tick for one channel. A tick without one brings silence. -/
def sampleAt (index : Nat) (samples : List UInt8) : UInt8 := samples[index]?.getD 0

/-- The samples that one channel was fed with since the latest reset. -/
def ownSamples (index : Nat) (commands : List Command) : List UInt8 :=
  (ticksSinceReset commands).map (sampleAt index)

theorem ticksSinceReset_tick (commands : List Command) (samples : List UInt8) :
    ticksSinceReset (commands ++ [.tick samples]) = ticksSinceReset commands ++ [samples] := by
  rw [ticksSinceReset, List.rtakeWhile_concat_pos _ _ _ (by rfl), List.filterMap_append]
  rfl

theorem ticksSinceReset_reset (commands : List Command) :
    ticksSinceReset (commands ++ [.reset]) = [] := by
  rw [ticksSinceReset, List.rtakeWhile_concat_neg _ _ _ (by decide)]
  rfl

namespace Bank

def perform (bank : Bank) : Command → Bank
  | .tick samples => bank.tick samples
  | .reset => bank.reset

/-- A bank after commands. -/
def after (channelCount : Nat) (config : Config) (commands : List Command) : Bank :=
  commands.foldl perform (init channelCount config)

/-- A new bank fed with ticks. -/
def fed (channelCount : Nat) (config : Config) (ticks : List (List UInt8)) : Bank :=
  ticks.foldl tick (init channelCount config)

/-- A new bank shows nothing. -/
theorem snapshot_init (channelCount : Nat) (config : Config) :
    (init channelCount config).snapshot =
      ⟨List.replicate channelCount 0, List.replicate channelCount 0⟩ := by
  simp [snapshot, levels, widths, init, Channel.init]

theorem getElem?_tickChannels (channels : List Channel) (samples : List UInt8) (index : Nat) :
    (tickChannels channels samples)[index]? =
      channels[index]?.map (·.step (sampleAt index samples)) := by
  fun_induction tickChannels channels samples generalizing index with
  | case1 samples => rfl
  | case2 channel channels ih =>
    cases index with
    | zero => rfl
    | succ index => exact ih index
  | case3 channel channels sample samples ih =>
    cases index with
    | zero => rfl
    | succ index => exact ih index

@[simp] theorem length_tickChannels (channels : List Channel) (samples : List UInt8) :
    (tickChannels channels samples).length = channels.length := by
  fun_induction tickChannels channels samples with
  | case1 samples => rfl
  | case2 channel channels ih => rw [List.length_cons, List.length_cons, ih]
  | case3 channel channels sample samples ih => rw [List.length_cons, List.length_cons, ih]

theorem getElem?_tick (bank : Bank) (samples : List UInt8) (index : Nat) :
    (bank.tick samples).channels[index]? =
      bank.channels[index]?.map (·.step (sampleAt index samples)) :=
  getElem?_tickChannels bank.channels samples index

section

variable (channelCount : Nat) (config : Config) (ticks : List (List UInt8))

theorem fed_concat (samples : List UInt8) :
    fed channelCount config (ticks ++ [samples]) = (fed channelCount config ticks).tick samples := by
  rw [fed, List.foldl_append]
  rfl

theorem getElem?_fed (index : Nat) :
    (fed channelCount config ticks).channels[index]? =
      if index < channelCount then some (.alone config (ticks.map (sampleAt index))) else none := by
  induction ticks using List.reverseRecOn with
  | nil => exact List.getElem?_replicate
  | append_singleton ticks samples ih =>
    rw [fed_concat, getElem?_tick, ih, List.map_append]
    -- One more sample for a channel is one more step of it, if the bank has the channel at all.
    split
    · exact congrArg some (Channel.alone_concat ..).symm
    · rfl

@[simp] theorem length_channels_fed :
    (fed channelCount config ticks).channels.length = channelCount := by
  induction ticks using List.reverseRecOn with
  | nil => exact List.length_replicate
  | append_singleton ticks samples ih =>
    rw [fed_concat, tick, length_tickChannels, ih]

theorem reset_fed : (fed channelCount config ticks).reset = init channelCount config := by
  apply congrArg Bank.mk
  apply List.ext_getElem?
  intro index
  rw [List.getElem?_map, getElem?_fed, List.getElem?_replicate]
  split
  · exact congrArg some (Channel.reset_alone ..)
  · rfl

/-- Samples past the last channel reach nobody. -/
theorem tick_take_fed (samples : List UInt8) :
    (fed channelCount config ticks).tick (samples.take channelCount) =
      (fed channelCount config ticks).tick samples := by
  apply congrArg Bank.mk
  apply List.ext_getElem?
  intro index
  rw [getElem?_tickChannels, getElem?_tickChannels, getElem?_fed]
  split
  · next hindex => rw [sampleAt, sampleAt, List.getElem?_take_of_lt hindex]
  · rfl

end

theorem after_eq_fed (channelCount : Nat) (config : Config) (commands : List Command) :
    after channelCount config commands = fed channelCount config (ticksSinceReset commands) := by
  induction commands using List.reverseRecOn with
  | nil => rfl
  | append_singleton commands command ih =>
    rw [after, List.foldl_append, ← after, ih]
    cases command with
    | tick samples => rw [ticksSinceReset_tick, fed_concat]; rfl
    | reset => rw [ticksSinceReset_reset]; exact reset_fed ..

/-- Each channel of a bank is in the state of meters on their own, fed with its own samples since the
latest reset. It follows that no other samples matter to it, that samples without a channel matter to
nobody, and that a reset leaves nothing behind. -/
theorem channels_after (channelCount : Nat) (config : Config) (commands : List Command) :
    (∀ index < channelCount, (after channelCount config commands).channels[index]? =
      some ⟨.fed (ownSamples index commands), .fed config (ownSamples index commands),
        Simple.latestLevel (ownSamples index commands),
        Smoothed.latestWidth config (ownSamples index commands)⟩) ∧
    (∀ index < channelCount, ∀ channelCount' commands', index < channelCount' →
      ownSamples index commands' = ownSamples index commands →
      (after channelCount' config commands').channels[index]? =
        (after channelCount config commands).channels[index]?) ∧
    (∀ samples, (after channelCount config commands).tick (samples.take channelCount) =
      (after channelCount config commands).tick samples) ∧
    (after channelCount config commands).reset = init channelCount config ∧
    (after channelCount config commands).levels.length = channelCount ∧
    (after channelCount config commands).widths.length = channelCount := by
  have hchannel : ∀ channelCount' commands' index, index < channelCount' →
      (after channelCount' config commands').channels[index]? =
        some (.alone config (ownSamples index commands')) := by
    intro channelCount' commands' index hindex
    rw [after_eq_fed, getElem?_fed, if_pos hindex, ownSamples]
  refine ⟨hchannel channelCount commands, ?_, ?_, ?_, ?_, ?_⟩
  · intro index hindex channelCount' commands' hindex' hsamples
    rw [hchannel _ _ _ hindex, hchannel _ _ _ hindex', hsamples]
  · intro samples
    rw [after_eq_fed, tick_take_fed]
  · rw [after_eq_fed, reset_fed]
  · simp [after_eq_fed, levels]
  · simp [after_eq_fed, widths]

/-- Ticks with too few and with too many samples for two channels, and a reset among them. -/
def raggedCommands : List Command := [.tick [9, 50], .reset, .tick [63, 10, 200], .tick [5]]

/-- The second channel was fed with 10 and with silence. -/
theorem channels_after_raggedCommands :
    (after 2 {} raggedCommands).channels[1]? = some ⟨⟨2399⟩, ⟨{}, 2239, 2⟩, 9, 16⟩ := by
  obtain ⟨hchannel, -⟩ := channels_after 2 {} raggedCommands
  rw [hchannel 1 (by decide)]
  decide +kernel

end Bank

end Chiptune.Meter
