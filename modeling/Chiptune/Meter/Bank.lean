import Chiptune.Meter.Smoothed

/-!
# Meter banks

One pair of meters for each channel, fed with the same sample every tick. A channel remembers what
its meters showed last. A reset clears the meters and what they showed.
-/

namespace Chiptune.Meter

structure Channel where
  simple : Simple
  smoothed : Smoothed
  level : UInt8
  width : UInt16
deriving DecidableEq, Repr

namespace Channel

def init (config : Config) : Channel := ⟨.init, .init config, 0, 0⟩

def step (channel : Channel) (sample : UInt8) : Channel :=
  let simple := channel.simple.step sample
  let (width, smoothed) := channel.smoothed.step sample
  ⟨simple, smoothed, simple.level, width⟩

def reset (channel : Channel) : Channel := ⟨.init, channel.smoothed.reset, 0, 0⟩

end Channel

structure Bank where
  channels : List Channel
deriving DecidableEq, Repr

/-- What a bank shows at one moment. -/
structure Snapshot where
  levels : List UInt8 := []
  widths : List UInt16 := []
deriving DecidableEq, Repr

namespace Bank

def init (channelCount : Nat) (config : Config) : Bank :=
  ⟨List.replicate channelCount (.init config)⟩

/-- Feeds each channel its own sample. Channels without one are fed silence, and samples without a
channel are ignored. -/
def tickChannels : List Channel → List UInt8 → List Channel
  | [], _ => []
  | channel :: channels, [] => channel.step 0 :: tickChannels channels []
  | channel :: channels, sample :: samples => channel.step sample :: tickChannels channels samples

def tick (bank : Bank) (samples : List UInt8) : Bank := ⟨tickChannels bank.channels samples⟩

def reset (bank : Bank) : Bank := ⟨bank.channels.map Channel.reset⟩

def levels (bank : Bank) : List UInt8 := bank.channels.map Channel.level

def widths (bank : Bank) : List UInt16 := bank.channels.map Channel.width

def snapshot (bank : Bank) : Snapshot := ⟨bank.levels, bank.widths⟩

end Bank

end Chiptune.Meter
