/-!
# The playback engine

The engine plays images. It is driven by calls and has no say in what is played: `Engine.step` tells
how a call changes what it does, and refuses a call to pause or resume while nothing is loaded.
-/

namespace Chiptune.Playback

/-- What an engine can be told. The gain is the bit pattern of a single-precision number, which is
passed on as it is. -/
inductive Call where
  | play (image : List UInt8)
  | pauseToggle
  | stop
  | setGain (bits : UInt32)
deriving DecidableEq, Repr

inductive Engine where
  | idle
  | running (image : List UInt8)
  | held (image : List UInt8)
deriving DecidableEq, Repr

namespace Engine

/-- The engine after a call; none if the call makes no sense to it. -/
def step? : Engine → Call → Option Engine
  | _, .play image => some (running image)
  | running image, .pauseToggle => some (held image)
  | held image, .pauseToggle => some (running image)
  | idle, .pauseToggle => none
  | _, .stop => some idle
  | engine, .setGain _ => some engine

/-- The engine after several calls. -/
def run? (engine : Engine) (calls : List Call) : Option Engine := calls.foldlM step? engine

end Engine

end Chiptune.Playback
