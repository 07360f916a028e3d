import Chiptune.Meter.Bank
import Chiptune.Playback.Engine
import Chiptune.Song.Load

/-!
# Playback sessions

A session loads songs, drives the engine and keeps the meters. It holds the song and the image of
the last load that succeeded. A load that succeeds starts playing; one that fails stops playing and
leaves song and image as they were, so that they can be played again.

Ticks reach the meters only while a song is playing. The bank can also be fed and cleared through a
handle that was given away, whatever the session does.
-/

namespace Chiptune.Playback

inductive State where
  | stopped
  | playing
  | paused
deriving DecidableEq, Repr

/-- The status line. -/
inductive Status where
  | chooseFile
  | playing
  | paused
  | stopped
  | loadError
deriving DecidableEq, Repr

def Status.text : Status → String
  | chooseFile => "Choose file"
  | playing => "Playing"
  | paused => "Paused"
  | stopped => "Stopped"
  | loadError => "Load error"

/-- The status of a session in which nothing went wrong. -/
def State.status : State → Status
  | stopped => .stopped
  | playing => .playing
  | paused => .paused

structure Session where
  song : Option Song
  image : Option (List UInt8)
  state : State
  status : Status
  meters : Meter.Bank
deriving DecidableEq, Repr

/-- What can happen to a session. -/
inductive Action where
  | loadText (text : List Char)
  | loadFile (path : String)
  | toggle
  | stop
  | setGain (bits : UInt32)
  | tick (samples : List UInt8)
  /-- A tick through a handle to the meters. -/
  | handleTick (samples : List UInt8)
  /-- A reset through a handle to the meters. -/
  | handleReset

/-- What the caller of an action learns. -/
inductive Answer where
  | done
  | toggled (changed : Bool)
  | loaded (fault : Option Error)
deriving DecidableEq, Repr

/-- The effect of an action: the session after it, the answer, and the calls made to the engine. -/
structure Effect where
  session : Session
  answer : Answer
  calls : List Call
deriving DecidableEq, Repr

namespace Session

def init (channelCount : Nat) : Session :=
  ⟨none, none, .stopped, .chooseFile, .init channelCount {}⟩

/-- Stops playing and clears the meters. -/
def halt (session : Session) : Session :=
  { session with state := .stopped, meters := session.meters.reset }

/-- Takes in the outcome of compiling a song. -/
def finishLoad (session : Session) (compiled : Except Error Song) : Effect :=
  match compiled.bind fun song => song.toImage.map fun image => (song, image) with
  | .ok (song, image) =>
    ⟨⟨some song, some image, .playing, .playing, session.meters.reset⟩, .loaded none,
      [.play image]⟩
  | .error fault => ⟨{ session.halt with status := .loadError }, .loaded (some fault), [.stop]⟩

def enter (session : Session) (state : State) : Session :=
  { session with state := state, status := state.status }

/-- Plays when stopped, and otherwise pauses or resumes. Without an image nothing happens. -/
def toggle (session : Session) : Effect :=
  match session.image with
  | none => ⟨session, .toggled false, []⟩
  | some image =>
    match session.state with
    | .stopped => ⟨session.enter .playing, .toggled true, [.play image]⟩
    | .playing => ⟨session.enter .paused, .toggled true, [.pauseToggle]⟩
    | .paused => ⟨session.enter .playing, .toggled true, [.pauseToggle]⟩

/-- The effect of an action in a directory of song files. -/
def perform (directory : Directory) (session : Session) : Action → Effect
  | .loadText text => session.finishLoad (Song.compile text)
  | .loadFile path => session.finishLoad (Song.loadFile directory path)
  | .toggle => session.toggle
  | .stop => ⟨{ session.halt with status := .stopped }, .done, [.stop]⟩
  | .setGain bits => ⟨session, .done, [.setGain bits]⟩
  | .tick samples =>
    ⟨if session.state = .playing then { session with meters := session.meters.tick samples }
      else session, .done, []⟩
  | .handleTick samples => ⟨{ session with meters := session.meters.tick samples }, .done, []⟩
  | .handleReset => ⟨{ session with meters := session.meters.reset }, .done, []⟩

end Session

end Chiptune.Playback
