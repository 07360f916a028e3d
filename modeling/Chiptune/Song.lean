import Chiptune.Image

/-!
# Songs

A compiled song: its title, its entry bytes, and the instruction bytes of all tracks one after the
other, with the offset at which each track starts. A track ends where the next one starts, and the
last one ends with the data.
-/

namespace Chiptune

structure Song where
  title : Option String
  entry : Entry
  offsets : List UInt16
  data : List UInt8
deriving DecidableEq, Repr

/-- A stretch of the instruction bytes, from `start` up to but not including `stop`. -/
structure Span where
  start : Nat
  stop : Nat
deriving DecidableEq, Repr

namespace Span

def length (span : Span) : Nat := span.stop - span.start

/-- The bytes of a stretch; none unless it lies within the data and does not run backwards. -/
def slice? (span : Span) (data : List UInt8) : Option (List UInt8) :=
  if span.start ≤ span.stop ∧ span.stop ≤ data.length then
    some ((data.drop span.start).take span.length)
  else none

end Span

namespace Song

def trackCount (song : Song) : Nat := song.offsets.length

/-- The stretch of the track at `index`. -/
def trackSpan? (song : Song) (index : Nat) : Option Span :=
  match song.offsets[index]? with
  | none => none
  | some start =>
    match song.offsets[index + 1]? with
    | some next => some ⟨start.toNat, next.toNat⟩
    | none => some ⟨start.toNat, song.data.length⟩

def imageLength (song : Song) : Nat := Image.length song.offsets.length song.data.length

def toImage (song : Song) : Except Error (List UInt8) :=
  Image.write song.offsets song.entry song.data

end Song

end Chiptune
