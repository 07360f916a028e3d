import Chiptune.Json
import Chiptune.Song

/-!
# Song summaries

A view of a song for people and scripts: its title and entry bytes, sizes, and where each track
lies, with the bytes of each track on request.
-/

namespace Chiptune

structure TrackSummary where
  index : Nat
  offset : UInt16
  length : Nat
  /-- The bytes of the track, empty unless asked for. -/
  bytes : List UInt8
deriving DecidableEq, Repr

structure Summary where
  title : Option String
  entry : Entry
  offsets : List UInt16
  dataLength : Nat
  imageLength : Nat
  tracks : List TrackSummary
deriving DecidableEq, Repr

namespace Song

/-- The summary of the track at `index`, which starts at `offset`. -/
def trackSummary? (song : Song) (withBytes : Bool) (index : Nat) (offset : UInt16) :
    Option TrackSummary := do
  let span ← song.trackSpan? index
  let bytes ← if withBytes then span.slice? song.data else some []
  return ⟨index, offset, span.length, bytes⟩

/-- The summary of a song. There is none if bytes are asked for and a track does not lie within the
data. -/
def summary? (song : Song) (withBytes : Bool) : Option Summary := do
  let tracks ← (song.offsets.mapIdx fun index offset => (index, offset)).mapM
    fun (index, offset) => song.trackSummary? withBytes index offset
  return ⟨song.title, song.entry, song.offsets, song.data.length, song.imageLength, tracks⟩

end Song

def TrackSummary.toJson (track : TrackSummary) : Json :=
  .object ([("index", .ofNat track.index), ("offset", .ofNat track.offset.toNat),
    ("len", .ofNat track.length)] ++
    if track.bytes.isEmpty then [] else [("bytes", .ofNats (track.bytes.map UInt8.toNat))])

def Summary.toJson (summary : Summary) : Json :=
  .object ((match summary.title with
    | some title => [("name", .string title)]
    | none => []) ++
    [("entry", .ofNats (summary.entry.toList.map UInt8.toNat)),
      ("track_offsets", .ofNats (summary.offsets.map UInt16.toNat)),
      ("data_len", .ofNat summary.dataLength),
      ("image_len", .ofNat summary.imageLength),
      ("tracks", .array (summary.tracks.map TrackSummary.toJson))])

end Chiptune
