import Chiptune.Instr
import Chiptune.Song

/-!
# Scores

A score is a song as it is written: a title, four entry values and tracks of instructions. `toSong`
lays the tracks out one after the other, and `ofImage?` recovers the tracks from an image whose
tracks hold no raw bytes.
-/

namespace Chiptune

abbrev Track := List Instr

structure Score where
  title : Option String
  entry : Entry
  tracks : List Track
deriving DecidableEq, Repr

namespace Track

def encode (track : Track) : List UInt8 := track.flatMap Instr.encode

/-- The instructions that the bytes of a track spell. -/
def decode? : List UInt8 → Option Track
  | [] => some []
  | byte :: tail =>
    match _hdecode : Instr.decode? (byte :: tail) with
    | none => none
    | some (instr, rest) => (decode? rest).map (instr :: ·)
termination_by bytes => bytes.length
decreasing_by exact Instr.length_lt_of_decode? _hdecode

end Track

namespace Score

/-- The offsets of tracks of which the first starts at `start`. -/
def offsetsFrom (start : Nat) : List Track → List UInt16
  | [] => []
  | track :: tracks => UInt16.ofNat start :: offsetsFrom (start + track.encode.length) tracks

/-- The song with the tracks one after the other. -/
def toSong (score : Score) : Song where
  title := score.title
  entry := score.entry
  offsets := offsetsFrom 0 score.tracks
  data := score.tracks.flatMap Track.encode

/-- The score, without a title, whose tracks an image holds. -/
def ofImage? (image : List UInt8) : Option Score := do
  let (offsets, entry, data) ← Image.read? image
  let song : Song := ⟨none, entry, offsets, data⟩
  let tracks ← (List.range offsets.length).mapM fun index => do
    let span ← song.trackSpan? index
    let bytes ← span.slice? data
    Track.decode? bytes
  return ⟨none, entry, tracks⟩

end Score

end Chiptune
