import Chiptune.Error

/-!
# Song images

An image is what the player takes: one byte with the number of tracks, the offset of each track as
two bytes with the low byte first, four entry bytes, and the instruction bytes of all tracks. A song
has between one and 255 tracks.
-/

namespace Chiptune

/-- The four bytes from which the player starts its channels. -/
abbrev Entry := Vector UInt8 4

def maxTracks : Nat := 255

namespace Image

/-- The length of an image. -/
def length (trackCount dataLength : Nat) : Nat := 1 + trackCount * 2 + 4 + dataLength

/-- An offset as two bytes, low byte first. -/
def offsetBytes (offset : UInt16) : List UInt8 := [offset.toUInt8, (offset >>> 8).toUInt8]

/-- The image of a song with these parts. -/
def write (offsets : List UInt16) (entry : Entry) (data : List UInt8) :
    Except Error (List UInt8) :=
  if offsets.length = 0 ∨ maxTracks < offsets.length then
    .error (.range (.trackCount offsets.length))
  else
    .ok (UInt8.ofNat offsets.length :: (offsets.flatMap offsetBytes ++ (entry.toList ++ data)))

/-- Splits `count` offsets off the front. -/
def takeOffsets? : (count : Nat) → List UInt8 → Option (List UInt16 × List UInt8)
  | 0, bytes => some ([], bytes)
  | count + 1, low :: high :: rest =>
    (takeOffsets? count rest).map fun (offsets, rest) =>
      ((high.toUInt16 <<< 8 ||| low.toUInt16) :: offsets, rest)
  | _ + 1, _ => none

/-- The parts of the song that an image was written from. -/
def read? : List UInt8 → Option (List UInt16 × Entry × List UInt8)
  | [] => none
  | count :: bytes =>
    if count = 0 then none
    else
      match takeOffsets? count.toNat bytes with
      | some (offsets, a :: b :: c :: d :: data) => some (offsets, #v[a, b, c, d], data)
      | _ => none

end Image

end Chiptune
