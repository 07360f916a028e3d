/-!
# Variable-length numbers

A number is cut into groups of seven bits, most significant first. Each group is one byte, and
every byte but the last has its top bit set, so a reader knows where the number ends.
-/

namespace Chiptune.Varint

/-- How many groups there is room for. -/
def maxGroups : Nat := 5

/-- The groups of a number, least significant first. There is always a first one, and the next ones
follow until the number is used up or the room is. -/
def groups : (room : Nat) → UInt32 → List UInt8
  | 0, _ => []
  | room + 1, value =>
    (value &&& 0x7F).toUInt8 :: if value >>> 7 = 0 then [] else groups room (value >>> 7)

/-- Groups in the order in which they are written, all but the last with the continuation bit. -/
def flagged (groups : List UInt8) : List UInt8 :=
  groups.mapIdx fun index group => if index + 1 < groups.length then group ||| 0x80 else group

def encode (value : UInt32) : List UInt8 := flagged (groups maxGroups value).reverse

/-- Reads groups until one has its top bit clear; `total` is the value of those already read. -/
def decodeFrom (total : Nat) : List UInt8 → Option (Nat × List UInt8)
  | [] => none
  | byte :: rest =>
    if byte.toNat < 128 then some (128 * total + byte.toNat, rest)
    else decodeFrom (128 * total + (byte.toNat - 128)) rest

/-- The number at the front of the bytes, and the bytes after it. -/
def decode? (bytes : List UInt8) : Option (Nat × List UInt8) := decodeFrom 0 bytes

theorem length_lt_of_decodeFrom {total value : Nat} {bytes rest : List UInt8}
    (hdecode : decodeFrom total bytes = some (value, rest)) : rest.length < bytes.length := by
  induction bytes generalizing total with
  | nil => cases hdecode
  | cons byte tail ih =>
    rw [decodeFrom] at hdecode
    split at hdecode
    · cases hdecode
      exact Nat.lt_succ_self _
    · exact Nat.lt_succ_of_lt (ih hdecode)

end Chiptune.Varint
