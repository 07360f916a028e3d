/-!
# UTF-8

Bytes are read as characters one well-formed sequence at a time. Where the bytes are not
well-formed, the fault covers the longest stretch that could still have started a character, at
least one byte; if the bytes end inside such a stretch, the sequence is incomplete instead.

`decode` refuses faulty bytes and tells where they are. `decodeLossy` puts one replacement
character in the place of each faulty stretch.
-/

namespace Chiptune.Text.Utf8

/-- Where a byte string stops being UTF-8: after `validUpTo` bytes, by a stretch of `length?` bytes
that cannot continue, or, without a length, by a sequence that the end cuts off. -/
structure Fault where
  validUpTo : Nat
  length? : Option Nat
deriving DecidableEq, Repr

/-- What stands at the front of some bytes: a character with the number of its bytes, a faulty
stretch with its length, or the beginning of a character that the end cuts off. -/
inductive Front where
  | character (c : Char) (size : Nat)
  | invalid (size : Nat)
  | incomplete
deriving DecidableEq, Repr

def isContinuation (byte : UInt8) : Bool := 0x80 ≤ byte && byte ≤ 0xBF

/-- Whether `second` may follow `lead`. Overlong forms, surrogates and values above the last code
point are ruled out by the second byte alone. -/
def fits (lead second : UInt8) : Bool :=
  isContinuation second &&
    (lead != 0xE0 || 0xA0 ≤ second) && (lead != 0xED || second ≤ 0x9F) &&
    (lead != 0xF0 || 0x90 ≤ second) && (lead != 0xF4 || second ≤ 0x8F)

/-- The six payload bits of a continuation byte. -/
def payload (byte : UInt8) : Nat := byte.toNat % 64

/-- Reads the continuation bytes after the second one. `size` counts the bytes read so far, `value`
holds their payload, and `missing` more bytes are needed. -/
def finish : (missing size value : Nat) → List UInt8 → Front
  | 0, size, value, _ => .character (Char.ofNat value) size
  | _ + 1, _, _, [] => .incomplete
  | missing + 1, size, value, byte :: rest =>
    if isContinuation byte then finish missing (size + 1) (64 * value + payload byte) rest
    else .invalid size

/-- What stands at the front of `lead :: rest`. -/
def front (lead : UInt8) (rest : List UInt8) : Front :=
  if lead < 0x80 then .character (Char.ofNat lead.toNat) 1
  else if lead < 0xC2 || 0xF4 < lead then .invalid 1
  else
    match rest with
    | [] => .incomplete
    | second :: rest =>
      if !fits lead second then .invalid 1
      else if lead < 0xE0 then .character (Char.ofNat (lead.toNat % 32 * 64 + payload second)) 2
      else if lead < 0xF0 then finish 1 2 (lead.toNat % 16 * 64 + payload second) rest
      else finish 2 2 (lead.toNat % 8 * 64 + payload second) rest

/-- Decodes on after `position` bytes, from which the characters `read` came, latest first. -/
def decodeFrom (read : List Char) (position : Nat) : List UInt8 → Except Fault (List Char)
  | [] => .ok read.reverse
  | lead :: rest =>
    match front lead rest with
    | .character c size => decodeFrom (c :: read) (position + size) (rest.drop (size - 1))
    | .invalid size => .error ⟨position, some size⟩
    | .incomplete => .error ⟨position, none⟩
termination_by bytes => bytes.length
decreasing_by exact Nat.lt_succ_of_le (List.drop_suffix _ _).length_le

/-- The characters that the bytes spell, if they are UTF-8 throughout. -/
def decode (bytes : List UInt8) : Except Fault (List Char) := decodeFrom [] 0 bytes

/-- The character that stands for a faulty stretch. -/
def replacement : Char := '\uFFFD'

def decodeLossyFrom (read : List Char) : List UInt8 → List Char
  | [] => read.reverse
  | lead :: rest =>
    match front lead rest with
    | .character c size => decodeLossyFrom (c :: read) (rest.drop (size - 1))
    | .invalid size => decodeLossyFrom (replacement :: read) (rest.drop (size - 1))
    | .incomplete => (replacement :: read).reverse
termination_by bytes => bytes.length
decreasing_by all_goals exact Nat.lt_succ_of_le (List.drop_suffix _ _).length_le

/-- The characters that the bytes spell, faulty stretches replaced. -/
def decodeLossy (bytes : List UInt8) : List Char := decodeLossyFrom [] bytes

/-- The UTF-8 bytes of a text. -/
def encode (text : List Char) : List UInt8 := text.flatMap String.utf8EncodeChar

theorem length_encode_append (front rest : List Char) :
    (encode (front ++ rest)).length = (encode front).length + (encode rest).length := by
  rw [encode, List.flatMap_append, List.length_append, encode, encode]

theorem length_encode_cons (c : Char) (text : List Char) :
    (encode (c :: text)).length = c.utf8Size + (encode text).length := by
  rw [encode, List.flatMap_cons, List.length_append, String.length_utf8EncodeChar, encode]

end Chiptune.Text.Utf8
