import Chiptune.Error
import Chiptune.Literal
import Chiptune.Varint

/-!
# Instructions

What a track is made of. A note is a byte below 64. A delay of up to 64 ticks is one byte too; a
longer one is an opcode followed by a variable-length number. Controls are an opcode and their
operands, and a raw byte stands for itself.

The encodings of notes, delays and controls start with different bytes, so `decode?` reads back
every instruction other than a raw byte.
-/

namespace Chiptune

/-- The longest delay, which is the greatest literal. -/
def maxTicks : Nat := 2147483647

/-- The length of a delay. -/
structure Ticks where
  count : Nat
  pos : 1 ≤ count
  le_max : count ≤ maxTicks
deriving DecidableEq, Repr

inductive Instr where
  | rawByte (value : UInt8)
  | note (pitch : Fin 64)
  | delay (ticks : Ticks)
  | control (op : Control) (operands : Vector UInt8 op.arity)
deriving DecidableEq, Repr

namespace Ticks

/-- The opcode of a delay of no ticks, were there one; short delays are counted from it. -/
def shortBase : Nat := 159

/-- The longest delay that fits in one byte. -/
def shortLimit : Nat := 64

/-- The opcode in front of a delay that does not fit in one byte. -/
def longOpcode : UInt8 := 224

/-- The shortest delay that is written in the long form; it is written as zero. -/
def longBase : Nat := 65

/-- A delay needs at least one tick. A count above every literal is held at the greatest. -/
def ofInt (value : Int) : Except Error Ticks :=
  if h : value < 1 then .error (.range (.delay value))
  else .ok ⟨min value.toNat maxTicks, by unfold maxTicks; omega, Nat.min_le_right ..⟩

def encode (ticks : Ticks) : List UInt8 :=
  if ticks.count ≤ shortLimit then [UInt8.ofNat (shortBase + ticks.count)]
  else longOpcode :: Varint.encode (UInt32.ofNat (ticks.count - longBase))

theorem encode_of_le {ticks : Ticks} (hshort : ticks.count ≤ 64) :
    ticks.encode = [UInt8.ofNat (159 + ticks.count)] := if_pos hshort

theorem encode_of_lt {ticks : Ticks} (hlong : 64 < ticks.count) :
    ticks.encode = 224 :: Varint.encode (UInt32.ofNat (ticks.count - 65)) :=
  if_neg (Nat.not_le_of_lt hlong)

/-- The delay written as `extra` in the long form. -/
def ofLong? (extra : Nat) : Option Ticks :=
  if h : extra + longBase ≤ maxTicks then
    some ⟨extra + longBase, Nat.le_add_left_of_le (by decide), h⟩
  else none

end Ticks

namespace Instr

/-- The bytes that the instruction is played from. -/
def encode : Instr → List UInt8
  | rawByte value => [value]
  | note pitch => [UInt8.ofNat pitch]
  | delay ticks => ticks.encode
  | control op operands => op.opcode :: operands.toList

/-- Splits `count` bytes off the front. -/
def takeOperands? (count : Nat) (bytes : List UInt8) : Option (Vector UInt8 count × List UInt8) :=
  if h : (bytes.take count).length = count then
    some (⟨(bytes.take count).toArray, by simpa using h⟩, bytes.drop count)
  else none

/-- The instruction at the front of the bytes, and the bytes after it. -/
def decode? : List UInt8 → Option (Instr × List UInt8)
  | [] => none
  | byte :: rest =>
    if hnote : byte.toNat < 64 then some (note ⟨byte.toNat, hnote⟩, rest)
    else if hdelay : 160 ≤ byte.toNat ∧ byte.toNat ≤ 223 then
      some (delay ⟨byte.toNat - Ticks.shortBase, by unfold Ticks.shortBase; omega,
        by unfold Ticks.shortBase maxTicks; omega⟩, rest)
    else if byte = Ticks.longOpcode then do
      let (extra, rest) ← Varint.decode? rest
      let ticks ← Ticks.ofLong? extra
      return (delay ticks, rest)
    else do
      let op ← Control.ofOpcode? byte
      let (operands, rest) ← takeOperands? op.arity rest
      return (control op operands, rest)

theorem length_le_of_takeOperands? {count : Nat} {bytes rest : List UInt8}
    {operands : Vector UInt8 count} (htake : takeOperands? count bytes = some (operands, rest)) :
    rest.length ≤ bytes.length := by
  unfold takeOperands? at htake
  split at htake
  · cases htake
    exact (List.drop_suffix count bytes).length_le
  · cases htake

/-- Reading an instruction uses up at least one byte. -/
theorem length_lt_of_decode? {bytes rest : List UInt8} {instr : Instr}
    (hdecode : decode? bytes = some (instr, rest)) : rest.length < bytes.length := by
  cases bytes with
  | nil => cases hdecode
  | cons byte tail =>
    rw [decode?] at hdecode
    split at hdecode
    · cases hdecode
      exact Nat.lt_succ_self _
    · split at hdecode
      · cases hdecode
        exact Nat.lt_succ_self _
      · split at hdecode
        · simp only [bind, Option.bind_eq_some_iff] at hdecode
          obtain ⟨⟨extra, after⟩, hextra, ticks, _, hpure⟩ := hdecode
          cases hpure
          exact Nat.lt_succ_of_lt (Varint.length_lt_of_decodeFrom hextra)
        · simp only [bind, Option.bind_eq_some_iff] at hdecode
          obtain ⟨op, _, ⟨operands, after⟩, htake, hpure⟩ := hdecode
          cases hpure
          exact Nat.lt_succ_of_le (length_le_of_takeOperands? htake)

end Instr

end Chiptune
