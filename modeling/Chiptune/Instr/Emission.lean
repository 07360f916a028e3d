import Chiptune.Buffer
import Chiptune.Instr.Reader

/-!
# Emitting instructions

Reading one instruction straight into a buffer, without building it first. The words of all arguments
are read before the first byte is appended, and a note or a delay is checked against its range before
its own bytes are, so a fault finds the buffer as it was.
-/

namespace Chiptune

/-- What reading one instruction into a buffer comes to: the fault, if any, the buffer and the
words left. -/
structure Emission where
  fault : Option Error
  data : ByteBuffer
  rest : List Text.Word
deriving DecidableEq, Repr

namespace ByteBuffer

/-- Appends the bytes of a delay of so many ticks. -/
def emitDelay (buffer : ByteBuffer) (ticks : Int) : Option Error × ByteBuffer :=
  if ticks < 1 then (some (.range (.delay ticks)), buffer)
  else if ticks ≤ Ticks.shortLimit then
    (none, pushWrapped buffer (Ticks.shortBase + ticks))
  else
    (none, (buffer.push Ticks.longOpcode).extend
      (Varint.encode (UInt32.ofInt (ticks - Ticks.longBase))))

/-- Appends the byte of a note. -/
def emitNote (buffer : ByteBuffer) (pitch : Int) : Option Error × ByteBuffer :=
  if 0 ≤ pitch ∧ pitch ≤ 63 then (none, pushWrapped buffer pitch)
  else (some (.range (.note pitch)), buffer)

/-- The value of an argument that stands alone. -/
def soleArgument (values : Vector Int 1) : Int := values.head

/-- Appends the bytes of an operation with these argument values. -/
def emitOperation (buffer : ByteBuffer) : (mnemonic : Mnemonic) →
    Vector Int mnemonic.argumentCount → Option Error × ByteBuffer
  | .rawByte, values => (none, pushWrapped buffer (soleArgument values))
  | .note, values => emitNote buffer (soleArgument values)
  | .delay, values => emitDelay buffer (soleArgument values)
  | .control op, values => (none, values.toList.foldl pushWrapped (buffer.push op.opcode))

/-- Reads the instruction that starts with the word `operation` and appends its bytes. -/
def emit (buffer : ByteBuffer) (operation : Text.Word) (words : List Text.Word) : Emission :=
  match Mnemonic.ofWord? operation with
  | none =>
    match Literal.parse operation with
    | some value => ⟨none, pushWrapped buffer value, words⟩
    | none => ⟨some (.literal (String.ofList operation)), buffer, words⟩
  | some mnemonic =>
    match readLiterals (.grammar (.missingArgument mnemonic)) mnemonic.argumentCount words with
    | (.ok values, rest) =>
      let (fault, data) := emitOperation buffer mnemonic values
      ⟨fault, data, rest⟩
    | (.error fault, rest) => ⟨some fault, buffer, rest⟩

end ByteBuffer

end Chiptune
