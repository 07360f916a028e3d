import Chiptune.Text.Word

/-!
# Mnemonics

The names of operations in a song text. Fifteen of them are controls: a control is played as a
fixed opcode with one byte for each argument. The other three, a raw byte, a note and a delay, have
an encoding of their own and no fixed opcode.
-/

namespace Chiptune

/-- An operation played as an opcode and its operands. -/
inductive Control where
  | stop
  | ret
  | goto
  | loop
  | setTempo
  | addTempo
  | setVolume
  | volumeSlideOn
  | volumeSlideOff
  | setNoteCut
  | noteCutOff
  | setTransposition
  | transpositionOff
  | gotoAdvanced
  | setVibrato
deriving DecidableEq, Repr

namespace Control

/-- Every control, in the order in which they are listed for the user. -/
def all : List Control :=
  [stop, ret, goto, loop, setTempo, addTempo, setVolume, volumeSlideOn, volumeSlideOff,
    setNoteCut, noteCutOff, setTransposition, transpositionOff, gotoAdvanced, setVibrato]

def keyword : Control → String
  | stop => "STOP"
  | ret => "RETURN"
  | goto => "GOTO"
  | loop => "REPEAT"
  | setTempo => "SET_TEMPO"
  | addTempo => "ADD_TEMPO"
  | setVolume => "SET_VOLUME"
  | volumeSlideOn => "VOLUME_SLIDE_ON"
  | volumeSlideOff => "VOLUME_SLIDE_OFF"
  | setNoteCut => "SET_NOTE_CUT"
  | noteCutOff => "NOTE_CUT_OFF"
  | setTransposition => "SET_TRANSPOSITION"
  | transpositionOff => "TRANSPOSITION_OFF"
  | gotoAdvanced => "GOTO_ADVANCED"
  | setVibrato => "SET_VIBRATO"

def opcode : Control → UInt8
  | stop => 0x9F
  | ret => 0xFE
  | goto => 0xFC
  | loop => 0xFD
  | setTempo => 0x9D
  | addTempo => 0x9C
  | setVolume => 0x40
  | volumeSlideOn => 0x41
  | volumeSlideOff => 0x43
  | setNoteCut => 0x54
  | noteCutOff => 0x55
  | setTransposition => 0x4C
  | transpositionOff => 0x4D
  | gotoAdvanced => 0x9E
  | setVibrato => 0x4E

/-- How many operands follow the opcode. -/
def arity : Control → Nat
  | stop | ret | volumeSlideOff | noteCutOff | transpositionOff => 0
  | loop | setVibrato => 2
  | gotoAdvanced => 4
  | goto | setTempo | addTempo | setVolume | volumeSlideOn | setNoteCut | setTransposition => 1

/-- The control that an opcode stands for. -/
def ofOpcode? (byte : UInt8) : Option Control := all.find? (·.opcode == byte)

end Control

inductive Mnemonic where
  | rawByte
  | note
  | delay
  | control (op : Control)
deriving DecidableEq, Repr

namespace Mnemonic

/-- Every mnemonic, in the order in which they are listed for the user. -/
def all : List Mnemonic := [rawByte, note, delay] ++ Control.all.map control

def keyword : Mnemonic → String
  | rawByte => "DB"
  | note => "NOTE"
  | delay => "DELAY"
  | control op => op.keyword

/-- How many arguments follow the mnemonic. -/
def argumentCount : Mnemonic → Nat
  | rawByte | note | delay => 1
  | control op => op.arity

def opcode? : Mnemonic → Option UInt8
  | rawByte | note | delay => none
  | control op => some op.opcode

/-- The mnemonic that a word spells, in letters of any case. -/
def ofWord? (word : Text.Word) : Option Mnemonic :=
  all.find? fun mnemonic => Text.sameLetters word mnemonic.keyword.toList

end Mnemonic

end Chiptune
