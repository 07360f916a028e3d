import Chiptune.Directive
import Chiptune.Mnemonic
import Chiptune.Text.Utf8

/-!
# Faults

Everything that can go wrong on the way from a song text to its image, kept as causes. The wording
is in one place, `Error.message`.

Grammar, range and literal faults are found in the text itself. The others concern its loading: the
input is empty or too large, cannot be opened or read, or is not text.
-/

namespace Chiptune

/-- A word that the grammar of songs does not allow, or a text that ends too early. -/
inductive GrammarFault where
  /-- One of the `wanted` directives had to come, but the text has another word or ends. -/
  | unexpected (wanted : List Directive) (found : Option String)
  /-- The text ends inside the entry values. -/
  | entryTooShort
  /-- The text ends between tracks. -/
  | missingEnd
  /-- The text ends inside a track. -/
  | openTrack
  /-- The text ends inside the arguments of an operation. -/
  | missingArgument (mnemonic : Mnemonic)
  /-- Any other breach, in words of its own. -/
  | other (reason : String)
deriving DecidableEq, Repr

/-- A number that is readable but cannot be played. -/
inductive RangeFault where
  | note (value : Int)
  | delay (value : Int)
  | trackOffset (offset : Nat)
  | trackCount (count : Nat)
  /-- Any other breach, in words of its own. -/
  | other (reason : String)
deriving DecidableEq, Repr

/-- Why a path leads to no file that can be opened or created. -/
inductive PathFault where
  | notFound
  | notADirectory
  | isADirectory
  | nameTooLong
  | hasNul
deriving DecidableEq, Repr

/-- Why no text could be obtained. -/
inductive InputFault where
  /-- The file at `path` cannot be opened. -/
  | cannotOpen (path : String) (fault : PathFault)
  /-- The path leads to a directory, which holds no text. -/
  | directory
  /-- The input gave some bytes and then failed. -/
  | readFailed (reason : String)
  /-- The bytes are no UTF-8. -/
  | notText (bytes : List UInt8) (fault : Text.Utf8.Fault)
deriving DecidableEq, Repr

inductive Error where
  | grammar (fault : GrammarFault)
  | range (fault : RangeFault)
  | literal (token : String)
  | tooLarge (size max : Nat)
  | emptyInput
  | outOfMemory
  | input (fault : InputFault)
deriving DecidableEq, Repr

namespace GrammarFault

def foundText : Option String → String
  | none => "end of input"
  | some token => "'" ++ token ++ "'"

def message : GrammarFault → String
  | unexpected wanted found =>
    "expected " ++ " or ".intercalate (wanted.map Directive.keyword) ++ ", found " ++
      foundText found
  | entryTooShort => "ENTRY needs 4 values"
  | missingEnd => "missing END"
  | openTrack => "TRACK without ENDTRACK"
  | missingArgument mnemonic => mnemonic.keyword ++ " is missing an argument"
  | other reason => reason

end GrammarFault

namespace RangeFault

def message : RangeFault → String
  | note value => "NOTE " ++ toString value ++ " outside 0..=63"
  | delay value => "DELAY " ++ toString value ++ " is below 1"
  | trackOffset offset => "track offset " ++ toString offset ++ " exceeds 16 bits"
  | trackCount count => "track count " ++ toString count ++ " outside 1..=255"
  | other reason => reason

end RangeFault

namespace PathFault

/-- The number under which the operating system reports the fault. A path with a NUL character never
gets that far. -/
def code? : PathFault → Option Nat
  | notFound => some 2
  | notADirectory => some 20
  | isADirectory => some 21
  | nameTooLong => some 36
  | hasNul => none

/-- The fault that the operating system reports under a number. -/
def ofCode? (code : Nat) : Option PathFault :=
  [notFound, notADirectory, isADirectory, nameTooLong].find? (·.code? == some code)

def description : PathFault → String
  | notFound => "No such file or directory"
  | notADirectory => "Not a directory"
  | isADirectory => "Is a directory"
  | nameTooLong => "File name too long"
  | hasNul => "file name contained an unexpected NUL byte"

def message (fault : PathFault) : String :=
  match fault.code? with
  | some code => fault.description ++ " (os error " ++ toString code ++ ")"
  | none => fault.description

end PathFault

namespace InputFault

def utf8Message (fault : Text.Utf8.Fault) : String :=
  match fault.length? with
  | some length =>
    "invalid utf-8 sequence of " ++ toString length ++ " bytes from index " ++
      toString fault.validUpTo
  | none => "incomplete utf-8 byte sequence from index " ++ toString fault.validUpTo

/-- The wording for a file that cannot be opened. -/
def openMessage (path : String) (fault : PathFault) : String :=
  "Failed to open '" ++ path ++ "': " ++ fault.message

def message : InputFault → String
  | cannotOpen path fault => openMessage path fault
  | directory => PathFault.isADirectory.message
  | readFailed reason => reason
  | notText _ fault => utf8Message fault

end InputFault

namespace Error

def message : Error → String
  | grammar fault => "Syntax error: " ++ fault.message
  | range fault => "Range error: " ++ fault.message
  | literal token => "Invalid literal: '" ++ token ++ "'"
  | tooLarge size max =>
    "Input too large: " ++ toString size ++ " bytes (max " ++ toString max ++ ")"
  | emptyInput => "Input is empty"
  | outOfMemory => "Out of memory while building song image"
  | input fault => "IO error: " ++ fault.message

/-- Whether the fault lies in the song rather than in loading it. -/
def isCompileError : Error → Bool
  | grammar _ | range _ | literal _ | outOfMemory => true
  | tooLarge _ _ | emptyInput | input _ => false

end Error

end Chiptune
