import Chiptune.Directory
import Chiptune.Score.Reader

/-!
# Loading songs

A song is loaded from a feed of bytes or from a file. Either way it must not be empty nor larger
than a limit. One byte more than the limit is read, so that an input that is too large is noticed
without being read to its end; a file is measured before it is read.

Sizes are 64-bit numbers, and so is that sum. Under the greatest limit there is no such number, and
loading breaks off with neither a song nor a fault: the functions that take a limit then return
`none`. The usual limit is far below, so `Song.loadFeed` and `Song.loadFile` always give an answer.
-/

namespace Chiptune

/-- The limit in force where none is chosen. -/
def defaultMaxTextSize : UInt64 := 32768

/-- A source of bytes, which may fail once they are used up. -/
structure Feed where
  bytes : List UInt8
  failure : Option String := none
deriving DecidableEq, Repr

namespace Feed

/-- The first `limit` bytes, or all of them. The failure shows only if more is asked for than there
is. -/
def take (feed : Feed) (limit : Nat) : Except Error (List UInt8) :=
  match feed.failure with
  | some reason =>
    if feed.bytes.length < limit then .error (.input (.readFailed reason))
    else .ok (feed.bytes.take limit)
  | none => .ok (feed.bytes.take limit)

end Feed

namespace Song

def checkSize (maxTextSize : UInt64) (size : Nat) : Except Error Unit :=
  if size = 0 then .error .emptyInput
  else if maxTextSize.toNat < size then .error (.tooLarge size maxTextSize.toNat)
  else .ok ()

/-- The song that UTF-8 bytes spell. -/
def compileBytes (bytes : List UInt8) : Except Error Song :=
  match Text.Utf8.decode bytes with
  | .ok text => compile text
  | .error fault => .error (.input (.notText bytes fault))

/-- How many bytes are asked for: one more than the limit, if that is a 64-bit number still. -/
def readLimit? (maxTextSize : UInt64) : Option UInt64 :=
  if maxTextSize.toNat + 1 < UInt64.size then some (maxTextSize + 1) else none

/-- The song that a feed spells, where no more than `readLimit` bytes are asked for. -/
def compileRead (maxTextSize readLimit : UInt64) (feed : Feed) : Except Error Song := do
  let bytes ← feed.take readLimit.toNat
  checkSize maxTextSize bytes.length
  compileBytes bytes

/-- The song that a feed of bytes spells. -/
def compileFeed? (maxTextSize : UInt64) (feed : Feed) : Option (Except Error Song) :=
  (readLimit? maxTextSize).map fun readLimit => compileRead maxTextSize readLimit feed

/-- The song in a file whose bytes are given. -/
def compileFileBytes? (maxTextSize : UInt64) (bytes : List UInt8) : Option (Except Error Song) :=
  match checkSize maxTextSize bytes.length with
  | .error fault => some (.error fault)
  | .ok () => compileFeed? maxTextSize ⟨bytes, none⟩

/-- The song in the file at a path. -/
def compileFile? (maxTextSize : UInt64) (directory : Directory) (path : String) :
    Option (Except Error Song) :=
  match directory.lookUp path with
  | .error fault => some (.error (.input (.cannotOpen path fault)))
  | .ok .directory => some (.error (.input .directory))
  | .ok (.file bytes) => compileFileBytes? maxTextSize bytes

/-! ### Under the usual limit -/

theorem isSome_compileFeed? {maxTextSize : UInt64} (hlimit : maxTextSize.toNat + 1 < UInt64.size)
    (feed : Feed) : (compileFeed? maxTextSize feed).isSome := by
  rw [compileFeed?, readLimit?, if_pos hlimit]
  rfl

theorem isSome_compileFileBytes? {maxTextSize : UInt64}
    (hlimit : maxTextSize.toNat + 1 < UInt64.size) (bytes : List UInt8) :
    (compileFileBytes? maxTextSize bytes).isSome := by
  unfold compileFileBytes?
  split
  · rfl
  · exact isSome_compileFeed? hlimit _

theorem isSome_compileFile? {maxTextSize : UInt64} (hlimit : maxTextSize.toNat + 1 < UInt64.size)
    (directory : Directory) (path : String) :
    (compileFile? maxTextSize directory path).isSome := by
  unfold compileFile?
  split
  · rfl
  · rfl
  · exact isSome_compileFileBytes? hlimit _

def loadFeed (feed : Feed) : Except Error Song :=
  (compileFeed? defaultMaxTextSize feed).get (isSome_compileFeed? (by decide) feed)

def loadFileBytes (bytes : List UInt8) : Except Error Song :=
  (compileFileBytes? defaultMaxTextSize bytes).get (isSome_compileFileBytes? (by decide) bytes)

def loadFile (directory : Directory) (path : String) : Except Error Song :=
  (compileFile? defaultMaxTextSize directory path).get
    (isSome_compileFile? (by decide) directory path)

theorem loadFeed_eq_iff {feed : Feed} {outcome : Except Error Song} :
    loadFeed feed = outcome ↔ compileFeed? defaultMaxTextSize feed = some outcome :=
  (Option.eq_some_iff_get_eq.trans (exists_prop_of_true _)).symm

theorem loadFile_eq_iff {directory : Directory} {path : String} {outcome : Except Error Song} :
    loadFile directory path = outcome ↔
      compileFile? defaultMaxTextSize directory path = some outcome :=
  (Option.eq_some_iff_get_eq.trans (exists_prop_of_true _)).symm

end Song

end Chiptune
