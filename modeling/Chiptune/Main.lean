import Chiptune.Cli.Run

/-!
# The command line program

Connects the command to the real file system and the standard streams. What is done is decided by
`Cli.Request` and `Cli.reply`; here bytes are only moved.
-/

namespace Chiptune.Cli

/-- The fault that the operating system reports for a path, if it is a known one. -/
def pathFault? : IO.Error → Option PathFault
  | .noFileOrDirectory .. => some .notFound
  | .inappropriateType _ code _ => PathFault.ofCode? code.toNat
  | .invalidArgument _ code _ => PathFault.ofCode? code.toNat
  | _ => none

/-- Reads until `limit` bytes are there or the stream ends. -/
def readUpTo (stream : IO.FS.Stream) (limit : Nat) : (reads : Nat) → ByteArray → IO ByteArray
  | 0, bytes => return bytes
  | reads + 1, bytes => do
    let chunk ← stream.read (USize.ofNat (limit - bytes.size))
    if chunk.isEmpty then return bytes
    readUpTo stream limit reads (bytes ++ chunk)

/-- Compiles the song that the options name. -/
def compileReal (options : Options) : IO (Except Error Song) := do
  match options.input with
  | none =>
    let limit := (defaultMaxTextSize + 1).toNat
    let bytes ← readUpTo (← IO.getStdin) limit limit .empty
    return Song.loadFeed ⟨bytes.data.toList, none⟩
  | some path =>
    try
      let bytes ← IO.FS.readBinFile path
      return Song.loadFileBytes bytes.data.toList
    catch fault =>
      match pathFault? fault with
      | some known => return .error (.input (.cannotOpen path known))
      | none => return .error (.input (.readFailed (toString fault)))

def printBytes (bytes : List UInt8) : IO Unit := do
  let stdout ← IO.getStdout
  stdout.write ⟨bytes.toArray⟩
  stdout.flush

/-- Prints the failure and gives the exit code that goes with it. -/
def fail (diagnostic : String) : IO UInt32 := do
  IO.eprintln (faultLine diagnostic)
  return 1

def runReal (options : Options) : IO UInt32 := do
  if options.listMnemonics then
    printBytes (utf8 mnemonicList)
    return 0
  match (← compileReal options).bind (reply options) with
  | .error fault => fail fault.diagnostic
  | .ok answer =>
    printBytes answer.stdout
    match answer.file with
    | none => return 0
    | some (path, image) =>
      try
        IO.FS.writeBinFile path ⟨image.toArray⟩
        return 0
      catch fault =>
        fail ((pathFault? fault).elim (toString fault) PathFault.diagnostic)

end Chiptune.Cli

def main (arguments : List String) : IO UInt32 := do
  match Chiptune.Cli.Request.ofArguments arguments with
  | .usageError =>
    IO.eprintln "Usage: atmc [OPTIONS] [INPUT]"
    return 2
  | .version =>
    Chiptune.Cli.printBytes (Chiptune.Cli.utf8 Chiptune.Cli.versionText)
    return 0
  | .help =>
    Chiptune.Cli.printBytes (Chiptune.Cli.utf8 Chiptune.Cli.helpText)
    return 0
  | .run options => Chiptune.Cli.runReal options
