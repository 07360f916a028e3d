import Chiptune.Cli.Args
import Chiptune.Error.Diagnostic
import Chiptune.Song.Load
import Chiptune.Song.Summary

/-!
# The command

What the command does with a request: it lists the mnemonics, or compiles a song and then checks it
only, summarizes it, or writes its image. `Reply` is what is known before any file is written; the
files are touched last, and only if the song compiled.
-/

namespace Chiptune.Cli

/-- What a command leaves behind. The fault is the line that it prints when it fails. -/
structure Outcome where
  exitCode : Nat
  stdout : List UInt8
  files : Directory
  faultLine : Option String
deriving DecidableEq, Repr

/-- The output of a compiled song: what goes to the standard output, and what goes to which file. -/
structure Reply where
  stdout : List UInt8
  file : Option (String × List UInt8)
deriving DecidableEq, Repr

def versionText : String := "atmc 0.1.0\n"

def helpText : String :=
  "ATM song text to bytecode assembler\n\n" ++
  "Usage: atmc [OPTIONS] [INPUT]\n\n" ++
  "Arguments:\n" ++
  "  [INPUT]  Input song text (reads from stdin if not specified)\n\n" ++
  "Options:\n" ++
  "  -o, --output <OUTPUT>  Output song image\n" ++
  "      --json             Print a JSON summary of the compiled song\n" ++
  "      --bytes            Include per-track bytes in the JSON summary\n" ++
  "      --check            Only check that the song compiles\n" ++
  "  -L, --list-mnemonics   List instruction mnemonics\n" ++
  "  -v, --verbose          Enable debug logging\n" ++
  "  -h, --help             Print help\n" ++
  "  -V, --version          Print version\n"

/-- A keyword in a column of eighteen characters. -/
def padKeyword (keyword : String) : String :=
  keyword ++ String.ofList (List.replicate (18 - keyword.length) ' ')

def mnemonicLine (mnemonic : Mnemonic) : String :=
  padKeyword mnemonic.keyword ++ " " ++ toString mnemonic.argumentCount ++ " arg(s)\n"

def mnemonicList : String := String.join (Mnemonic.all.map mnemonicLine)

def utf8 (text : String) : List UInt8 := Text.Utf8.encode text.toList

/-- The line printed on a failure. -/
def faultLine (diagnostic : String) : String := "Error: " ++ diagnostic

/-- The summary as it is printed. A song whose tracks do not lie within its data has none. -/
def summaryText (song : Song) (withBytes : Bool) : String :=
  match song.summary? withBytes with
  | some summary => summary.toJson.render .indented ++ "\n"
  | none => ""

/-- The output of a song that compiled. -/
def reply (options : Options) (song : Song) : Except Error Reply := do
  if options.check then return ⟨[], none⟩
  let summary := if options.json then utf8 (summaryText song options.bytes) else []
  let image ← song.toImage
  match options.output with
  | some path => return ⟨summary, some (path, image)⟩
  | none => return ⟨if options.json then summary else image, none⟩

/-- Compiles the input file, or the standard input if there is none. -/
def compileInput (options : Options) (files : Directory) (stdin : List UInt8) : Except Error Song :=
  match options.input with
  | some path => Song.loadFile files path
  | none => Song.loadFeed ⟨stdin, none⟩

/-- Writes the output file of a reply, if it has one. -/
def deliver (files : Directory) (answer : Reply) : Outcome :=
  match answer.file with
  | none => ⟨0, answer.stdout, files, none⟩
  | some (path, image) =>
    match files.nameToWrite path with
    | .ok name => ⟨0, answer.stdout, files.write name image, none⟩
    | .error fault => ⟨1, answer.stdout, files, some (faultLine fault.diagnostic)⟩

def runOptions (options : Options) (files : Directory) (stdin : List UInt8) : Outcome :=
  if options.listMnemonics then ⟨0, utf8 mnemonicList, files, none⟩
  else
    match (compileInput options files stdin).bind (reply options) with
    | .ok answer => deliver files answer
    | .error fault => ⟨1, [], files, some (faultLine fault.diagnostic)⟩

/-- The effect of the command on the files of a directory. -/
def run (arguments : List String) (files : Directory) (stdin : List UInt8) : Outcome :=
  match Request.ofArguments arguments with
  | .usageError => ⟨2, [], files, none⟩
  | .version => ⟨0, utf8 versionText, files, none⟩
  | .help => ⟨0, utf8 helpText, files, none⟩
  | .run options => runOptions options files stdin

end Chiptune.Cli
