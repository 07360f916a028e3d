/-!
# Command line arguments

Arguments are taken from left to right. An argument that starts with two dashes is a long option,
one that starts with a single dash is a group of short ones, and all others are positional, as are a
single dash and everything after a pair of dashes. Only the output option takes a value, from the
same argument or from the next one.

A request for the version or for help ends the reading at once, so that what follows is not looked
at; a wrong argument in front of it is still an error. Whether options fit together is checked last.
-/

namespace Chiptune.Cli

structure Options where
  input : Option String := none
  output : Option String := none
  json : Bool := false
  bytes : Bool := false
  check : Bool := false
  listMnemonics : Bool := false
  verbose : Bool := false
deriving DecidableEq, Repr

/-- What the arguments ask for. -/
inductive Request where
  | run (options : Options)
  | version
  | help
  | usageError
deriving DecidableEq, Repr

/-- An option, long or short. -/
inductive Switch where
  | json
  | bytes
  | check
  | listMnemonics
  | verbose
  | output
  | version
  | help
deriving DecidableEq, Repr

namespace Switch

def ofLong? : String → Option Switch
  | "json" => some json
  | "bytes" => some bytes
  | "check" => some check
  | "list-mnemonics" => some listMnemonics
  | "verbose" => some verbose
  | "output" => some output
  | "version" => some version
  | "help" => some help
  | _ => none

def ofShort? : Char → Option Switch
  | 'L' => some listMnemonics
  | 'v' => some verbose
  | 'o' => some output
  | 'V' => some version
  | 'h' => some help
  | _ => none

end Switch

namespace Options

/-- Turns on a switch without a value; none if it was on already or takes a value. -/
def turnOn? (options : Options) : Switch → Option Options
  | .json => if options.json then none else some { options with json := true }
  | .bytes => if options.bytes then none else some { options with bytes := true }
  | .check => if options.check then none else some { options with check := true }
  | .listMnemonics =>
    if options.listMnemonics then none else some { options with listMnemonics := true }
  | .verbose => if options.verbose then none else some { options with verbose := true }
  | .output | .version | .help => none

/-- Sets the output path, which must not be empty nor set before. -/
def setOutput? (options : Options) (path : List Char) : Option Options :=
  if path = [] ∨ options.output.isSome then none
  else some { options with output := some (String.ofList path) }

/-- Sets the input path, which must not be empty nor set before. -/
def setInput? (options : Options) (path : List Char) : Option Options :=
  if path = [] ∨ options.input.isSome then none
  else some { options with input := some (String.ofList path) }

/-- The bytes of tracks are part of the summary, so they cannot be had without it. -/
def finish (options : Options) : Request :=
  if options.bytes && !options.json then .usageError else .run options

end Options

/-- How far the reading of one argument came. -/
inductive Progress where
  | next (options : Options)
  /-- The next argument is the output path. -/
  | awaitOutput (options : Options)
  | ended (request : Request)
deriving DecidableEq, Repr

def Progress.ofOptions? : Option Options → Progress
  | some options => next options
  | none => ended .usageError

/-- Reads the name of a long option with the value that an equals sign attaches to it. -/
def readLong (options : Options) (name : List Char) (value : Option (List Char)) : Progress :=
  match Switch.ofLong? (String.ofList name), value with
  | none, _ => .ended .usageError
  | some .output, none => if options.output.isSome then .ended .usageError else .awaitOutput options
  | some .output, some path => .ofOptions? (options.setOutput? path)
  | some .version, none => .ended .version
  | some .help, none => .ended .help
  | some switch, none => .ofOptions? (options.turnOn? switch)
  | some _, some _ => .ended .usageError

/-- Reads a group of short options. The output option takes the rest of the group as its value, an
equals sign in front of it left out. -/
def readShort (options : Options) : List Char → Progress
  | [] => .next options
  | letter :: rest =>
    match Switch.ofShort? letter with
    | none => .ended .usageError
    | some .output =>
      match rest with
      | [] => if options.output.isSome then .ended .usageError else .awaitOutput options
      | '=' :: path => .ofOptions? (options.setOutput? path)
      | path => .ofOptions? (options.setOutput? path)
    | some .version => .ended .version
    | some .help => .ended .help
    | some switch =>
      match options.turnOn? switch with
      | some options => readShort options rest
      | none => .ended .usageError

/-- Splits a long option at its first equals sign. -/
def splitValue (text : List Char) : List Char × Option (List Char) :=
  match text.dropWhile (· != '=') with
  | [] => (text, none)
  | _ :: value => (text.takeWhile (· != '='), some value)

/-- Reads one argument in front of a pair of dashes. -/
def readArgument (options : Options) : List Char → Progress
  | '-' :: '-' :: text =>
    let (name, value) := splitValue text
    readLong options name value
  | ['-'] => .ofOptions? (options.setInput? ['-'])
  | '-' :: letters => readShort options letters
  | path => .ofOptions? (options.setInput? path)

/-- Reads arguments that are positional whatever they look like. -/
def readPositional (options : Options) : List (List Char) → Request
  | [] => options.finish
  | path :: rest =>
    match options.setInput? path with
    | some options => readPositional options rest
    | none => .usageError

/-- Whether an argument looks like an option, so that it is no value of the one before it. -/
def looksLikeOption : List Char → Bool
  | '-' :: _ :: _ => true
  | _ => false

/-- Reads arguments; `awaited` tells that the first of them is the output path. -/
def readFrom (options : Options) : (awaited : Bool) → List (List Char) → Request
  | false, [] => options.finish
  | true, [] => .usageError
  | true, path :: rest =>
    if looksLikeOption path then .usageError
    else
      match options.setOutput? path with
      | some options => readFrom options false rest
      | none => .usageError
  | false, argument :: rest =>
    if argument = ['-', '-'] then readPositional options rest
    else
      match readArgument options argument with
      | .next options => readFrom options false rest
      | .awaitOutput options => readFrom options true rest
      | .ended request => request

/-- What the arguments ask for. -/
def Request.ofArguments (arguments : List String) : Request :=
  readFrom {} false (arguments.map String.toList)

end Chiptune.Cli
