import Chiptune.Error

/-!
# Directories

The files that the command line works on: a flat directory, and paths that are resolved from it. A
path is cut at slashes. `.` stays in a directory, `..` leaves the known one, and any other name on
the way would have to be a directory, of which there are none. A path that ends in a slash asks for
a directory. Nothing is known outside the directory: an absolute path, or one that has left through
`..`, leads to no file.
-/

namespace Chiptune

structure Directory where
  files : List (String × List UInt8)
deriving DecidableEq, Repr

/-- A path as the names between its slashes. -/
structure Path where
  /-- Whether the path starts outside the known directory. -/
  absolute : Bool
  names : List (List Char)
  endsInSlash : Bool
deriving DecidableEq, Repr

/-- What an existing path leads to. -/
inductive Node where
  | file (bytes : List UInt8)
  | directory
deriving DecidableEq, Repr

namespace Path

/-- The longest name of a file, in bytes. -/
def nameLimit : Nat := 255

/-- The longest path, in bytes. -/
def pathLimit : Nat := 4095

/-- The pieces of a text between slashes, empty ones left out. `piece` is the piece being read and
`found` are those before it, both latest first. -/
def splitNames (found : List (List Char)) (piece : List Char) : List Char → List (List Char)
  | [] => (if piece.isEmpty then found else piece.reverse :: found).reverse
  | c :: rest =>
    if c == '/' then splitNames (if piece.isEmpty then found else piece.reverse :: found) [] rest
    else splitNames found (c :: piece) rest

def ofString (text : String) : Path where
  absolute := text.toList.head? == some '/'
  names := splitNames [] [] text.toList
  endsInSlash := text.toList.getLast? == some '/'

def isDots (name : List Char) : Bool := name == ['.'] || name == ['.', '.']

def isTooLong (name : List Char) : Bool := nameLimit < (Text.Utf8.encode name).length

/-- Faults of a path that are found before it is resolved. -/
def check (text : String) : Except PathFault Unit :=
  if text.toList.contains '\x00' then .error .hasNul
  else if text.isEmpty then .error .notFound
  else if pathLimit < (Text.Utf8.encode text.toList).length then .error .nameTooLong
  else .ok ()

end Path

namespace Directory

def find? (directory : Directory) (name : String) : Option (List UInt8) :=
  (directory.files.find? (·.1 == name)).map (·.2)

/-- The directory with one file created or overwritten. -/
def write (directory : Directory) (name : String) (bytes : List UInt8) : Directory :=
  if (directory.find? name).isSome then
    ⟨directory.files.map fun file => if file.1 == name then (name, bytes) else file⟩
  else ⟨directory.files ++ [(name, bytes)]⟩

/-- Follows names that all have to be directories. `home` tells whether the way is still in the
known directory. -/
def walk (directory : Directory) (home : Bool) : List (List Char) → Except PathFault Bool
  | [] => .ok home
  | name :: rest =>
    if name == ['.'] then walk directory home rest
    else if name == ['.', '.'] then walk directory false rest
    else if Path.isTooLong name then .error .nameTooLong
    else if home && (directory.find? (String.ofList name)).isSome then .error .notADirectory
    else .error .notFound

/-- What stands at a path. -/
def lookUp (directory : Directory) (text : String) : Except PathFault Node := do
  Path.check text
  let path := Path.ofString text
  match path.names.getLast? with
  | none => return .directory
  | some name =>
    let home ← directory.walk (!path.absolute) path.names.dropLast
    if Path.isDots name then return .directory
    if Path.isTooLong name then throw .nameTooLong
    match if home then directory.find? (String.ofList name) else none with
    | none => throw .notFound
    | some bytes => if path.endsInSlash then throw .notADirectory else return .file bytes

/-- The name of the file that is created, or overwritten, at a path. -/
def nameToWrite (directory : Directory) (text : String) : Except PathFault String := do
  Path.check text
  let path := Path.ofString text
  match path.names.getLast? with
  | none => throw .isADirectory
  | some name =>
    let home ← directory.walk (!path.absolute) path.names.dropLast
    if Path.isDots name || path.endsInSlash then throw .isADirectory
    if Path.isTooLong name then throw .nameTooLong
    if home then return String.ofList name else throw .notFound

end Directory

end Chiptune
