import Chiptune.Error
import Chiptune.Text.Quoted

/-!
# Diagnostics

The line that the command line prints when it fails. It shows a fault with its kind and its parts,
where `Error.message` puts it in a sentence.
-/

namespace Chiptune

namespace PathFault

/-- The name under which a diagnostic classifies the fault. -/
def kind : PathFault → String
  | notFound => "NotFound"
  | notADirectory => "NotADirectory"
  | isADirectory => "IsADirectory"
  | nameTooLong => "InvalidFilename"
  | hasNul => "InvalidInput"

def diagnostic (fault : PathFault) : String :=
  match fault.code? with
  | some code =>
    "Os \x7b code: " ++ toString code ++ ", kind: " ++ fault.kind ++ ", message: " ++
      Text.quoted fault.description ++ " \x7d"
  | none =>
    "Error \x7b kind: " ++ fault.kind ++ ", message: " ++ Text.quoted fault.description ++ " \x7d"

end PathFault

namespace InputFault

def utf8Diagnostic (fault : Text.Utf8.Fault) : String :=
  let length :=
    match fault.length? with
    | some length => "Some(" ++ toString length ++ ")"
    | none => "None"
  "Utf8Error \x7b valid_up_to: " ++ toString fault.validUpTo ++ ", error_len: " ++ length ++ " \x7d"

/-- A fault of the given kind that carries some more detail. -/
def custom (kind detail : String) : String :=
  "Custom \x7b kind: " ++ kind ++ ", error: " ++ detail ++ " \x7d"

def diagnostic : InputFault → String
  | cannotOpen path fault => custom fault.kind (Text.quoted (openMessage path fault))
  | directory => PathFault.isADirectory.diagnostic
  | readFailed reason => custom "Other" (Text.quoted reason)
  | notText bytes fault =>
    custom "InvalidData" ("FromUtf8Error \x7b bytes: [" ++
      ", ".intercalate (bytes.map fun byte => toString byte.toNat) ++ "], error: " ++
      utf8Diagnostic fault ++ " \x7d")

end InputFault

namespace Error

def diagnostic : Error → String
  | grammar fault => "Syntax(" ++ Text.quoted fault.message ++ ")"
  | range fault => "Range(" ++ Text.quoted fault.message ++ ")"
  | literal token => "Literal(" ++ Text.quoted token ++ ")"
  | tooLarge size max =>
    "InputTooLarge \x7b size: " ++ toString size ++ ", max: " ++ toString max ++ " \x7d"
  | emptyInput => "EmptyInput"
  | outOfMemory => "OutOfMemory"
  | input fault => "Io(" ++ fault.diagnostic ++ ")"

end Error

end Chiptune
