import Chiptune.Text.Printable

/-!
# Quoted text

The form in which a diagnostic shows a piece of text: in double quotes, on one line, with quotes and
backslashes escaped. Characters that are not shown as themselves are given by their code point in
hexadecimal.
-/

namespace Chiptune.Text

/-- A character as it stands between the quotes. -/
def quoteChar (c : Char) : List Char :=
  match c with
  | '"' => ['\\', '"']
  | '\\' => ['\\', '\\']
  | '\n' => ['\\', 'n']
  | '\r' => ['\\', 'r']
  | '\t' => ['\\', 't']
  | '\x00' => ['\\', '0']
  | c =>
    if isPrintable c then [c]
    else ['\\', 'u', '\x7b'] ++ Nat.toDigits 16 c.toNat ++ ['\x7d']

def quoted (text : String) : String :=
  String.ofList ('"' :: (text.toList.flatMap quoteChar ++ ['"']))

end Chiptune.Text
