import Chiptune.Text.Word

/-!
# Directives

The words that give a song text its shape. The text starts with its format mark, an optional title
and the entry values follow, then tracks, each closed by its own directive, and an end mark.
-/

namespace Chiptune

inductive Directive where
  | formatMark
  | title
  | entry
  | track
  | endTrack
  | endSong
deriving DecidableEq, Repr

namespace Directive

def keyword : Directive → String
  | formatMark => "ATM1"
  | title => "NAME"
  | entry => "ENTRY"
  | track => "TRACK"
  | endTrack => "ENDTRACK"
  | endSong => "END"

/-- Whether a word spells the directive, in letters of any case. -/
def isSpelledBy (directive : Directive) (word : Text.Word) : Bool :=
  Text.sameLetters word directive.keyword.toList

end Directive

end Chiptune
