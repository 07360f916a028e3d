import Chiptune.Instr.Reader
import Chiptune.Score
import Chiptune.Text.Line

/-!
# Reading scores

A song text is read in four parts: the format mark, an optional title, the entry values, and the
tracks up to the end mark; what follows the end mark is not looked at. The first fault in the order
of the text is the one reported. A track whose offset does not fit in two bytes is refused where it
starts, and the number of tracks is checked at the end mark.
-/

namespace Chiptune

open Text

/-- How many characters of a title are kept. -/
def titleLimit : Nat := 47

/-- The greatest offset at which a track can start. -/
def maxOffset : Nat := 65535

namespace Score

/-- The fault of a word in a place where only `wanted` directives can stand. -/
def unexpected (wanted : List Directive) (found : Option Word) : Error :=
  .grammar (.unexpected wanted (found.map String.ofList))

/-- Reads one directive and gives back the text after it. -/
def expect (directive : Directive) (text : List Char) : Except Error (List Char) :=
  match readToken directiveLimit text with
  | (some token, rest) =>
    if directive.isSpelledBy token then .ok rest else .error (unexpected [directive] (some token))
  | (none, _) => .error (unexpected [directive] none)

/-- Reads the optional title and the directive in front of the entry values. -/
def readTitle (text : List Char) : Except Error (Option String × List Char) :=
  match readToken directiveLimit text with
  | (none, _) => .error (unexpected [.title, .entry] none)
  | (some token, rest) =>
    if Directive.entry.isSpelledBy token then .ok (none, rest)
    else if Directive.title.isSpelledBy token then
      let (title, rest) := takeTitle Directive.entry.keyword.toList 4 rest
      match expect .entry rest with
      | .ok rest => .ok (some (String.ofList (title.take titleLimit)), rest)
      | .error fault => .error fault
    else .error (unexpected [.title, .entry] (some token))

/-- Reads the entry values, of which the low eight bits are kept. -/
def readEntry (words : List Word) : Except Error (Entry × List Word) :=
  match readLiterals (.grammar .entryTooShort) 4 words with
  | (.ok values, rest) => .ok (values.map UInt8.ofInt, rest)
  | (.error fault, _) => .error fault

/-- Reads instructions up to the end of the track. `found` holds those already read, latest
first. -/
def readTrack (found : List Instr) : List Word → Except Error (Track × List Word)
  | [] => .error (.grammar .openTrack)
  | word :: rest =>
    let operation := word.take directiveLimit
    if Directive.endTrack.isSpelledBy operation then .ok (found.reverse, rest)
    else
      match _hread : Instr.read operation rest with
      | (.ok instr, rest') => readTrack (instr :: found) rest'
      | (.error fault, _) => .error fault
termination_by words => words.length
decreasing_by exact Nat.lt_succ_of_le (Instr.length_le_of_read _hread)

theorem length_lt_of_readTrack {found : List Instr} {words rest : List Word} {track : Track}
    (hread : readTrack found words = .ok (track, rest)) : rest.length < words.length := by
  fun_induction readTrack found words with
  | case1 => cases hread
  | case2 =>
    cases hread
    exact Nat.lt_succ_self _
  | case3 found word rest' operation hend instr rest'' hinstr ih =>
    exact Nat.lt_succ_of_lt (Nat.lt_of_lt_of_le (ih hread) (Instr.length_le_of_read hinstr))
  | case4 => cases hread

/-- Ends a song with these tracks. -/
def closeTracks (tracks : List Track) : Except Error (List Track) :=
  if tracks.length = 0 ∨ maxTracks < tracks.length then
    .error (.range (.trackCount tracks.length))
  else .ok tracks

/-- Reads tracks up to the end mark. `size` is the number of bytes of the tracks `found`, which were
read before, latest first. -/
def readTracks (size : Nat) (found : List Track) : List Word → Except Error (List Track)
  | [] => .error (.grammar .missingEnd)
  | word :: rest =>
    let token := word.take directiveLimit
    if Directive.endSong.isSpelledBy token then closeTracks found.reverse
    else if !Directive.track.isSpelledBy token then
      .error (unexpected [.track, .endSong] (some token))
    else if maxOffset < size then .error (.range (.trackOffset size))
    else
      match _hread : readTrack [] rest with
      | .ok (track, rest') => readTracks (size + track.encode.length) (track :: found) rest'
      | .error fault => .error fault
termination_by words => words.length
decreasing_by exact Nat.lt_succ_of_lt (length_lt_of_readTrack _hread)

/-- The score that a song text spells. -/
def read (text : List Char) : Except Error Score := do
  let text ← expect .formatMark text
  let (title, text) ← readTitle text
  let (entry, body) ← readEntry (words text)
  let tracks ← readTracks 0 [] body
  return ⟨title, entry, tracks⟩

end Score

/-- The song that a song text spells. -/
def Song.compile (text : List Char) : Except Error Song := (Score.read text).map Score.toSong

/-- The image of the song that a song text spells. -/
def Song.assemble (text : List Char) : Except Error (List UInt8) := do
  let song ← Song.compile text
  song.toImage

end Chiptune
