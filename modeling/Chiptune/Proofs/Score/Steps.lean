import Chiptune.Proofs.Score.Reading

/-!
# Readers step by step

A text is read in two parts: `readFront` moves a cursor over its characters up to the entry values,
as a title is no word, and `readBody` has the words from there on. Here are the equations of the two
loops of the body, one for each way a step can go, and the faults that a step can report.

What can be wrong with a song text is told by its cause: a word in the place of a directive, an end
that comes too early, a number out of range, or a word that is no number. `Song.isOfText_of_compile`
says that the compiler reports nothing else. In particular it never runs out of memory, and it never
uses the causes that are kept for reasons in other words.
-/

namespace Chiptune

open Text

theorem bind_eq_error_iff {α β : Type} {first : Except Error α} {next : α → Except Error β}
    {fault : Error} : (first >>= next) = .error fault ↔
      first = .error fault ∨ ∃ a, first = .ok a ∧ next a = .error fault := by
  cases first with
  | ok a => simp [bind, Except.bind]
  | error fault' => simp [bind, Except.bind]

theorem Directive.isSpelledBy_eq_false {directive other : Directive} {word : Word}
    (hspelled : directive.isSpelledBy word = true) (hne : directive ≠ other) :
    other.isSpelledBy word = false := by
  rw [Bool.eq_false_iff]
  intro hother
  exact hne (eq_of_isSpelledBy hspelled hother)

namespace Score

/-- Reads the format mark, the title and the directive in front of the entry values, and gives back
the title and the text behind that directive. -/
def readFront (text : List Char) : Except Error (Option String × List Char) := do
  let body ← expect .formatMark text
  readTitle body

/-- Reads the entry values and the tracks. -/
def readBody (words : List Word) : Except Error (Entry × List Track) := do
  let (entry, rest) ← readEntry words
  let tracks ← readTracks 0 [] rest
  return (entry, tracks)

theorem read_eq_readFront (text : List Char) : read text = do
    let (title, rest) ← readFront text
    let (entry, tracks) ← readBody (words rest)
    return ⟨title, entry, tracks⟩ := by
  simp only [read, readFront, readBody, bind_assoc, pure_bind]

theorem readToken_directive (text : List Char) :
    readToken directiveLimit text = match nextWord text with
      | none => (none, [])
      | some (word, rest) => (some (word.take directiveLimit), rest) := rfl

/-! ### One step inside a track -/

variable {instrs : List Instr} {word : Word} {words rest : List Word} {fault : Error}

theorem readTrack_of_closing (hclosing : Directive.endTrack.isSpelledBy word = true) :
    readTrack instrs (word :: words) = .ok (instrs.reverse, words) := by
  rw [readTrack]
  simp only [Directive.isSpelledBy_take, hclosing, if_true]

theorem readTrack_of_instr {instr : Instr} (hopen : Directive.endTrack.isSpelledBy word = false)
    (hinstr : Instr.read (word.take directiveLimit) words = (.ok instr, rest)) :
    readTrack instrs (word :: words) = readTrack (instr :: instrs) rest := by
  rw [readTrack]
  simp only [Directive.isSpelledBy_take, hopen, Bool.false_eq_true, if_false]
  split
  · next heq =>
    rw [hinstr] at heq
    cases heq
    rfl
  · next heq =>
    rw [hinstr] at heq
    cases heq

theorem readTrack_of_fault (hopen : Directive.endTrack.isSpelledBy word = false)
    (hinstr : Instr.read (word.take directiveLimit) words = (.error fault, rest)) :
    readTrack instrs (word :: words) = .error fault := by
  rw [readTrack]
  simp only [Directive.isSpelledBy_take, hopen, Bool.false_eq_true, if_false]
  split
  · next heq =>
    rw [hinstr] at heq
    cases heq
  · next heq =>
    rw [hinstr] at heq
    cases heq
    rfl

/-- What holds at the end of the words, and in front of a word if it holds behind what the word
starts, holds throughout a track. -/
@[elab_as_elim]
theorem readTrack_induction {motive : List Instr → List Word → Prop}
    (nil : ∀ instrs, motive instrs [])
    (closing : ∀ instrs word words, Directive.endTrack.isSpelledBy word = true →
      motive instrs (word :: words))
    (instr : ∀ instrs word words instr rest, Directive.endTrack.isSpelledBy word = false →
      Instr.read (word.take directiveLimit) words = (.ok instr, rest) →
      motive (instr :: instrs) rest → motive instrs (word :: words))
    (fault : ∀ instrs word words fault rest, Directive.endTrack.isSpelledBy word = false →
      Instr.read (word.take directiveLimit) words = (.error fault, rest) →
      motive instrs (word :: words))
    (instrs : List Instr) (words : List Word) : motive instrs words := by
  fun_induction readTrack instrs words with
  | case1 instrs => exact nil instrs
  | case2 instrs word words operation hend =>
    rw [Directive.isSpelledBy_take] at hend
    exact closing instrs word words hend
  | case3 instrs word words operation hend instr' rest hread ih =>
    rw [Directive.isSpelledBy_take, Bool.not_eq_true] at hend
    exact instr instrs word words instr' rest hend hread ih
  | case4 instrs word words operation hend fault' rest hread =>
    rw [Directive.isSpelledBy_take, Bool.not_eq_true] at hend
    exact fault instrs word words fault' rest hend hread

/-! ### One step between tracks -/

variable {size : Nat} {tracks : List Track}

theorem readTracks_of_endMark (hend : Directive.endSong.isSpelledBy word = true) :
    readTracks size tracks (word :: words) = closeTracks tracks.reverse := by
  rw [readTracks]
  simp only [Directive.isSpelledBy_take, hend, if_true]

theorem readTracks_of_stray (hend : Directive.endSong.isSpelledBy word = false)
    (htrack : Directive.track.isSpelledBy word = false) :
    readTracks size tracks (word :: words) =
      .error (unexpected [.track, .endSong] (some (word.take directiveLimit))) := by
  rw [readTracks]
  simp only [Directive.isSpelledBy_take, hend, htrack, Bool.false_eq_true, if_false, Bool.not_false,
    if_true]

variable (htrack : Directive.track.isSpelledBy word = true)

include htrack in
theorem readTracks_of_offset (hsize : maxOffset < size) :
    readTracks size tracks (word :: words) = .error (.range (.trackOffset size)) := by
  have hend := Directive.isSpelledBy_eq_false htrack (by decide : Directive.track ≠ .endSong)
  rw [readTracks]
  simp only [Directive.isSpelledBy_take, hend, htrack, Bool.false_eq_true, if_false, Bool.not_true,
    if_pos hsize]

include htrack in
theorem readTracks_of_track (hsize : size ≤ maxOffset) {track : Track}
    (hread : readTrack [] words = .ok (track, rest)) :
    readTracks size tracks (word :: words) =
      readTracks (size + track.encode.length) (track :: tracks) rest := by
  have hend := Directive.isSpelledBy_eq_false htrack (by decide : Directive.track ≠ .endSong)
  rw [readTracks]
  simp only [Directive.isSpelledBy_take, hend, htrack, Bool.false_eq_true, if_false, Bool.not_true,
    if_neg (Nat.not_lt.2 hsize)]
  split
  · next heq =>
    rw [hread] at heq
    cases heq
    rfl
  · next heq =>
    rw [hread] at heq
    cases heq

include htrack in
theorem readTracks_of_fault (hsize : size ≤ maxOffset) (hread : readTrack [] words = .error fault) :
    readTracks size tracks (word :: words) = .error fault := by
  have hend := Directive.isSpelledBy_eq_false htrack (by decide : Directive.track ≠ .endSong)
  rw [readTracks]
  simp only [Directive.isSpelledBy_take, hend, htrack, Bool.false_eq_true, if_false, Bool.not_true,
    if_neg (Nat.not_lt.2 hsize)]
  split
  · next heq =>
    rw [hread] at heq
    cases heq
  · next heq =>
    rw [hread] at heq
    cases heq
    rfl

@[elab_as_elim]
theorem readTracks_induction {motive : Nat → List Track → List Word → Prop}
    (nil : ∀ size tracks, motive size tracks [])
    (endMark : ∀ size tracks word words, Directive.endSong.isSpelledBy word = true →
      motive size tracks (word :: words))
    (stray : ∀ size tracks word words, Directive.endSong.isSpelledBy word = false →
      Directive.track.isSpelledBy word = false → motive size tracks (word :: words))
    (offset : ∀ size tracks word words, Directive.track.isSpelledBy word = true →
      maxOffset < size → motive size tracks (word :: words))
    (track : ∀ size tracks word words track rest, Directive.track.isSpelledBy word = true →
      size ≤ maxOffset → readTrack [] words = .ok (track, rest) →
      motive (size + track.encode.length) (track :: tracks) rest →
      motive size tracks (word :: words))
    (fault : ∀ size tracks word words fault, Directive.track.isSpelledBy word = true →
      size ≤ maxOffset → readTrack [] words = .error fault → motive size tracks (word :: words))
    (size : Nat) (tracks : List Track) (words : List Word) : motive size tracks words := by
  fun_induction readTracks size tracks words with
  | case1 size tracks => exact nil size tracks
  | case2 size tracks word words token hend =>
    rw [Directive.isSpelledBy_take] at hend
    exact endMark size tracks word words hend
  | case3 size tracks word words token hend htrack =>
    rw [Directive.isSpelledBy_take, Bool.not_eq_true] at hend
    rw [Directive.isSpelledBy_take, Bool.not_eq_true'] at htrack
    exact stray size tracks word words hend htrack
  | case4 size tracks word words token hend htrack hsize =>
    rw [Directive.isSpelledBy_take, Bool.not_eq_true', Bool.not_eq_false] at htrack
    exact offset size tracks word words htrack hsize
  | case5 size tracks word words token hend htrack hsize track' rest hread ih =>
    rw [Directive.isSpelledBy_take, Bool.not_eq_true', Bool.not_eq_false] at htrack
    exact track size tracks word words track' rest htrack (Nat.not_lt.1 hsize) hread ih
  | case6 size tracks word words token hend htrack hsize fault' hread =>
    rw [Directive.isSpelledBy_take, Bool.not_eq_true', Bool.not_eq_false] at htrack
    exact fault size tracks word words fault' htrack (Nat.not_lt.1 hsize) hread

end Score

/-! ### Faults -/

/-- Whether a fault is one that a song text can have. A text may end in front of any directive but
those between tracks, where its end has a cause of its own. -/
def Error.isOfText : Error → Bool
  | .grammar (.unexpected wanted none) =>
    [[.formatMark], [.title, .entry], [.entry]].contains wanted
  | .grammar (.unexpected wanted (some _)) =>
    [[.formatMark], [.title, .entry], [.entry], [.track, .endSong]].contains wanted
  | .grammar .entryTooShort | .grammar .missingEnd | .grammar .openTrack
  | .grammar (.missingArgument _) => true
  | .range (.note _) | .range (.delay _) | .range (.trackOffset _) | .range (.trackCount _) => true
  | .literal _ => true
  | .grammar (.other _) | .range (.other _) | .tooLarge _ _ | .emptyInput | .outOfMemory
  | .input _ => false

theorem isOfText_of_readLiterals {missing fault : Error} (hmissing : missing.isOfText = true)
    {count : Nat} {words rest : List Word}
    (hread : readLiterals missing count words = (.error fault, rest)) : fault.isOfText = true := by
  induction count generalizing rest with
  | zero => cases hread
  | succ count ih =>
    rw [readLiterals] at hread
    split at hread
    · next hfront =>
      cases hread
      exact ih hfront
    · cases hread
      exact hmissing
    · split at hread
      · cases hread
      · cases hread
        rfl

/-- Arguments that are read but not allowed are out of range. -/
theorem Instr.exists_range_of_ofArguments {mnemonic : Mnemonic}
    {values : Vector Int mnemonic.argumentCount} {fault : Error}
    (hread : ofArguments mnemonic values = .error fault) :
    ∃ value, fault = .range (.note value) ∨ fault = .range (.delay value) := by
  cases mnemonic with
  | rawByte => cases hread
  | note =>
    simp only [ofArguments] at hread
    split at hread
    · cases hread
    · cases hread
      exact ⟨_, Or.inl rfl⟩
  | delay =>
    simp only [ofArguments, Ticks.ofInt] at hread
    split at hread
    · cases hread
      exact ⟨_, Or.inr rfl⟩
    · cases hread
  | control op => cases hread

theorem Instr.isOfText_of_read {operation : Word} {words rest : List Word} {fault : Error}
    (hread : read operation words = (.error fault, rest)) : fault.isOfText = true := by
  unfold read at hread
  split at hread
  · split at hread
    · cases hread
    · cases hread
      rfl
  · split at hread
    · obtain ⟨value, rfl | rfl⟩ := exists_range_of_ofArguments (Prod.mk.inj hread).1 <;> rfl
    · next hliterals =>
      cases hread
      exact isOfText_of_readLiterals rfl hliterals

namespace Score

theorem isOfText_of_readTrack {instrs : List Instr} {words : List Word} {fault : Error}
    (hread : readTrack instrs words = .error fault) : fault.isOfText = true := by
  induction instrs, words using readTrack_induction with
  | nil instrs =>
    rw [readTrack] at hread
    cases hread
    rfl
  | closing instrs word words hend =>
    rw [readTrack_of_closing hend] at hread
    cases hread
  | instr instrs word words instr rest hend hinstr ih =>
    rw [readTrack_of_instr hend hinstr] at hread
    exact ih hread
  | fault instrs word words fault' rest hend hinstr =>
    rw [readTrack_of_fault hend hinstr] at hread
    cases hread
    exact Instr.isOfText_of_read hinstr

theorem isOfText_of_readTracks {size : Nat} {tracks : List Track} {words : List Word}
    {fault : Error} (hread : readTracks size tracks words = .error fault) :
    fault.isOfText = true := by
  induction size, tracks, words using readTracks_induction with
  | nil size tracks =>
    rw [readTracks] at hread
    cases hread
    rfl
  | endMark size tracks word words hend =>
    rw [readTracks_of_endMark hend, closeTracks] at hread
    split at hread
    · cases hread
      rfl
    · cases hread
  | stray size tracks word words hend htrack =>
    rw [readTracks_of_stray hend htrack] at hread
    cases hread
    rfl
  | offset size tracks word words htrack hsize =>
    rw [readTracks_of_offset htrack hsize] at hread
    cases hread
    rfl
  | track size tracks word words track rest htrack hsize hbody ih =>
    rw [readTracks_of_track htrack hsize hbody] at hread
    exact ih hread
  | fault size tracks word words fault' htrack hsize hbody =>
    rw [readTracks_of_fault htrack hsize hbody] at hread
    cases hread
    exact isOfText_of_readTrack hbody

theorem isOfText_of_expect {directive : Directive} {text : List Char} {fault : Error}
    (hdirective : directive = .formatMark ∨ directive = .entry)
    (hread : expect directive text = .error fault) : fault.isOfText = true := by
  unfold expect at hread
  split at hread
  · split at hread
    · cases hread
    · cases hread
      rcases hdirective with rfl | rfl <;> rfl
  · cases hread
    rcases hdirective with rfl | rfl <;> rfl

theorem isOfText_of_readTitle {text : List Char} {fault : Error}
    (hread : readTitle text = .error fault) : fault.isOfText = true := by
  unfold readTitle at hread
  split at hread
  · cases hread
    rfl
  · split at hread
    · cases hread
    · split at hread
      · simp only at hread
        split at hread
        · cases hread
        · next hexpect =>
          cases hread
          exact isOfText_of_expect (Or.inr rfl) hexpect
      · cases hread
        rfl

theorem isOfText_of_readEntry {words : List Word} {fault : Error}
    (hread : readEntry words = .error fault) : fault.isOfText = true := by
  unfold readEntry at hread
  split at hread
  · cases hread
  · next hliterals =>
    cases hread
    exact isOfText_of_readLiterals rfl hliterals

theorem isOfText_of_read {text : List Char} {fault : Error} (hread : read text = .error fault) :
    fault.isOfText = true := by
  simp only [read, bind_eq_error_iff] at hread
  rcases hread with hmark | ⟨_, _, htitle | ⟨_, _, hentry | ⟨_, _, htracks | ⟨_, _, hpure⟩⟩⟩⟩
  · exact isOfText_of_expect (Or.inl rfl) hmark
  · exact isOfText_of_readTitle htitle
  · exact isOfText_of_readEntry hentry
  · exact isOfText_of_readTracks htracks
  · cases hpure

end Score

/-- A text that does not compile cannot be read as a score, for the same reason. -/
theorem Song.compile_eq_error_iff {text : List Char} {fault : Error} :
    Song.compile text = .error fault ↔ Score.read text = .error fault := by
  unfold Song.compile
  cases Score.read text with
  | ok score => simp [Except.map]
  | error fault' => simp [Except.map]

/-- Every fault that the compiler reports is one that a text can have. -/
theorem Song.isOfText_of_compile {text : List Char} {fault : Error}
    (hcompile : Song.compile text = .error fault) : fault.isOfText = true :=
  Score.isOfText_of_read (Song.compile_eq_error_iff.1 hcompile)

end Chiptune
