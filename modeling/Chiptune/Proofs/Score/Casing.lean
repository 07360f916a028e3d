import Chiptune.Proofs.Score.Steps
import Chiptune.Proofs.Text.Casing
import Mathlib.Data.List.Forall2

/-!
# Layout and letter case

Two texts with the same words, up to letter case, come to the same, if they have no title: the same
song, or faults of the same kind (`Song.compile_sameVerdict`).

Two facts carry this. Without a title a text is read from its words alone, so its layout does not
matter (`Score.read_eq_readWords`). And reading commutes with lowering all words: each reader, given
small letters, does what it did before with small letters in what it gives back and in the word that
it complains about. Two texts that agree up to case are the same when lowered, so nothing is said
about pairs of runs.
-/

namespace Chiptune

open Text

/-- Two outcomes that agree: the same song, or a fault of the same kind in the same variant. Faults
of range are the same down to the number. -/
inductive SameVerdict : Except Error Song → Except Error Song → Prop
  | song (song : Song) : SameVerdict (.ok song) (.ok song)
  | grammar (fault fault' : GrammarFault) :
      SameVerdict (.error (.grammar fault)) (.error (.grammar fault'))
  | range (fault : RangeFault) : SameVerdict (.error (.range fault)) (.error (.range fault))
  | literal (token token' : String) :
      SameVerdict (.error (.literal token)) (.error (.literal token'))

/-- A text in small letters. -/
def lowerString (text : String) : String := String.ofList (lower text.toList)

theorem lowerString_ofList (word : Word) :
    lowerString (String.ofList word) = String.ofList (lower word) := by
  rw [lowerString, String.toList_ofList]

def GrammarFault.lower : GrammarFault → GrammarFault
  | .unexpected wanted found => .unexpected wanted (found.map lowerString)
  | fault => fault

/-- The fault with the word that it complains about in small letters. -/
def Error.lower : Error → Error
  | .grammar fault => .grammar fault.lower
  | .literal token => .literal (lowerString token)
  | fault => fault

theorem Error.lower_unexpected (wanted : List Directive) (word : Word) :
    (Score.unexpected wanted (some word)).lower =
      Score.unexpected wanted (some (Text.lower word)) := by
  simp only [Score.unexpected, lower, GrammarFault.lower, Option.map_some, lowerString_ofList]

theorem Error.lower_literal (word : Word) :
    (Error.literal (String.ofList word)).lower = .literal (String.ofList (Text.lower word)) := by
  simp only [lower, lowerString_ofList]

/-- The outcome of a reader with the words it complains about and those it gives back in small
letters. -/
def lowerOutcome {α : Type} : Except Error (α × List Word) → Except Error (α × List Word)
  | .ok (value, rest) => .ok (value, rest.map lower)
  | .error fault => .error fault.lower

/-! ### Readers of words -/

theorem readLiterals_lower (missing : Error) (hmissing : missing.lower = missing) (count : Nat)
    (words : List Word) : readLiterals missing count (words.map lower) =
      ((readLiterals missing count words).1.mapError Error.lower,
        (readLiterals missing count words).2.map lower) := by
  induction count with
  | zero => rfl
  | succ count ih =>
    rw [readLiterals, readLiterals, ih]
    cases readLiterals missing count words with
    | mk outcome rest =>
      cases outcome with
      | error fault => rfl
      | ok values =>
        cases rest with
        | nil => simp [Except.mapError, hmissing]
        | cons word rest =>
          simp only [Except.mapError, List.map_cons, ← lower_take, Literal.parse_lower]
          cases Literal.parse (word.take argumentLimit) with
          | some value => rfl
          | none => simp only [Error.lower_literal]

theorem Instr.ofArguments_lower (mnemonic : Mnemonic) (values : Vector Int mnemonic.argumentCount) :
    (ofArguments mnemonic values).mapError Error.lower = ofArguments mnemonic values := by
  cases houtcome : ofArguments mnemonic values with
  | ok instr => rfl
  | error fault =>
    obtain ⟨value, rfl | rfl⟩ := exists_range_of_ofArguments houtcome <;> rfl

theorem Instr.read_lower (operation : Word) (words : List Word) :
    read (lower operation) (words.map lower) =
      ((read operation words).1.mapError Error.lower, (read operation words).2.map lower) := by
  unfold read
  rw [Mnemonic.ofWord?_lower, Literal.parse_lower]
  cases Mnemonic.ofWord? operation with
  | none =>
    cases Literal.parse operation with
    | some value => rfl
    | none => simp only [Except.mapError, Error.lower_literal]
  | some mnemonic =>
    simp only [readLiterals_lower (.grammar (.missingArgument mnemonic)) rfl]
    cases readLiterals (.grammar (.missingArgument mnemonic)) mnemonic.argumentCount words with
    | mk outcome rest =>
      cases outcome with
      | ok values => exact congrArg (·, rest.map lower) (ofArguments_lower mnemonic values).symm
      | error fault => rfl

namespace Score

theorem readTrack_lower (instrs : List Instr) (words : List Word) :
    readTrack instrs (words.map lower) = lowerOutcome (readTrack instrs words) := by
  induction instrs, words using readTrack_induction with
  | nil instrs =>
    rw [List.map_nil, readTrack]
    rfl
  | closing instrs word words hend =>
    rw [readTrack_of_closing hend]
    rw [← Directive.isSpelledBy_lower] at hend
    rw [List.map_cons, readTrack_of_closing hend]
    rfl
  | instr instrs word words instr rest hend hinstr ih =>
    have hlower := Instr.read_lower (word.take directiveLimit) words
    rw [hinstr, lower_take] at hlower
    rw [readTrack_of_instr hend hinstr, ← ih]
    rw [← Directive.isSpelledBy_lower] at hend
    exact readTrack_of_instr hend hlower
  | fault instrs word words fault rest hend hinstr =>
    have hlower := Instr.read_lower (word.take directiveLimit) words
    rw [hinstr, lower_take] at hlower
    rw [readTrack_of_fault hend hinstr]
    rw [← Directive.isSpelledBy_lower] at hend
    exact readTrack_of_fault hend hlower

theorem readTracks_lower (size : Nat) (tracks : List Track) (words : List Word) :
    readTracks size tracks (words.map lower) =
      (readTracks size tracks words).mapError Error.lower := by
  induction size, tracks, words using readTracks_induction with
  | nil size tracks =>
    rw [List.map_nil, readTracks]
    rfl
  | endMark size tracks word words hend =>
    rw [readTracks_of_endMark hend]
    rw [← Directive.isSpelledBy_lower] at hend
    rw [List.map_cons, readTracks_of_endMark hend, closeTracks]
    split <;> rfl
  | stray size tracks word words hend htrack =>
    rw [readTracks_of_stray hend htrack, Except.mapError, Error.lower_unexpected, lower_take]
    rw [← Directive.isSpelledBy_lower] at hend htrack
    exact readTracks_of_stray hend htrack
  | offset size tracks word words htrack hsize =>
    rw [readTracks_of_offset htrack hsize]
    rw [← Directive.isSpelledBy_lower] at htrack
    exact readTracks_of_offset htrack hsize
  | track size tracks word words track rest htrack hsize hbody ih =>
    have hlower := readTrack_lower [] words
    rw [hbody] at hlower
    rw [readTracks_of_track htrack hsize hbody, ← ih]
    rw [← Directive.isSpelledBy_lower] at htrack
    exact readTracks_of_track htrack hsize hlower
  | fault size tracks word words fault htrack hsize hbody =>
    have hlower := readTrack_lower [] words
    rw [hbody] at hlower
    rw [readTracks_of_fault htrack hsize hbody]
    rw [← Directive.isSpelledBy_lower] at htrack
    exact readTracks_of_fault htrack hsize hlower

theorem readEntry_lower (words : List Word) :
    readEntry (words.map lower) = lowerOutcome (readEntry words) := by
  unfold readEntry
  rw [readLiterals_lower _ rfl]
  cases readLiterals (.grammar .entryTooShort) 4 words with
  | mk outcome rest => cases outcome <;> rfl

theorem readBody_lower (words : List Word) :
    readBody (words.map lower) = (readBody words).mapError Error.lower := by
  unfold readBody
  rw [readEntry_lower]
  cases readEntry words with
  | error fault => rfl
  | ok read =>
    change (readTracks 0 [] (read.2.map lower) >>= _) =
      Except.mapError _ (readTracks 0 [] read.2 >>= _)
    rw [readTracks_lower]
    cases readTracks 0 [] read.2 <;> rfl

/-! ### Texts without a title -/

/-- Reads a score without a title from its words. -/
def readWords : List Word → Except Error Score
  | [] => .error (unexpected [.formatMark] none)
  | mark :: words =>
    if !Directive.formatMark.isSpelledBy mark then
      .error (unexpected [.formatMark] (some (mark.take directiveLimit)))
    else
      match words with
      | [] => .error (unexpected [.title, .entry] none)
      | word :: words =>
        if Directive.entry.isSpelledBy word then
          (readBody words).map fun read => ⟨none, read.1, read.2⟩
        else .error (unexpected [.title, .entry] (some (word.take directiveLimit)))

theorem read_eq_readWords {text : List Char} (huntitled : ∀ word,
    (splitWords text)[1]? = some word → Directive.title.isSpelledBy word = false) :
    read text = readWords (splitWords text) := by
  rw [read_eq_readFront, readFront, expect, readToken_directive]
  cases hnext : nextWord text with
  | none =>
    rw [splitWords_of_none hnext]
    rfl
  | some next =>
    obtain ⟨mark, body⟩ := next
    rw [splitWords_of_some hnext] at huntitled ⊢
    simp only [Directive.isSpelledBy_take, readWords]
    cases hmark : Directive.formatMark.isSpelledBy mark with
    | false => rfl
    | true =>
      change (readTitle body >>= _) = _
      rw [readTitle, readToken_directive]
      cases hnext' : nextWord body with
      | none =>
        rw [splitWords_of_none hnext']
        rfl
      | some next =>
        obtain ⟨word, rest⟩ := next
        rw [splitWords_of_some hnext'] at huntitled ⊢
        have htitle : Directive.title.isSpelledBy word = false := huntitled word rfl
        simp only [Directive.isSpelledBy_take, htitle]
        cases hentry : Directive.entry.isSpelledBy word with
        | false => rfl
        | true =>
          change (readBody (words rest) >>= _) = _
          rw [words_eq_splitWords]
          cases readBody (splitWords rest) <;> rfl

theorem readWords_lower (words : List Word) :
    readWords (words.map lower) = (readWords words).mapError Error.lower := by
  rcases words with _ | ⟨mark, _ | ⟨word, words⟩⟩
  · rfl
  · simp only [List.map_cons, List.map_nil, readWords, Directive.isSpelledBy_lower, ← lower_take,
      ← Error.lower_unexpected]
    split <;> rfl
  · simp only [List.map_cons, readWords, Directive.isSpelledBy_lower, ← lower_take,
      ← Error.lower_unexpected, readBody_lower]
    split
    · rfl
    · split
      · cases readBody words <;> rfl
      · rfl

end Score

/-- Lowering the word that a fault complains about keeps its kind. -/
theorem sameVerdict_of_lower {left right : Except Error Song}
    (hlower : left.mapError Error.lower = right.mapError Error.lower)
    (hleft : ∀ fault, left = .error fault → fault.isOfText = true) : SameVerdict left right := by
  rcases left with fault | song
  · rcases right with fault' | song'
    · have hfault : fault.lower = fault'.lower := Except.error.inj hlower
      have htext : fault.isOfText = true := hleft fault rfl
      -- Lowering keeps the variant, and a text has faults of three variants only.
      rcases fault with cause | cause | token | _ | _ | _ | _
      · rcases fault' with cause' | _ | _ | _ | _ | _ | _
        · exact .grammar cause cause'
        all_goals cases hfault
      · rcases fault' with _ | cause' | _ | _ | _ | _ | _
        · cases hfault
        · obtain rfl : cause = cause' := Error.range.inj hfault
          exact .range cause
        all_goals cases hfault
      · rcases fault' with _ | _ | token' | _ | _ | _ | _
        · cases hfault
        · cases hfault
        · exact .literal token token'
        all_goals cases hfault
      all_goals cases htext
    · cases hlower
  · rcases right with fault' | song'
    · cases hlower
    · obtain rfl : song = song' := Except.ok.inj hlower
      exact .song song

theorem map_lower_eq {words words' : List Word}
    (hwords : List.Forall₂ (fun left right => sameLetters left right = true) words words') :
    words.map lower = words'.map lower := by
  induction hwords with
  | nil => rfl
  | cons hword _ ih => rw [List.map_cons, List.map_cons, sameLetters_iff_lower.1 hword, ih]

/-- Without a title, a text compiles as its words say, and with small letters to the same song. -/
theorem Song.compile_lower {text : List Char} (huntitled : ∀ word,
    (splitWords text)[1]? = some word → Directive.title.isSpelledBy word = false) :
    (Song.compile text).mapError Error.lower =
      (Score.readWords ((splitWords text).map lower)).map Score.toSong := by
  rw [Song.compile, Score.read_eq_readWords huntitled, Score.readWords_lower]
  cases Score.readWords (splitWords text) <;> rfl

/-- Two texts without a title whose words are the same up to letter case compile to the same song,
or neither compiles and the faults are of one kind. -/
theorem Song.compile_sameVerdict {text text' : List Char}
    (huntitled : ∀ word, (splitWords text)[1]? = some word →
      Directive.title.isSpelledBy word = false)
    (hwords : List.Forall₂ (fun left right => sameLetters left right = true) (splitWords text)
      (splitWords text')) :
    SameVerdict (Song.compile text) (Song.compile text') := by
  have hlower : (splitWords text).map lower = (splitWords text').map lower := map_lower_eq hwords
  have huntitled' : ∀ word, (splitWords text')[1]? = some word →
      Directive.title.isSpelledBy word = false := by
    intro word' hword'
    have hsecond := congrArg (·[1]?) hlower
    simp only [List.getElem?_map, hword', Option.map_some, Option.map_eq_some_iff] at hsecond
    obtain ⟨word, hword, hsame⟩ := hsecond
    rw [← Directive.isSpelledBy_lower, ← hsame, Directive.isSpelledBy_lower]
    exact huntitled word hword
  apply sameVerdict_of_lower
  · rw [compile_lower huntitled, compile_lower huntitled', hlower]
  · intro fault hfault
    exact isOfText_of_compile hfault

/-- A text on one line, with a word in its second track that is no operation. -/
def denseText : List Char :=
  "ATM1 ENTRY 1 0x1F 3 4 TRACK NOTE 63 DELAY 0xa0 ENDTRACK TRACK glide".toList

/-- The same words in other letters and over several lines, with comments and commas. -/
def spreadText : List Char :=
  ("\tatm1#NAME\r,\nEntry 1,0X1f,3 ,, 4 # four\ntrack\r\nNote 63#\nDelay,0XA0\x0c" ++
    "endTrack\n\nTrack\nGLIDE").toList

theorem Song.compile_sameVerdict_spreadText :
    Song.compile denseText = .error (.literal "glide") ∧
      SameVerdict (Song.compile denseText) (Song.compile spreadText) := by
  have huntitled : ∀ word, (splitWords denseText)[1]? = some word →
      Directive.title.isSpelledBy word = false := by
    intro word hword
    have hsecond : "ENTRY".toList = word := Option.some.inj hword
    subst hsecond
    decide
  have hwords : List.Forall₂ (fun left right => sameLetters left right = true)
      (splitWords denseText) (splitWords spreadText) := by decide +kernel
  exact ⟨by decide +kernel, Song.compile_sameVerdict huntitled hwords⟩

end Chiptune
