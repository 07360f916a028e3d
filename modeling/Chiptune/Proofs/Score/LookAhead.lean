import Chiptune.Proofs.Score.Steps
import Chiptune.Proofs.Text.Title
import Chiptune.Proofs.Text.Tokens
import Mathlib.Data.List.Infix

/-!
# Looking ahead for the directive behind a title

A title may end in front of a directive on its own line. The words of that directive are passed over
twice then: once by the look-ahead, which splits the line and tests them, and once by the readers,
which move a cursor and cut every word to a limit. `takeTitle_foresees` says that the two never
disagree. Where the look-ahead stops, the cursor reads the keyword next and then as many literals as
were asked for; where it finds nothing to stop at, the cursor is at the end of the line.

So a title that shares its line with the entry values is never the reason why they cannot be read
(`Score.readEntry_of_hasDirective`).
-/

namespace Chiptune.Text

/-- One use of a cursor: to read a token, or to take a title. -/
inductive CursorCall where
  | token (limit : Nat)
  | title (keyword : List Char) (count : Nat)
deriving DecidableEq, Repr

/-- The cursor after one use. -/
def CursorCall.move : CursorCall → List Char → List Char
  | token limit, text => (readToken limit text).2
  | title keyword count, text => (takeTitle keyword count text).2

/-- The cursor after these uses, from the start of a text on. -/
def reached (source : List Char) (calls : List CursorCall) : List Char :=
  calls.foldl (fun text call => call.move text) source

/-- Some word of the line opens the directive. -/
def HasDirective (keyword : List Char) (count : Nat) (line : List Char) : Prop :=
  ∃ words, words <:+ splitWords line ∧ OpensDirective keyword count words

instance (keyword : List Char) (count : Nat) : DecidablePred (HasDirective keyword count) :=
  fun line =>
    decidable_of_iff (∃ words ∈ (splitWords line).tails, OpensDirective keyword count words)
      (by simp only [HasDirective, List.mem_tails])

/-- A line is cut in front of its first directive, which stands behind `front` as the word `mark`
and its arguments. The readers find it there: a cursor gives the mark, is then at `behind`, and
gives the arguments. -/
structure CutAtDirective (keyword : List Char) (count : Nat) (line front : List Char) (mark : Word)
    (behind : List Char) (arguments : List Word) : Prop where
  words_eq : ∃ others, splitWords line = splitWords front ++ mark :: (arguments ++ others)
  apart : ∀ c, front.getLast? = some c → isBlank c = true
  spelled : sameLetters mark keyword = true
  length_eq : arguments.length = count
  literals : ∀ argument ∈ arguments, isArgument argument = true
  first : ∀ earlier words, earlier ++ words = splitWords line →
    earlier.length < (splitWords front).length → ¬ OpensDirective keyword count words
  readToken_eq : readToken directiveLimit (mark ++ behind) = (some mark, behind)
  readings_eq : readings behind (List.replicate count argumentLimit) =
    arguments.map fun argument => some (argument.take argumentLimit)
  words_behind : ∃ others, splitWords behind = arguments ++ others

/-! ### Cursors -/

theorem CursorCall.move_suffix (call : CursorCall) (text : List Char) :
    call.move text <:+ text := by
  cases call with
  | token limit => exact readToken_suffix limit text
  | title keyword count =>
    obtain ⟨title, htitle⟩ := exists_title keyword count text
    rw [move, takeTitle_eq title htitle]
    refine ⟨title, ?_⟩
    rw [← List.append_assoc, ← htitle, currentLine_append_afterLine]

theorem reached_suffix (source : List Char) (calls : List CursorCall) :
    reached source calls <:+ source := by
  induction calls generalizing source with
  | nil => exact List.suffix_refl _
  | cons call calls ih => exact (ih _).trans (call.move_suffix source)

/-- The readings of as many words are these words. -/
theorem readings_words {limit : Nat} (hlimit : 1 ≤ limit) {text : List Char}
    {front others : List Word} (hwords : splitWords text = front ++ others) :
    readings text (List.replicate front.length limit) =
      front.map fun word => some (word.take limit) := by
  induction front generalizing text with
  | nil => rfl
  | cons word front ih =>
    have hrest : splitWords (readToken limit text).2 = front ++ others := by
      rw [splitWords_readToken, hwords]
      rfl
    have hfirst : (readToken limit text).1 = some (word.take limit) := by
      rw [readToken_token_eq hlimit, hwords]
      rfl
    rw [List.length_cons, List.replicate_succ, readings, hfirst, ih hrest, List.map_cons]

/-! ### The first directive of a line -/

variable {keyword : List Char} {count : Nat}

theorem not_opensDirective_nil : ¬ OpensDirective keyword count [] :=
  fun hopens => Nat.not_lt_zero _ hopens.lt_length

theorem skipBlanks_fromDirective (keyword : List Char) (count : Nat) (line : List Char) :
    skipBlanks false (fromDirective keyword count line) = fromDirective keyword count line := by
  fun_induction fromDirective keyword count line with
  | case1 => rfl
  | case2 => exact skipBlanks_skipBlanks _
  | case3 _ _ _ _ _ ih => exact ih

theorem opensDirective_fromDirective {line : List Char} (hhas : HasDirective keyword count line) :
    OpensDirective keyword count (splitWords (fromDirective keyword count line)) := by
  obtain ⟨words, hsuffix, hopens⟩ := hhas
  fun_induction fromDirective keyword count line with
  | case1 line hnone =>
    rw [splitWords_of_none hnone, List.suffix_nil] at hsuffix
    rw [hsuffix] at hopens
    exact absurd hopens not_opensDirective_nil
  | case2 line word rest hnext hfirst =>
    rw [splitWords_skipBlanks]
    exact hfirst
  | case3 line word rest hnext hfirst ih =>
    have hwords := splitWords_of_some hnext
    rw [hwords] at hsuffix
    rcases List.suffix_cons_iff.1 hsuffix with heq | hrest
    · rw [heq, ← hwords] at hopens
      exact absurd hopens hfirst
    · exact ih hrest

/-- No word in front of the directive that is found opens one. -/
theorem not_opensDirective_of_longer {line : List Char} {words : List Word}
    (hsuffix : words <:+ splitWords line)
    (hlonger : (splitWords (fromDirective keyword count line)).length < words.length) :
    ¬ OpensDirective keyword count words := by
  fun_induction fromDirective keyword count line with
  | case1 line hnone =>
    rw [splitWords_of_none hnone, List.suffix_nil] at hsuffix
    rw [hsuffix]
    exact not_opensDirective_nil
  | case2 line word rest hnext hfirst =>
    rw [splitWords_skipBlanks] at hlonger
    exact absurd hsuffix.length_le (Nat.not_le.2 hlonger)
  | case3 line word rest hnext hfirst ih =>
    have hwords := splitWords_of_some hnext
    rw [hwords] at hsuffix
    rcases List.suffix_cons_iff.1 hsuffix with heq | hrest
    · rw [heq, ← hwords]
      exact hfirst
    · exact ih hrest hlonger

/-- What lies in front of the directive ends in a blank, so it shares no word with it. -/
theorem exists_front_of_fromDirective {line : List Char} (hhash : '#' ∉ line)
    (hfound : fromDirective keyword count line ≠ []) :
    ∃ front, line = front ++ fromDirective keyword count line ∧
      ∀ c, front.getLast? = some c → isBlank c = true := by
  fun_induction fromDirective keyword count line with
  | case1 => exact absurd rfl hfound
  | case2 line word rest hnext hfirst =>
    obtain ⟨hline, hskip, -, -⟩ := eq_of_nextWord hhash hnext
    refine ⟨line.takeWhile isBlank, hskip ▸ hline, ?_⟩
    intro c hc
    exact List.all_eq_true.1 List.all_takeWhile c (List.mem_of_getLast? hc)
  | case3 line word rest hnext hfirst ih =>
    obtain ⟨hline, -, -, hhead⟩ := eq_of_nextWord hhash hnext
    obtain ⟨front, hrest, hlast⟩ := ih (hash_not_mem_of_nextWord hhash hnext) hfound
    -- The word in front of the rest ends at a delimiter, and a directive does not start with one.
    have hne : front ≠ [] := by
      rintro rfl
      obtain ⟨c, tail, hcons⟩ := List.exists_cons_of_ne_nil hfound
      have hskip := skipBlanks_fromDirective keyword count rest
      rw [hcons] at hskip
      have hdelimiter : isDelimiter c = true := by
        apply hhead
        rw [hrest, hcons]
        rfl
      rw [isDelimiter_of_skipBlanks hskip] at hdelimiter
      cases hdelimiter
    refine ⟨line.takeWhile isBlank ++ word ++ front, ?_, ?_⟩
    · rw [List.append_assoc, ← hrest, List.append_assoc]
      exact hline
    · intro c hc
      rw [List.getLast?_append_of_ne_nil _ hne] at hc
      exact hlast c hc

theorem splitWords_append_of_apart {front more : List Char} (hhash : '#' ∉ front)
    (hapart : ∀ c, front.getLast? = some c → isBlank c = true) :
    splitWords (front ++ more) = splitWords front ++ splitWords more := by
  rcases List.eq_nil_or_concat' front with rfl | ⟨init, c, rfl⟩
  · rfl
  · have hblank : isBlank c = true := hapart c (by simp)
    have hinit : '#' ∉ init := fun hmem => hhash (List.mem_append_left _ hmem)
    have hnil : splitWords [] = [] := rfl
    rw [List.append_assoc, List.singleton_append, splitWords_append_blank hinit hblank,
      splitWords_append_blank hinit hblank, hnil, List.append_nil]

theorem exists_mark_of_hasDirective {line : List Char} (hhash : '#' ∉ line)
    (hhas : HasDirective keyword count line) :
    ∃ (front : List Char) (mark : Word) (tail : List Char), line = front ++ (mark ++ tail) ∧
      fromDirective keyword count line = mark ++ tail ∧
      nextWord (mark ++ tail) = some (mark, tail) ∧
      ∀ c, front.getLast? = some c → isBlank c = true := by
  have hopens := opensDirective_fromDirective hhas
  have hskip := skipBlanks_fromDirective keyword count line
  obtain ⟨mark, arguments, others, hwords, -, -, -⟩ := hopens
  obtain ⟨tail, hnext, -⟩ := exists_nextWord_of_splitWords hwords
  have hfound : fromDirective keyword count line ≠ [] := by
    intro hnil
    rw [hnil] at hwords
    cases hwords
  obtain ⟨front, hline, hapart⟩ := exists_front_of_fromDirective hhash hfound
  have hmark : fromDirective keyword count line = mark ++ tail := by
    rw [← hskip]
    refine (eq_of_nextWord ?_ hnext).2.1
    exact fun hmem => hhash ((fromDirective_suffix keyword count hhash).subset hmem)
  rw [hmark] at hline hnext
  exact ⟨front, mark, tail, hline, hmark, hnext, hapart⟩

/-! ### The text behind a line -/

theorem head?_afterLine {text : List Char} {c : Char} (hhead : (afterLine text).head? = some c) :
    c = '\n' ∨ c = '#' := by
  have hnot := List.head?_dropWhile_not (fun c => c != '\n' && c != '#') text
  rw [afterLine] at hhead
  rw [hhead] at hnot
  simpa [or_iff_not_imp_left] using hnot

theorem nextWord_append_of_closed {text rest more : List Char} {word : Word}
    (hnext : nextWord text = some (word, rest))
    (hclosed : ∀ c, more.head? = some c → isDelimiter c = true) :
    nextWord (text ++ more) = some (word, rest ++ more) := by
  cases more with
  | nil => rwa [List.append_nil, List.append_nil]
  | cons d more => exact nextWord_append hnext (hclosed d rfl) more

theorem exists_splitWords_append_of_closed {more : List Char} (text : List Char)
    (hclosed : ∀ c, more.head? = some c → isDelimiter c = true) :
    ∃ added, splitWords (text ++ more) = splitWords text ++ added := by
  cases more with
  | nil => exact ⟨[], by rw [List.append_nil, List.append_nil]⟩
  | cons d more =>
    obtain ⟨added, hadded⟩ := exists_words_append (hclosed d rfl) text more
    rw [words_eq_splitWords, words_eq_splitWords] at hadded
    exact ⟨added, hadded⟩

/-! ### Where the look-ahead stops -/

/-- A line is cut in front of its first directive, and the readers find the directive there whatever
text closes the line. -/
theorem exists_cutAtDirective (hkeyword : keyword.length ≤ directiveLimit) {line more : List Char}
    (hhash : '#' ∉ line) (hclosed : ∀ c, more.head? = some c → isDelimiter c = true)
    (hhas : HasDirective keyword count line) :
    ∃ (front : List Char) (mark : Word) (tail : List Char) (arguments : List Word),
      line = front ++ fromDirective keyword count line ∧
      fromDirective keyword count line = mark ++ tail ∧
      CutAtDirective keyword count line front mark (tail ++ more) arguments := by
  obtain ⟨front, mark, tail, hline, hfound, hnext, hapart⟩ := exists_mark_of_hasDirective hhash hhas
  have hfront : '#' ∉ front := by
    intro hmem
    rw [hline] at hhash
    exact hhash (List.mem_append_left _ hmem)
  have hsplit : splitWords line = splitWords front ++ mark :: splitWords tail := by
    rw [hline, splitWords_append_of_apart hfront hapart, splitWords_of_some hnext]
  have hopens := opensDirective_fromDirective hhas
  have hlonger := @not_opensDirective_of_longer keyword count line
  rw [hfound, splitWords_of_some hnext] at hopens hlonger
  obtain ⟨mark, arguments, others, hwords, hspelled, hlength, hliterals⟩ := hopens
  obtain ⟨rfl, htail⟩ := List.cons.inj hwords
  -- Behind the line more words may follow, but the readers find those of the line first.
  obtain ⟨added, hadded⟩ := exists_splitWords_append_of_closed tail hclosed
  have hbehind := nextWord_append_of_closed hnext hclosed
  rw [htail, List.append_assoc] at hadded
  rw [List.append_assoc] at hbehind
  have hkept : mark.take directiveLimit = mark := by
    apply List.take_of_length_le
    rw [length_eq_of_sameLetters hspelled]
    exact hkeyword
  refine ⟨front, mark, tail, arguments, by rw [hfound, ← hline], hfound, ?_⟩
  constructor
  case words_eq => exact ⟨others, by rw [hsplit, htail]⟩
  case apart => exact hapart
  case spelled => exact hspelled
  case length_eq => exact hlength
  case literals => exact hliterals
  case first =>
    intro earlier words hsuffix hearlier
    have hsum := congrArg List.length (hsuffix.trans hsplit)
    rw [List.length_append, List.length_append] at hsum
    exact hlonger ⟨earlier, hsuffix⟩ (by omega)
  case readToken_eq =>
    simp only [readToken, hbehind, hkept]
    rfl
  case readings_eq =>
    rw [← hlength]
    exact readings_words (by decide) hadded
  case words_behind => exact ⟨others ++ added, hadded⟩

/-- With a directive on the line, the title ends in front of the first one. -/
theorem takeTitle_of_hasDirective (hkeyword : keyword.length ≤ directiveLimit) {text : List Char}
    (hhas : HasDirective keyword count (currentLine text)) :
    ∃ (front : List Char) (mark : Word) (behind : List Char) (arguments : List Word),
      text = front ++ (mark ++ behind) ∧
      titleSize keyword count text = (Utf8.encode front).length ∧
      takeTitle keyword count text = (trimBlanks front, mark ++ behind) ∧
      CutAtDirective keyword count (currentLine text) front mark behind arguments := by
  have hclosed : ∀ c, (afterLine text).head? = some c → isDelimiter c = true := by
    intro c hc
    rcases head?_afterLine hc with rfl | rfl <;> decide
  obtain ⟨front, mark, tail, arguments, hline, hfound, hcut⟩ :=
    exists_cutAtDirective hkeyword (not_mem_currentLine text).2 hclosed hhas
  have htitle := takeTitle_eq front hline
  have htext := currentLine_append_afterLine text
  rw [hfound, List.append_assoc] at htitle
  rw [hline, hfound, List.append_assoc, List.append_assoc] at htext
  exact ⟨front, mark, tail ++ afterLine text, arguments, htext.symm, titleSize_eq front hline,
    htitle, hcut⟩

/-- Without one, it ends where the line does. -/
theorem takeTitle_of_not_hasDirective {text : List Char}
    (hnone : ¬ HasDirective keyword count (currentLine text)) :
    titleSize keyword count text = (Utf8.encode (currentLine text)).length ∧
      takeTitle keyword count text = (trimBlanks (currentLine text), afterLine text) := by
  have hnil : fromDirective keyword count (currentLine text) = [] := by
    apply fromDirective_eq_nil
    intro words hsuffix hopens
    exact hnone ⟨words, hsuffix, hopens⟩
  have hline : currentLine text =
      currentLine text ++ fromDirective keyword count (currentLine text) := by
    rw [hnil, List.append_nil]
  refine ⟨titleSize_eq _ hline, ?_⟩
  rw [takeTitle_eq _ hline, hnil, List.nil_append]

end Chiptune.Text

namespace Chiptune.Score

open Text

/-- Entry values on the line of a title are read without a fault. -/
theorem readEntry_of_hasDirective {body line : List Char} {word : Word}
    (hnext : nextWord body = some (word, line)) (htitle : Directive.title.isSpelledBy word = true)
    (hhas : HasDirective Directive.entry.keyword.toList 4 (currentLine line)) :
    ∃ behind entry others,
      readTitle body = .ok (some (String.ofList
        ((takeTitle Directive.entry.keyword.toList 4 line).1.take titleLimit)), behind) ∧
      readEntry (words behind) = .ok (entry, others) := by
  obtain ⟨front, mark, behind, arguments, -, -, htake, hcut⟩ :=
    takeTitle_of_hasDirective (by decide) hhas
  obtain ⟨others, hwords⟩ := hcut.words_behind
  obtain ⟨numerals, hnumerals⟩ := exists_numerals_of_isArgument hcut.literals hcut.length_eq
  have hexpect : expect .entry (mark ++ behind) = .ok behind := by
    simp only [expect, hcut.readToken_eq, Directive.isSpelledBy, hcut.spelled, if_true]
  refine ⟨behind, numerals.map fun numeral => UInt8.ofInt numeral.value, others, ?_, ?_⟩
  · obtain ⟨mark', hmark', hspelled⟩ := expect_eq_ok_iff.1 hexpect
    refine readTitle_eq_ok_iff.2 ⟨⟨mark', ?_, hspelled⟩, ?_⟩
    · simp only [pastTitle, hnext, htitle, if_true, htake, hmark']
    · simp only [titleOf?, hnext, htitle, if_true]
  · rw [readEntry_eq_ok_iff, words_eq_splitWords, hwords]
    exact ⟨numerals, by rw [hnumerals], rfl⟩

end Chiptune.Score

namespace Chiptune.Text

/-- The look-ahead for a directive and the readers behind it agree, wherever the cursor has got to.
If some word of the line opens the directive, the cursor stops in front of the first one that does,
and the readers find the keyword and its arguments there; if none does, it stops where the line
ends. What it passed over is the title, trimmed, and it stops between two characters. Entry values
on the line of a title can therefore always be read, and only the tracks are left to decide what
becomes of the text. -/
theorem takeTitle_foresees (source : List Char) (calls : List CursorCall) {keyword : List Char}
    (hkeyword : keyword.length ≤ directiveLimit) (count : Nat) :
    (∃ front title rest, reached source calls = front ++ rest ∧
      titleSize keyword count (reached source calls) = (Utf8.encode front).length ∧
      takeTitle keyword count (reached source calls) = (title, rest) ∧ Trims front title ∧
      (∃ before, source = before ++ rest ∧
        bytePosition source rest = (Utf8.encode before).length) ∧
      (HasDirective keyword count (currentLine (reached source calls)) →
        ∃ mark behind arguments, rest = mark ++ behind ∧
          CutAtDirective keyword count (currentLine (reached source calls)) front mark behind
            arguments) ∧
      (¬ HasDirective keyword count (currentLine (reached source calls)) →
        front = currentLine (reached source calls) ∧
          ∀ c, rest.head? = some c → c = '\n' ∨ c = '#')) ∧
    ∀ body word line, Score.expect .formatMark source = .ok body →
      nextWord body = some (word, line) → Directive.title.isSpelledBy word = true →
      HasDirective Directive.entry.keyword.toList 4 (currentLine line) →
      ∃ title behind entry others, Score.readTitle body = .ok (some title, behind) ∧
        Score.readEntry (words behind) = .ok (entry, others) ∧
        Song.compile source = (Score.readTracks 0 [] others).map fun tracks =>
          Score.toSong ⟨some title, entry, tracks⟩ := by
  have hposition : ∀ rest, rest <:+ reached source calls → ∃ before, source = before ++ rest ∧
      bytePosition source rest = (Utf8.encode before).length := by
    intro rest hrest
    obtain ⟨before, hbefore⟩ := hrest.trans (reached_suffix source calls)
    exact ⟨before, hbefore.symm, bytePosition_eq hbefore.symm⟩
  constructor
  · by_cases hhas : HasDirective keyword count (currentLine (reached source calls))
    · obtain ⟨front, mark, behind, arguments, htext, hsize, htake, hcut⟩ :=
        takeTitle_of_hasDirective hkeyword hhas
      refine ⟨front, trimBlanks front, mark ++ behind, htext, hsize, htake, trims_trimBlanks front,
        hposition _ ⟨front, htext.symm⟩, ?_, ?_⟩
      · intro _
        exact ⟨mark, behind, arguments, rfl, hcut⟩
      · intro hnone
        exact absurd hhas hnone
    · have htext := currentLine_append_afterLine (reached source calls)
      obtain ⟨hsize, htake⟩ := takeTitle_of_not_hasDirective hhas
      refine ⟨currentLine (reached source calls), _, afterLine (reached source calls), htext.symm,
        hsize, htake, trims_trimBlanks _, hposition _ ⟨_, htext⟩, ?_, ?_⟩
      · intro hsome
        exact absurd hsome hhas
      · intro _
        exact ⟨rfl, fun c => head?_afterLine⟩
  · intro body word line hmark hnext htitle hhas
    obtain ⟨behind, entry, others, hread, hentry⟩ :=
      Score.readEntry_of_hasDirective hnext htitle hhas
    refine ⟨_, behind, entry, others, hread, hentry, ?_⟩
    simp only [Song.compile, Score.read, hmark, hread, hentry, bind, Except.bind]
    cases Score.readTracks 0 [] others <;> rfl

/-- A line with two keywords, of which only the second has its arguments. The last of these is too
long to be read whole, and a comment is glued to it. -/
def crowdedLine : List Char :=
  "\tÜber, Entry 1 2,, ".toList ++ "Entry 1,,0x2 +3 ".toList ++ List.replicate 30 '0' ++
    "4th#\nTRACK ".toList ++ "ENDTRACK END".toList

def crowdedText : List Char := "ATM1 NAME".toList ++ crowdedLine

/-- The calls that bring a cursor to the line. -/
def crowdedCalls : List CursorCall := [.token 3, .title "name".toList 0, .token 63]

theorem takeTitle_foresees_crowdedLine :
    (∃ front mark behind arguments,
      takeTitle "entry".toList 4 (reached crowdedText crowdedCalls) =
        ("Über, Entry 1 2".toList, mark ++ behind) ∧
      CutAtDirective "entry".toList 4 (currentLine (reached crowdedText crowdedCalls)) front mark
        behind arguments) ∧
    ∃ title behind entry others,
      Score.readTitle (" NAME".toList ++ crowdedLine) = .ok (some title, behind) ∧
      Score.readEntry (words behind) = .ok (entry, others) ∧
      Song.compile crowdedText = (Score.readTracks 0 [] others).map fun tracks =>
        Score.toSong ⟨some title, entry, tracks⟩ := by
  have hhas : HasDirective "entry".toList 4 (currentLine (reached crowdedText crowdedCalls)) := by
    decide +kernel
  have htitled : (takeTitle "entry".toList 4 (reached crowdedText crowdedCalls)).1 =
      "Über, Entry 1 2".toList := by decide +kernel
  have hshort : "entry".toList.length ≤ directiveLimit := by decide
  obtain ⟨⟨front, title, rest, -, -, htake, -, -, hfound, -⟩, hcompile⟩ :=
    takeTitle_foresees crowdedText crowdedCalls hshort 4
  obtain ⟨mark, behind, arguments, rfl, hcut⟩ := hfound hhas
  rw [htake] at htitled
  refine ⟨⟨front, mark, behind, arguments, by rw [htake, ← htitled], hcut⟩, ?_⟩
  exact hcompile _ "NAME".toList crowdedLine (by decide +kernel) (by decide +kernel) (by decide)
    (by decide +kernel)

end Chiptune.Text
