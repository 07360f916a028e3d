import Chiptune.Proofs.Score.Steps
import Chiptune.Proofs.Text.Title
import Mathlib.Data.List.Infix

/-!
# Songs with a title line

A title is free text and no word of the song, so it is cut out of the text before the words are
read. `Song.compile_titleLine` says that nothing else changes: a text with a title line compiles as
the text without it, to the song under that title or to the very same fault.

A title may hold the keyword of the entry values as long as not all of its arguments follow on the
line. It may even end in the keyword and some arguments when the real directive comes right behind
it, as a keyword is never an argument.
-/

namespace Chiptune

open Text

/-- A line that can stand as a title: no word in it opens the directive of the entry values. -/
structure IsTitleText (line : List Char) : Prop where
  newline : '\n' ∉ line
  hash : '#' ∉ line
  plain : ∀ words, words <:+ splitWords line →
    ¬ OpensDirective Directive.entry.keyword.toList 4 words

theorem Directive.isArgument_eq_false {directive : Directive} {word : Word}
    (hspelled : directive.isSpelledBy word = true) : isArgument word = false := by
  have hlimit : directive.keyword.toList.length < argumentLimit := by
    cases directive <;> decide
  have htaken : directive.isSpelledBy (word.take argumentLimit) = true := by
    rw [isSpelledBy, sameLetters_take hlimit]
    exact hspelled
  rw [isArgument, parse_eq_none_of_isSpelledBy htaken]
  rfl

/-! ### Where the title ends -/

namespace IsTitleText

variable {line : List Char} (htitle : IsTitleText line)

include htitle in
theorem space : IsTitleText (' ' :: line) where
  newline := by simpa using htitle.newline
  hash := by simpa using htitle.hash
  plain := by
    have hwords : splitWords (' ' :: line) = splitWords line :=
      splitWords_append_blank List.not_mem_nil isBlank_space line
    rw [hwords]
    exact htitle.plain

include htitle in
theorem takeTitle_newline (text : List Char) :
    takeTitle Directive.entry.keyword.toList 4 (' ' :: line ++ '\n' :: text) =
      (trimBlanks line, '\n' :: text) := by
  have hopen : '\n' ∉ ' ' :: line ∧ '#' ∉ ' ' :: line := ⟨htitle.space.newline, htitle.space.hash⟩
  obtain ⟨hcurrent, hafter⟩ := currentLine_append_of_open _ hopen ('\n' :: text)
  have hline : currentLine (' ' :: line ++ '\n' :: text) = ' ' :: line :=
    hcurrent.trans (List.append_nil _)
  have hnone := fromDirective_eq_nil htitle.space.plain
  have htrim : trimBlanks (' ' :: line) = trimBlanks line := by
    rw [trimBlanks, List.dropWhile_cons_of_pos isBlank_space, trimBlanks]
  rw [takeTitle_eq (' ' :: line), hline, hnone, hafter, htrim]
  · rfl
  · rw [hline, hnone, List.append_nil]

include htitle in
theorem takeTitle_space {text : List Char}
    (hopens : OpensDirective Directive.entry.keyword.toList 4 (splitWords (currentLine text))) :
    takeTitle Directive.entry.keyword.toList 4 (' ' :: line ++ ' ' :: text) =
      (trimBlanks line, skipBlanks false text) := by
  have hopen : '\n' ∉ ' ' :: line ∧ '#' ∉ ' ' :: line := ⟨htitle.space.newline, htitle.space.hash⟩
  obtain ⟨hcurrent, hafter⟩ := currentLine_append_of_open _ hopen (' ' :: text)
  change currentLine _ = ' ' :: line ++ ' ' :: currentLine text at hcurrent
  change afterLine _ = afterLine text at hafter
  have hfound := fromDirective_append_of_opens (fun _ => Directive.isArgument_eq_false)
    htitle.space.hash htitle.space.plain isBlank_space hopens
  -- Only blanks lie between the title and the directive, and they are trimmed away.
  have hsplit : currentLine text =
      (currentLine text).takeWhile isBlank ++ skipBlanks false (currentLine text) := by
    rw [skipBlanks_eq_dropWhile (not_mem_currentLine text).2, List.takeWhile_append_dropWhile]
  have htrim : trimBlanks (' ' :: line ++ ' ' :: (currentLine text).takeWhile isBlank) =
      trimBlanks line := by
    refine trimBlanks_append (List.forall_mem_singleton.2 isBlank_space) ?_ line
    exact List.forall_mem_cons.2 ⟨isBlank_space, List.all_eq_true.1 List.all_takeWhile⟩
  have hword : skipBlanks false (currentLine text) ≠ [] := by
    intro hnone
    rw [← splitWords_skipBlanks, hnone] at hopens
    exact absurd hopens.lt_length (Nat.not_lt_zero 4)
  have hrest : skipBlanks false (currentLine text) ++ afterLine text = skipBlanks false text := by
    rw [← skipBlanks_append hword, currentLine_append_afterLine]
  rw [takeTitle_eq (' ' :: line ++ ' ' :: (currentLine text).takeWhile isBlank), hcurrent, hfound,
    hafter, htrim, hrest]
  rw [hcurrent, hfound, List.append_assoc]
  exact congrArg (' ' :: line ++ ' ' :: ·) hsplit

end IsTitleText

/-! ### Texts with and without a title -/

namespace Score

variable {text body rest : List Char} {word : Word}

theorem readFront_of_mark (text : List Char) :
    readFront ("ATM1".toList ++ ' ' :: text) = readTitle (' ' :: text) := by
  have hmark : nextWord "ATM1".toList = some ("ATM1".toList, []) := rfl
  have hexpect : expect .formatMark ("ATM1".toList ++ ' ' :: text) = .ok (' ' :: text) :=
    expect_eq_ok_iff.2 ⟨_, nextWord_append hmark (by decide) text, by decide⟩
  rw [readFront, hexpect]
  rfl

theorem readFront_untitled (hnext : nextWord text = some (word, rest))
    (hentry : Directive.entry.isSpelledBy word = true) :
    readFront ("ATM1 ".toList ++ text) = .ok (none, rest) := by
  have hspace : nextWord (' ' :: text) = some (word, rest) := hnext
  have huntitled : pastTitle (' ' :: text) = ' ' :: text ∧ titleOf? (' ' :: text) = none := by
    apply pastTitle_eq_self
    intro first hfirst
    rw [splitWords_of_some hspace, List.head?_cons, Option.some.injEq] at hfirst
    rw [← hfirst]
    exact Directive.isSpelledBy_eq_false hentry (by decide)
  refine (readFront_of_mark text).trans (readTitle_eq_ok_iff.2 ⟨⟨word, ?_, hentry⟩, ?_⟩)
  · rw [huntitled.1, hspace]
  · rw [huntitled.2]

theorem readFront_titled {title : List Char}
    (htitle : takeTitle Directive.entry.keyword.toList 4 (' ' :: text) = (title, body))
    (hnext : nextWord body = some (word, rest))
    (hentry : Directive.entry.isSpelledBy word = true) :
    readFront ("ATM1 NAME ".toList ++ text) =
      .ok (some (String.ofList (title.take titleLimit)), rest) := by
  have hname : nextWord " NAME".toList = some ("NAME".toList, []) := rfl
  have hline : nextWord (" NAME".toList ++ ' ' :: text) = some ("NAME".toList, ' ' :: text) :=
    nextWord_append hname (by decide) text
  have hspelled : Directive.title.isSpelledBy "NAME".toList = true := by decide
  refine (readFront_of_mark ("NAME ".toList ++ text)).trans
    (readTitle_eq_ok_iff.2 ⟨⟨word, ?_, hentry⟩, ?_⟩)
  · change nextWord (pastTitle (" NAME".toList ++ ' ' :: text)) = _
    rw [pastTitle, hline]
    simp only [hspelled, if_true, htitle, hnext]
  · change _ = titleOf? (" NAME".toList ++ ' ' :: text)
    rw [titleOf?, hline]
    simp only [hspelled, if_true, htitle]

end Score

/-- Two texts that differ in their titles only compile alike. -/
theorem Song.compile_of_readFront {text text' rest : List Char} {title : String}
    (htitled : Score.readFront text = .ok (some title, rest))
    (huntitled : Score.readFront text' = .ok (none, rest)) :
    Song.compile text = (Song.compile text').map fun song => { song with title := some title } := by
  simp only [Song.compile, Score.read_eq_readFront, htitled, huntitled, bind, Except.bind]
  cases Score.readBody (words rest) <;> rfl

/-- A title line is transparent. The text behind it may start on the next line, or on the same line
if the directive of the entry values stands there with all its arguments. -/
theorem Song.compile_titleLine {line text : List Char} (htitle : IsTitleText line)
    (hentry : ∃ word, (splitWords text).head? = some word ∧
      Directive.entry.isSpelledBy word = true) :
    (Song.compile ("ATM1 NAME ".toList ++ line ++ '\n' :: text) =
      (Song.compile ("ATM1 ".toList ++ text)).map fun song =>
        { song with title := some (String.ofList ((trimBlanks line).take 47)) }) ∧
    (OpensDirective Directive.entry.keyword.toList 4 (splitWords (currentLine text)) →
      Song.compile ("ATM1 NAME ".toList ++ line ++ ' ' :: text) =
        (Song.compile ("ATM1 ".toList ++ text)).map fun song =>
          { song with title := some (String.ofList ((trimBlanks line).take 47)) }) := by
  obtain ⟨word, hfirst, hentry⟩ := hentry
  obtain ⟨others, hwords⟩ := List.head?_eq_some_iff.1 hfirst
  obtain ⟨rest, hnext, -⟩ := exists_nextWord_of_splitWords hwords
  have huntitled := Score.readFront_untitled hnext hentry
  constructor
  · have hbody : nextWord ('\n' :: text) = some (word, rest) := hnext
    have htitled := Score.readFront_titled (htitle.takeTitle_newline text) hbody hentry
    rw [List.append_assoc]
    exact Song.compile_of_readFront htitled huntitled
  · intro hopens
    have hbody := (nextWord_skipBlanks text).trans hnext
    have htitled := Score.readFront_titled (htitle.takeTitle_space hopens) hbody hentry
    rw [List.append_assoc]
    exact Song.compile_of_readFront htitled huntitled

/-- A title that holds the keyword twice, is too long to be kept whole, and ends in the keyword with
two arguments. -/
def longTitle : List Char :=
  ", Entry 1 2 3: Überfahrt, with a subtitle, and then Entry 7,8,".toList

theorem longTitle_isTitleText : IsTitleText longTitle where
  newline := by decide
  hash := by decide
  plain := by
    intro words hsuffix
    rw [← List.mem_tails] at hsuffix
    revert words
    decide +kernel

/-- The text in front of which the title stands. -/
def untitledText : List Char := "Entry 1 0xFF 3,4#four\nTRACK NOTE 63 ENDTRACK END".toList

theorem Song.compile_titleLine_longTitle :
    Song.compile ("ATM1 NAME ".toList ++ longTitle ++ '\n' :: untitledText) =
      .ok ⟨some "Entry 1 2 3: Überfahrt, with a subtitle, and th", #v[1, 255, 3, 4], [0], [63]⟩ ∧
    Song.compile ("ATM1 NAME ".toList ++ longTitle ++ ' ' :: untitledText) =
      .ok ⟨some "Entry 1 2 3: Überfahrt, with a subtitle, and th", #v[1, 255, 3, 4], [0],
        [63]⟩ := by
  have hentry : ∃ word, (splitWords untitledText).head? = some word ∧
      Directive.entry.isSpelledBy word = true := ⟨"Entry".toList, by decide +kernel, by decide⟩
  have hopens : OpensDirective Directive.entry.keyword.toList 4
      (splitWords (currentLine untitledText)) := by decide +kernel
  obtain ⟨hnewline, hspace⟩ := Song.compile_titleLine longTitle_isTitleText hentry
  rw [hnewline, hspace hopens]
  decide +kernel

end Chiptune
