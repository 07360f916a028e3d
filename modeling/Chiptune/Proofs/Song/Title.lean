import Chiptune.Proofs.Score.Reading
import Chiptune.Proofs.Text.Title

/-!
# Titles of compiled songs

A title is trimmed first and cut to its limit then. Trimming leaves no blank at either end, but the
cut makes an end of its own, and it may fall right behind a blank. `Song.title_of_compile` says that
this is the only blemish a title can have: it is short enough, on one line, without comments and
without a blank in front, and it ends in a blank exactly if the cut falls behind one.
`Song.title_endsBlank` is such a title.
-/

namespace Chiptune

open Text

/-- The title of a song text, trimmed but not yet cut. -/
def Song.fullTitle? (text : List Char) : Option (List Char) := do
  let (_, body) ← nextWord text
  let (word, line) ← nextWord body
  if Directive.title.isSpelledBy word then
    some (takeTitle Directive.entry.keyword.toList 4 line).1
  else none

namespace Text

/-- A title that is short enough, lies on one line and has no blank in front. -/
structure IsTitle (title : List Char) : Prop where
  length_le : title.length ≤ 47
  newline : '\n' ∉ title
  hash : '#' ∉ title
  head : ∀ c, title.head? = some c → isBlank c = false

theorem Trims.subset {text inner : List Char} (htrims : Trims text inner) : inner ⊆ text := by
  obtain ⟨before, after, rfl, -, -⟩ := htrims.split
  intro c hc
  exact List.mem_append_left _ (List.mem_append_right _ hc)

/-- What is trimmed to a title is the front of a line. -/
theorem exists_trims_takeTitle (keyword : List Char) (count : Nat) (text : List Char) :
    ∃ front, front ⊆ currentLine text ∧ Trims front (takeTitle keyword count text).1 := by
  obtain ⟨front, hfront⟩ := exists_title keyword count text
  refine ⟨front, ?_, ?_⟩
  · rw [hfront]
    exact List.subset_append_left _ _
  · rw [takeTitle_eq front hfront]
    exact trims_trimBlanks front

theorem isTitle_take_takeTitle (keyword : List Char) (count : Nat) (text : List Char) :
    IsTitle ((takeTitle keyword count text).1.take titleLimit) := by
  obtain ⟨front, hfront, htrims⟩ := exists_trims_takeTitle keyword count text
  obtain ⟨hnewline, hhash⟩ := not_mem_currentLine text
  have hkept : (takeTitle keyword count text).1.take titleLimit ⊆ currentLine text :=
    fun c hc => hfront (htrims.subset (List.mem_of_mem_take hc))
  constructor
  case length_le => exact List.length_take_le titleLimit _
  case newline => exact fun hmem => hnewline (hkept hmem)
  case hash => exact fun hmem => hhash (hkept hmem)
  case head =>
    intro c hc
    rw [List.head?_take, if_neg (by decide)] at hc
    exact htrims.head c hc

/-- The last character that is kept is the one in front of the cut, or the last one of all if the
title is too short to be cut. -/
theorem isBlank_getLast?_take_iff {full : List Char}
    (hlast : ∀ c, full.getLast? = some c → isBlank c = false) :
    (∀ c, (full.take titleLimit).getLast? = some c → isBlank c = false) ↔
      ∀ c, full[46]? = some c → isBlank c = false := by
  rw [List.getLast?_take, if_neg (by decide : titleLimit ≠ 0)]
  change (∀ c, full[46]?.or full.getLast? = some c → _) ↔ _
  cases hcut : full[46]? with
  | some c => rfl
  | none =>
    constructor
    · intro _ c hc
      cases hc
    · intro _ c hc
      exact hlast c hc

end Text

namespace Song

/-- A song has a title if its text announces one. -/
theorem exists_title_of_compile {text : List Char} {song : Song} {word : Word}
    (hcompile : compile text = .ok song) (hword : (splitWords text)[1]? = some word)
    (hannounced : Directive.title.isSpelledBy word = true) :
    ∃ title line, song.title = some title ∧
      fullTitle? text = some (takeTitle Directive.entry.keyword.toList 4 line).1 ∧
      title.toList = (takeTitle Directive.entry.keyword.toList 4 line).1.take titleLimit := by
  obtain ⟨mark, body, sheet, hmark, -, -, rfl⟩ := compile_eq_ok_iff.1 hcompile
  rw [splitWords_of_some hmark, List.getElem?_cons_succ, ← List.head?_eq_getElem?] at hword
  obtain ⟨others, hothers⟩ := List.head?_eq_some_iff.1 hword
  obtain ⟨line, hline, -⟩ := exists_nextWord_of_splitWords hothers
  refine ⟨_, line, ?_, ?_, String.toList_ofList⟩
  · simp only [Score.titleOf?, hline, hannounced, if_true]
  · simp only [fullTitle?, hmark, hline, bind, Option.bind, hannounced, if_true]

/-- A song whose text announces a title has one, and it is the first 47 characters of the title in
the text. It is as it should be but for its end, which is a blank exactly if the 47th character is
one. -/
theorem title_of_compile {text : List Char} {song : Song} {word : Word}
    (hcompile : compile text = .ok song) (hword : (splitWords text)[1]? = some word)
    (hannounced : Directive.title.isSpelledBy word = true) :
    ∃ title full, song.title = some title ∧ fullTitle? text = some full ∧
      title.toList = full.take 47 ∧ IsTitle title.toList ∧
      ((∀ c, title.toList.getLast? = some c → isBlank c = false) ↔
        ∀ c, full[46]? = some c → isBlank c = false) := by
  obtain ⟨title, line, htitle, hfull, hkept⟩ := exists_title_of_compile hcompile hword hannounced
  obtain ⟨front, -, htrims⟩ := exists_trims_takeTitle Directive.entry.keyword.toList 4 line
  refine ⟨title, _, htitle, hfull, hkept, ?_, ?_⟩
  · rw [hkept]
    exact isTitle_take_takeTitle _ _ _
  · rw [hkept]
    exact isBlank_getLast?_take_iff htrims.last

/-- A song under a title that starts with so many letters and goes on with a word or two. -/
def lettersText (count : Nat) (more : String) : List Char :=
  "ATM1 NAME ".toList ++ List.replicate count 'a' ++ more.toList ++
    "\nENTRY 0,0,0,0 TRACK STOP ENDTRACK END".toList

/-- With 45 letters in front of the first blank, the cut falls behind the letter that follows it. -/
theorem title_of_compile_lettersText :
    compile (lettersText 45 " b c") =
      .ok ⟨some (String.ofList (List.replicate 45 'a' ++ [' ', 'b'])), #v[0, 0, 0, 0], [0], [159]⟩ ∧
    ∀ c, (List.replicate 45 'a' ++ [' ', 'b']).getLast? = some c → isBlank c = false := by
  have hcompile : compile (lettersText 45 " b c") =
      .ok ⟨some (String.ofList (List.replicate 45 'a' ++ [' ', 'b'])), #v[0, 0, 0, 0], [0],
        [159]⟩ := by decide +kernel
  have hword : (splitWords (lettersText 45 " b c"))[1]? = some "NAME".toList := by decide +kernel
  have hplace : (fullTitle? (lettersText 45 " b c")).bind (·[46]?) = some 'b' := by decide +kernel
  obtain ⟨title, full, htitle, hfull, -, -, hends⟩ := title_of_compile hcompile hword (by decide)
  cases htitle
  rw [String.toList_ofList] at hends
  refine ⟨hcompile, hends.2 ?_⟩
  rw [hfull, Option.bind_some] at hplace
  intro c hc
  rw [hplace] at hc
  cases hc
  decide

/-- With 46 letters it falls behind the blank. -/
theorem title_endsBlank :
    compile (lettersText 46 " b") =
      .ok ⟨some (String.ofList (List.replicate 46 'a' ++ [' '])), #v[0, 0, 0, 0], [0], [159]⟩ ∧
    ¬ ∀ c, (List.replicate 46 'a' ++ [' ']).getLast? = some c → isBlank c = false := by
  constructor
  · decide +kernel
  · intro hends
    exact absurd (hends ' ' (by decide +kernel)) (by decide)

end Song

end Chiptune
