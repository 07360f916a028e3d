import Chiptune.Literal
import Chiptune.Text.Utf8
import Chiptune.Text.Word

/-!
# The rest of a line

A title is free text: it runs to the end of its line or to a comment. It may also share its line
with the directive that follows it. A keyword inside the title is taken for that directive only if
the directive's arguments stand on the same line, as many literals as it needs; otherwise it is
part of the title.

The line is split at its blanks, and where its words start is counted in bytes. The text is then cut
at the byte where the directive starts. `isSome_cutAfter?_titleSize` says that no character is cut
in two by that.
-/

namespace Chiptune.Text

/-- The text up to a line feed or a comment. -/
def currentLine (text : List Char) : List Char := text.takeWhile fun c => c != '\n' && c != '#'

/-- Whether a word counts as a number where an argument is expected. -/
def isArgument (word : Word) : Bool := (Literal.parse (word.take argumentLimit)).isSome

/-- The words among the pieces of a line, each with the byte at which it starts. One blank of one
byte stands between two pieces, and empty pieces are no words. The pieces start at the byte
`offset`, and `found` holds the words in front of them, latest first. -/
def placedAfter (found : List (Nat × Word)) (offset : Nat) :
    (pieces : List Word) → List (Nat × Word)
  | [] => found.reverse
  | piece :: pieces =>
    placedAfter (if piece.isEmpty then found else (offset, piece) :: found)
      (offset + (Utf8.encode piece).length + 1) pieces

/-- The words of a line that starts at the byte `offset`, each with the byte at which it starts. -/
def placedWords (offset : Nat) (line : List Char) : List (Nat × Word) :=
  placedAfter [] offset (line.splitOnP isBlank)

/-- Where the directive starts: at the first word that is the keyword and has `count` arguments
right after it. -/
def directiveStart? (keyword : List Char) (count : Nat) : List (Nat × Word) → Option Nat
  | [] => none
  | (start, word) :: others =>
    let arguments := others.take count
    if sameLetters word keyword && arguments.length == count &&
        arguments.all (isArgument ·.2) then some start
    else directiveStart? keyword count others

/-- How many bytes of the current line stand in front of the directive, all of them if it has
none. -/
def titleSize (keyword : List Char) (count : Nat) (text : List Char) : Nat :=
  let line := currentLine text
  (directiveStart? keyword count (placedWords 0 line)).getD (Utf8.encode line).length

/-- Cuts a text after `size` bytes; `passed` holds the characters in front of it, latest first.
There is no cut inside a character or behind the end of the text. -/
def cutAfter? (passed : List Char) : (size : Nat) → (text : List Char) →
    Option (List Char × List Char)
  | 0, text => some (passed.reverse, text)
  | _ + 1, [] => none
  | size + 1, c :: rest =>
    if c.utf8Size ≤ size + 1 then cutAfter? (c :: passed) (size + 1 - c.utf8Size) rest else none

/-! ### The cut lies between two characters -/

theorem cutAfter?_append (passed front rest : List Char) :
    cutAfter? passed (Utf8.encode front).length (front ++ rest) =
      some (passed.reverse ++ front, rest) := by
  induction front generalizing passed with
  | nil => simp [Utf8.encode, cutAfter?]
  | cons c front ih =>
    have hsize := Utf8.length_encode_cons c front
    have hpos := c.utf8Size_pos
    obtain ⟨size, heq⟩ : ∃ size, (Utf8.encode (c :: front)).length = size + 1 :=
      ⟨(Utf8.encode (c :: front)).length - 1, by omega⟩
    have hrest : size + 1 - c.utf8Size = (Utf8.encode front).length := by omega
    rw [List.cons_append, heq, cutAfter?, if_pos (by omega), hrest, ih]
    simp

theorem placedAfter_eq (found : List (Nat × Word)) (offset : Nat) (pieces : List Word) :
    placedAfter found offset pieces = found.reverse ++ placedAfter [] offset pieces := by
  induction pieces generalizing found offset with
  | nil => simp [placedAfter]
  | cons piece pieces ih =>
    rw [placedAfter, placedAfter, ih, ih (if piece.isEmpty then [] else _)]
    split <;> simp

theorem utf8Size_of_isBlank {c : Char} (hblank : isBlank c = true) : c.utf8Size = 1 := by
  simp only [isBlank, isSpace, Bool.or_eq_true, beq_iff_eq] at hblank
  rcases hblank with (((((rfl | rfl) | rfl) | rfl) | rfl) | rfl) | rfl <;> rfl

theorem placedWords_nil (offset : Nat) : placedWords offset [] = [] := rfl

theorem placedWords_cons_blank {c : Char} (hblank : isBlank c = true) (offset : Nat)
    (line : List Char) : placedWords offset (c :: line) = placedWords (offset + 1) line := by
  rw [placedWords, List.splitOnP_cons_eq_if_modifyHead, if_pos hblank]
  rfl

/-- A character put in front of a line makes its first word longer, or is a word of its own. -/
theorem mem_placedWords_cons {c : Char} (hword : isBlank c = false) {offset : Nat}
    {line : List Char} {place : Nat × Word} (hmem : place ∈ placedWords offset (c :: line)) :
    place.1 = offset ∨ place ∈ placedWords (offset + c.utf8Size) line := by
  rw [placedWords, List.splitOnP_cons_eq_if_modifyHead, if_neg (by simp [hword])] at hmem
  rw [placedWords]
  cases hpieces : line.splitOnP isBlank with
  | nil => exact absurd hpieces (List.splitOnP_ne_nil _ _)
  | cons piece pieces =>
    rw [hpieces, List.modifyHead_cons, placedAfter, placedAfter_eq] at hmem
    rw [placedAfter, placedAfter_eq]
    simp only [List.isEmpty_cons, Bool.false_eq_true, if_false, List.reverse_singleton,
      List.singleton_append, List.mem_cons, Utf8.length_encode_cons] at hmem
    rcases hmem with rfl | hmem
    · exact Or.inl rfl
    · refine Or.inr (List.mem_append_right _ ?_)
      rwa [← Nat.add_assoc] at hmem

/-- Every word of a line starts between two characters. -/
theorem exists_front_of_mem_placedWords {offset : Nat} {line : List Char} {place : Nat × Word}
    (hmem : place ∈ placedWords offset line) :
    ∃ front rest, line = front ++ rest ∧ place.1 = offset + (Utf8.encode front).length := by
  induction line generalizing offset with
  | nil => cases hmem
  | cons c line ih =>
    have hrest : place ∈ placedWords (offset + c.utf8Size) line →
        ∃ front rest, c :: line = front ++ rest ∧
          place.1 = offset + (Utf8.encode front).length := by
      intro hmem
      obtain ⟨front, rest, rfl, hstart⟩ := ih hmem
      refine ⟨c :: front, rest, rfl, ?_⟩
      rw [hstart, Utf8.length_encode_cons, Nat.add_assoc]
    cases hblank : isBlank c with
    | true =>
      rw [placedWords_cons_blank hblank] at hmem
      rw [utf8Size_of_isBlank hblank] at hrest
      exact hrest hmem
    | false =>
      rcases mem_placedWords_cons hblank hmem with hstart | hmem
      · exact ⟨[], c :: line, rfl, hstart⟩
      · exact hrest hmem

theorem exists_place_of_directiveStart? {keyword : List Char} {count start : Nat}
    {places : List (Nat × Word)} (hstart : directiveStart? keyword count places = some start) :
    ∃ place ∈ places, place.1 = start := by
  induction places with
  | nil => cases hstart
  | cons place others ih =>
    rw [directiveStart?] at hstart
    split at hstart
    · exact ⟨place, List.mem_cons_self, Option.some.inj hstart⟩
    · obtain ⟨other, hmem, hother⟩ := ih hstart
      exact ⟨other, List.mem_cons_of_mem _ hmem, hother⟩

theorem exists_front_of_titleSize (keyword : List Char) (count : Nat) (text : List Char) :
    ∃ front rest, text = front ++ rest ∧
      titleSize keyword count text = (Utf8.encode front).length := by
  have htext : text = currentLine text ++ text.dropWhile fun c => c != '\n' && c != '#' :=
    List.takeWhile_append_dropWhile.symm
  simp only [titleSize]
  cases hstart : directiveStart? keyword count (placedWords 0 (currentLine text)) with
  | none => exact ⟨_, _, htext, rfl⟩
  | some start =>
    obtain ⟨place, hmem, rfl⟩ := exists_place_of_directiveStart? hstart
    obtain ⟨front, rest, hline, hplace⟩ := exists_front_of_mem_placedWords hmem
    rw [Nat.zero_add] at hplace
    rw [hline, List.append_assoc] at htext
    exact ⟨front, _, htext, hplace⟩

theorem isSome_cutAfter?_titleSize (keyword : List Char) (count : Nat) (text : List Char) :
    (cutAfter? [] (titleSize keyword count text) text).isSome = true := by
  obtain ⟨front, rest, rfl, hsize⟩ := exists_front_of_titleSize keyword count text
  rw [hsize, cutAfter?_append]
  rfl

/-- Removes blanks at both ends. -/
def trimBlanks (text : List Char) : List Char :=
  ((text.dropWhile isBlank).reverse.dropWhile isBlank).reverse

/-- The rest of the line in front of the directive, trimmed, and the text from there on. -/
def takeTitle (keyword : List Char) (count : Nat) (text : List Char) : List Char × List Char :=
  let (title, rest) := (cutAfter? [] (titleSize keyword count text) text).get
    (isSome_cutAfter?_titleSize keyword count text)
  (trimBlanks title, rest)

end Chiptune.Text
