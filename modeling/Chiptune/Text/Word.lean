/-!
# Words of a song text

A song text is a list of words. Whitespace and commas stand between words, and so does a comment,
which starts at a hash sign and runs up to the next line feed. A hash sign also ends a word, so a
comment needs no blank before it.

A cursor into a text is the text that is still unread. `nextWord` splits off one word and returns
the unread rest, which is strictly shorter, and `words` reads on to the end. Readers keep only the
first characters of a word, `directiveLimit` of them where a directive or an operation is expected
and `argumentLimit` where a number is; the word is consumed whole in either case.
-/

namespace Chiptune.Text

/-- A word, as the characters it is written with. -/
abbrev Word := List Char

/-- Space, tab, line feed, carriage return, vertical tab and form feed. -/
def isSpace (c : Char) : Bool :=
  c == ' ' || c == '\t' || c == '\n' || c == '\r' || c == '\x0b' || c == '\x0c'

/-- The comma separates words just as whitespace does. -/
def isBlank (c : Char) : Bool := isSpace c || c == ','

def isDelimiter (c : Char) : Bool := isBlank c || c == '#'

/-- How many characters of a directive or an operation are kept. -/
def directiveLimit : Nat := 63

/-- How many characters of an argument are kept. -/
def argumentLimit : Nat := 31

/-- Drops blanks and comments in front of a word. -/
def skipBlanks : (inComment : Bool) → List Char → List Char
  | _, [] => []
  | true, c :: rest => skipBlanks (c != '\n') rest
  | false, c :: rest =>
    if c == '#' then skipBlanks true rest
    else if isBlank c then skipBlanks false rest
    else c :: rest

theorem length_skipBlanks_le (inComment : Bool) (text : List Char) :
    (skipBlanks inComment text).length ≤ text.length := by
  induction text generalizing inComment with
  | nil => cases inComment <;> simp [skipBlanks]
  | cons c rest ih =>
    cases inComment with
    | true => exact Nat.le_succ_of_le (ih _)
    | false =>
      rw [skipBlanks]
      split
      · exact Nat.le_succ_of_le (ih _)
      · split
        · exact Nat.le_succ_of_le (ih _)
        · exact Nat.le_refl _

/-- The next word and the text after it, if a word is left. -/
def nextWord (text : List Char) : Option (Word × List Char) :=
  match skipBlanks false text with
  | [] => none
  | first :: rest =>
    some (first :: rest.takeWhile (!isDelimiter ·), rest.dropWhile (!isDelimiter ·))

/-- Reading a word moves the cursor. -/
theorem length_lt_of_nextWord {text rest : List Char} {word : Word}
    (hnext : nextWord text = some (word, rest)) : rest.length < text.length := by
  unfold nextWord at hnext
  split at hnext
  · cases hnext
  · next first tail hskip =>
    cases hnext
    have hle := length_skipBlanks_le false text
    rw [hskip, List.length_cons] at hle
    exact Nat.lt_of_le_of_lt ((List.dropWhile_suffix _).length_le) hle

/-- The words of a text in front of which the words `found` were read, latest first. -/
def wordsAfter (found : List Word) (text : List Char) : List Word :=
  match _hnext : nextWord text with
  | none => found.reverse
  | some (word, rest) => wordsAfter (word :: found) rest
termination_by text.length
decreasing_by exact length_lt_of_nextWord _hnext

/-- All words of a text, in order. -/
def words (text : List Char) : List Word := wordsAfter [] text

theorem wordsAfter_of_none {found : List Word} {text : List Char} (hnext : nextWord text = none) :
    wordsAfter found text = found.reverse := by
  rw [wordsAfter]
  split
  · rfl
  · next heq => rw [hnext] at heq; cases heq

theorem wordsAfter_of_some {found : List Word} {text rest : List Char} {word : Word}
    (hnext : nextWord text = some (word, rest)) :
    wordsAfter found text = wordsAfter (word :: found) rest := by
  rw [wordsAfter]
  split
  · next heq => rw [hnext] at heq; cases heq
  · next heq => rw [hnext] at heq; cases heq; rfl

theorem wordsAfter_eq (found : List Word) (text : List Char) :
    wordsAfter found text = found.reverse ++ words text := by
  cases hnext : nextWord text with
  | none => simp [words, wordsAfter_of_none hnext]
  | some next =>
    obtain ⟨word, rest⟩ := next
    have := length_lt_of_nextWord hnext
    rw [words, wordsAfter_of_some hnext, wordsAfter_of_some hnext, wordsAfter_eq _ rest,
      wordsAfter_eq [word] rest]
    simp
termination_by text.length

/-- A text without a further word has no words. -/
theorem words_of_none {text : List Char} (hnext : nextWord text = none) : words text = [] :=
  wordsAfter_of_none hnext

/-- The words of a text are the next word and the words after it. -/
theorem words_of_some {text rest : List Char} {word : Word}
    (hnext : nextWord text = some (word, rest)) : words text = word :: words rest := by
  rw [words, wordsAfter_of_some hnext, wordsAfter_eq]
  rfl

/-- One reading step that keeps at most `limit` characters of the next word. A limit of zero keeps
nothing, and then there is no token although the word is consumed. -/
def readToken (limit : Nat) (text : List Char) : Option Word × List Char :=
  match nextWord text with
  | none => (none, [])
  | some (word, rest) => (if limit = 0 then none else some (word.take limit), rest)

/-- The words of a text as a reader of directives sees them. -/
def tokens (text : List Char) : List Word := (words text).map (·.take directiveLimit)

/-- Equality up to the case of ASCII letters. -/
def sameLetters (left right : List Char) : Bool :=
  left.map Char.toLower == right.map Char.toLower

end Chiptune.Text
