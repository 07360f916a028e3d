import Chiptune.Proofs.Text.Splitting

/-!
# Text put behind a text

What a cursor finds in a text is found again when more text follows, as long as a delimiter comes
first: the delimiter keeps the last word from growing. Where the cursor finds nothing more, an open
comment may swallow what follows; only a line feed is sure to end it, and then the words of a text
are those in front of the line feed and those behind it (`splitWords_append_newline`).
-/

namespace Chiptune.Text

theorem takeWhile_append_cons {p : Char → Bool} {d : Char} (hd : p d = false)
    (text more : List Char) : (text ++ d :: more).takeWhile p = text.takeWhile p := by
  induction text with
  | nil => simp [hd]
  | cons c rest ih => simp only [List.cons_append, List.takeWhile_cons, ih]

theorem dropWhile_append_cons {p : Char → Bool} {d : Char} (hd : p d = false)
    (text more : List Char) :
    (text ++ d :: more).dropWhile p = text.dropWhile p ++ d :: more := by
  induction text with
  | nil => simp [hd]
  | cons c rest ih =>
    simp only [List.cons_append, List.dropWhile_cons, ih]
    split <;> rfl

theorem skipBlanks_append {inComment : Bool} {text : List Char}
    (hword : skipBlanks inComment text ≠ []) (more : List Char) :
    skipBlanks inComment (text ++ more) = skipBlanks inComment text ++ more := by
  induction text generalizing inComment with
  | nil =>
    exfalso
    apply hword
    cases inComment <;> rfl
  | cons c rest ih =>
    cases inComment with
    | true => exact ih hword
    | false =>
      simp only [skipBlanks, List.cons_append] at hword ⊢
      split
      · next hhash =>
        rw [if_pos hhash] at hword
        exact ih hword
      · next hhash =>
        rw [if_neg hhash] at hword
        split
        · next hblank =>
          rw [if_pos hblank] at hword
          exact ih hword
        · rfl

/-- A line feed ends whatever was being skipped, so a text without a further word adds nothing to
the one behind it. -/
theorem skipBlanks_append_newline {inComment : Bool} {text : List Char}
    (hnone : skipBlanks inComment text = []) (more : List Char) :
    skipBlanks inComment (text ++ '\n' :: more) = skipBlanks false more := by
  induction text generalizing inComment with
  | nil => cases inComment <;> rfl
  | cons c rest ih =>
    cases inComment with
    | true => exact ih hnone
    | false =>
      simp only [skipBlanks, List.cons_append] at hnone ⊢
      split
      · next hhash =>
        rw [if_pos hhash] at hnone
        exact ih hnone
      · next hhash =>
        rw [if_neg hhash] at hnone
        split
        · next hblank =>
          rw [if_pos hblank] at hnone
          exact ih hnone
        · next hblank =>
          rw [if_neg hblank] at hnone
          cases hnone

theorem skipBlanks_blanks {blanks : List Char} (hblanks : ∀ c ∈ blanks, isBlank c = true)
    (text : List Char) : skipBlanks false (blanks ++ text) = skipBlanks false text := by
  induction blanks with
  | nil => rfl
  | cons c blanks ih =>
    have hblank : isBlank c = true := hblanks c List.mem_cons_self
    have hhash : ¬ (c == '#') = true := by
      intro hc
      rw [eq_of_beq hc] at hblank
      exact absurd hblank (by decide)
    rw [List.cons_append, skipBlanks, if_neg hhash, if_pos hblank]
    exact ih fun d hd => hblanks d (List.mem_cons_of_mem _ hd)

/-- A cursor in front of a word does not move. -/
theorem skipBlanks_skipBlanks (text : List Char) :
    skipBlanks false (skipBlanks false text) = skipBlanks false text := by
  cases hskip : skipBlanks false text with
  | nil => rfl
  | cons c rest =>
    have hdelimiter := isDelimiter_of_skipBlanks hskip
    simp only [isDelimiter, Bool.or_eq_false_iff] at hdelimiter
    simp only [skipBlanks, hdelimiter, Bool.false_eq_true, if_false]

theorem nextWord_skipBlanks (text : List Char) :
    nextWord (skipBlanks false text) = nextWord text := by
  unfold nextWord
  rw [skipBlanks_skipBlanks]

/-- The next word stays the same when a delimiter and any text are put behind the text. -/
theorem nextWord_append {text rest : List Char} {word : Word}
    (hnext : nextWord text = some (word, rest)) {d : Char} (hd : isDelimiter d = true)
    (more : List Char) : nextWord (text ++ d :: more) = some (word, rest ++ d :: more) := by
  have hstop : (!isDelimiter d) = false := by rw [hd]; rfl
  have htake := takeWhile_append_cons (p := (!isDelimiter ·)) hstop
  have hdrop := dropWhile_append_cons (p := (!isDelimiter ·)) hstop
  unfold nextWord at hnext ⊢
  split at hnext
  · cases hnext
  · next first tail hskip =>
    cases hnext
    have hne : skipBlanks false text ≠ [] := by rw [hskip]; exact List.cons_ne_nil _ _
    rw [skipBlanks_append hne, hskip]
    simp only [List.cons_append, htake, hdrop]

theorem nextWord_append_newline {text : List Char} (hnone : nextWord text = none)
    (more : List Char) : nextWord (text ++ '\n' :: more) = nextWord more := by
  have hskip : skipBlanks false text = [] := by
    unfold nextWord at hnone
    split at hnone
    · assumption
    · cases hnone
  unfold nextWord
  rw [skipBlanks_append_newline hskip]

/-- Text behind a delimiter only adds words at the end. -/
theorem exists_words_append {d : Char} (hd : isDelimiter d = true) (text more : List Char) :
    ∃ added, words (text ++ d :: more) = words text ++ added := by
  cases hnext : nextWord text with
  | none => exact ⟨words (text ++ d :: more), by rw [words_of_none hnext, List.nil_append]⟩
  | some next =>
    obtain ⟨word, rest⟩ := next
    have hlt := length_lt_of_nextWord hnext
    obtain ⟨added, hadded⟩ := exists_words_append hd rest more
    refine ⟨added, ?_⟩
    rw [words_of_some (nextWord_append hnext hd more), words_of_some hnext, hadded,
      List.cons_append]
termination_by text.length

/-! ### Blanks and line feeds between texts -/

/-- The pieces of a text divide at any blank. -/
theorem pieces_append_cons {c : Char} (hblank : isBlank c = true) (text more : List Char) :
    pieces (text ++ c :: more) = pieces text ++ pieces more := by
  rw [pieces, List.splitOnP_append_cons text more hblank, List.filter_append]
  rfl

theorem blankComments_append_newline (inComment : Bool) (text more : List Char) :
    blankComments inComment (text ++ '\n' :: more) =
      blankComments inComment text ++ '\n' :: blankComments false more := by
  induction text generalizing inComment with
  | nil => cases inComment <;> simp [blankComments]
  | cons c rest ih =>
    cases inComment with
    | true =>
      simp only [List.cons_append, blankComments, ih]
      split <;> rfl
    | false =>
      simp only [List.cons_append, blankComments, ih]
      split <;> rfl

theorem splitWords_append_newline (text more : List Char) :
    splitWords (text ++ '\n' :: more) = splitWords text ++ splitWords more := by
  rw [splitWords, blankComments_append_newline, pieces_append_cons isBlank_newline]
  rfl

theorem blankComments_append_of_not_mem {text : List Char} (hhash : '#' ∉ text) (more : List Char) :
    blankComments false (text ++ more) = text ++ blankComments false more := by
  induction text with
  | nil => rfl
  | cons c rest ih =>
    rw [List.mem_cons, not_or] at hhash
    rw [List.cons_append, blankComments, if_neg (Ne.symm hhash.1), ih hhash.2, List.cons_append]

/-- Where no comment is open, any blank does as well as a line feed. -/
theorem splitWords_append_blank {text : List Char} (hhash : '#' ∉ text) {c : Char}
    (hblank : isBlank c = true) (more : List Char) :
    splitWords (text ++ c :: more) = splitWords text ++ splitWords more := by
  have hc : c ≠ '#' := by
    rintro rfl
    exact absurd hblank (by decide)
  have htext : blankComments false text = text := by
    have happend := blankComments_append_of_not_mem hhash []
    simpa [blankComments] using happend
  rw [splitWords, blankComments_append_of_not_mem hhash, blankComments, if_neg hc,
    pieces_append_cons hblank, splitWords, splitWords, htext]

/-! ### Words written out -/

/-- A run of characters that is read as one word. -/
def IsWord (word : Word) : Prop := word ≠ [] ∧ ∀ c ∈ word, isDelimiter c = false

-- Decided over the letters of the word. Left to instance search, it may run over all characters.
instance (word : Word) : Decidable (IsWord word) :=
  decidable_of_iff ((!word.isEmpty && word.all (!isDelimiter ·)) = true) (by simp [IsWord])

/-- Words one after the other, each with a space behind it. -/
def spell (words : List Word) : List Char := words.flatMap (· ++ [' '])

theorem isBlank_eq_false {c : Char} (hc : isDelimiter c = false) : isBlank c = false := by
  simp only [isDelimiter, Bool.or_eq_false_iff] at hc
  exact hc.1

theorem splitWords_spell {words : List Word} (hwords : ∀ word ∈ words, IsWord word) :
    splitWords (spell words) = words := by
  induction words with
  | nil => rfl
  | cons word words ih =>
    obtain ⟨hne, hletters⟩ := hwords word List.mem_cons_self
    have hrest := ih fun other hother => hwords other (List.mem_cons_of_mem _ hother)
    have hspell : spell (word :: words) = word ++ ' ' :: spell words := by
      simp [spell]
    have hblanked : blankComments false (' ' :: spell words) =
        ' ' :: blankComments false (spell words) := by
      simp [blankComments]
    rw [splitWords, hspell, blankComments_append hletters, hblanked,
      pieces_append hne (fun c hc => isBlank_eq_false (hletters c hc)),
      pieces_cons_blank isBlank_space]
    · exact congrArg (word :: ·) hrest
    · intro c hc
      cases hc
      exact isBlank_space

end Chiptune.Text
