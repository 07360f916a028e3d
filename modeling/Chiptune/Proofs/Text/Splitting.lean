import Chiptune.Text.Word

/-!
# Words by splitting

`nextWord` finds words one after the other, with a cursor. Here the words of a text are described at
once: every comment becomes a blank, the text is cut at its blanks, and the pieces that are not empty
are the words. `words_eq_splitWords` says that a cursor moved to the end of the text meets exactly
these. The rest of the proofs describe texts by `splitWords` and reach it through
`splitWords_of_none` and `splitWords_of_some`.
-/

namespace Chiptune.Text

/-- The text with a space in the place of each comment. The line feed that ends a comment stays. -/
def blankComments : (inComment : Bool) → List Char → List Char
  | _, [] => []
  | true, c :: rest => if c = '\n' then '\n' :: blankComments false rest else blankComments true rest
  | false, c :: rest =>
    if c = '#' then ' ' :: blankComments true rest else c :: blankComments false rest

/-- The pieces of a text between its blanks, without empty ones. -/
def pieces (text : List Char) : List Word := (text.splitOnP isBlank).filter (!·.isEmpty)

/-- The words of a text: its pieces between blanks and comments. -/
def splitWords (text : List Char) : List Word := pieces (blankComments false text)

theorem pieces_cons_blank {c : Char} (hblank : isBlank c = true) (text : List Char) :
    pieces (c :: text) = pieces text := by
  simp [pieces, List.splitOnP_cons_eq_if_modifyHead, hblank]

theorem isBlank_newline : isBlank '\n' = true := by decide

theorem isBlank_space : isBlank ' ' = true := by decide

/-- A run without blanks is one piece if nothing or a blank comes after it. -/
theorem pieces_append {run text : List Char} (hne : run ≠ [])
    (hrun : ∀ c ∈ run, isBlank c = false)
    (htext : ∀ c, text.head? = some c → isBlank c = true) :
    pieces (run ++ text) = run :: pieces text := by
  cases text with
  | nil => simp [pieces, List.splitOnP_eq_singleton hrun, hne]
  | cons c rest =>
    have hblank : isBlank c = true := htext c rfl
    rw [pieces_cons_blank hblank, pieces,
      List.splitOnP_append_cons_of_forall_mem hrun c hblank rest]
    simp [pieces, hne]

/-! ### The cursor meets the pieces -/

/-- Passing over blanks and comments passes over no piece. -/
theorem pieces_blankComments_skipBlanks (inComment : Bool) (text : List Char) :
    pieces (blankComments inComment text) =
      pieces (blankComments false (skipBlanks inComment text)) := by
  induction text generalizing inComment with
  | nil => cases inComment <;> rfl
  | cons c rest ih =>
    cases inComment with
    | true =>
      by_cases hline : c = '\n'
      · simp [skipBlanks, blankComments, hline, pieces_cons_blank isBlank_newline, ih]
      · have hin : (c != '\n') = true := by simpa using hline
        simp only [skipBlanks, blankComments, hline, hin, if_false]
        exact ih true
    | false =>
      by_cases hhash : c = '#'
      · simp [skipBlanks, blankComments, hhash, pieces_cons_blank isBlank_space, ih]
      · cases hblank : isBlank c with
        | true =>
          simp only [skipBlanks, blankComments, hhash, hblank, beq_iff_eq, if_true, if_false,
            pieces_cons_blank hblank]
          exact ih false
        | false => simp [skipBlanks, hhash, hblank]

theorem isDelimiter_of_skipBlanks {inComment : Bool} {text rest : List Char} {c : Char}
    (hskip : skipBlanks inComment text = c :: rest) : isDelimiter c = false := by
  induction text generalizing inComment with
  | nil => cases inComment <;> cases hskip
  | cons d tail ih =>
    cases inComment with
    | true => exact ih hskip
    | false =>
      rw [skipBlanks] at hskip
      split at hskip
      · exact ih hskip
      · split at hskip
        · exact ih hskip
        · next hhash hblank =>
          cases hskip
          simp_all [isDelimiter]

/-- Comments are replaced behind a word as if the word were not there. -/
theorem blankComments_append {run : List Char} (hrun : ∀ c ∈ run, isDelimiter c = false)
    (text : List Char) : blankComments false (run ++ text) = run ++ blankComments false text := by
  induction run with
  | nil => rfl
  | cons c run ih =>
    have hc : isDelimiter c = false := hrun c (List.mem_cons_self ..)
    have hhash : c ≠ '#' := by
      rintro rfl
      exact absurd hc (by decide)
    have htail := ih fun d hd => hrun d (List.mem_cons_of_mem _ hd)
    simp [blankComments, hhash, htail]

theorem isBlank_head_blankComments {text : List Char}
    (htext : ∀ c, text.head? = some c → isDelimiter c = true) (c : Char)
    (hhead : (blankComments false text).head? = some c) : isBlank c = true := by
  cases text with
  | nil => cases hhead
  | cons d rest =>
    have hd : isDelimiter d = true := htext d rfl
    by_cases hhash : d = '#'
    · subst hhash
      cases hhead
      exact isBlank_space
    · simp only [blankComments, hhash, if_false, List.head?_cons, Option.some.injEq] at hhead
      subst hhead
      simpa [isDelimiter, hhash] using hd

theorem isDelimiter_head_dropWhile (text : List Char) (c : Char)
    (hhead : (text.dropWhile (!isDelimiter ·)).head? = some c) : isDelimiter c = true := by
  have hnot := List.head?_dropWhile_not (!isDelimiter ·) text
  rw [hhead] at hnot
  simpa using hnot

theorem splitWords_of_none {text : List Char} (hnext : nextWord text = none) :
    splitWords text = [] := by
  unfold nextWord at hnext
  split at hnext
  · next hskip => rw [splitWords, pieces_blankComments_skipBlanks, hskip]; rfl
  · cases hnext

theorem splitWords_of_some {text rest : List Char} {word : Word}
    (hnext : nextWord text = some (word, rest)) : splitWords text = word :: splitWords rest := by
  unfold nextWord at hnext
  split at hnext
  · cases hnext
  · next first tail hskip =>
    cases hnext
    have hrun : ∀ c ∈ first :: tail.takeWhile (!isDelimiter ·), isDelimiter c = false := by
      intro c hc
      rcases List.mem_cons.1 hc with rfl | hc
      · exact isDelimiter_of_skipBlanks hskip
      · simpa using List.all_eq_true.1 List.all_takeWhile c hc
    have hsplit : first :: tail = (first :: tail.takeWhile (!isDelimiter ·)) ++
        tail.dropWhile (!isDelimiter ·) := by
      rw [List.cons_append, List.takeWhile_append_dropWhile]
    rw [splitWords, pieces_blankComments_skipBlanks, hskip, hsplit,
      blankComments_append hrun]
    refine pieces_append (List.cons_ne_nil _ _) (fun c hc => ?_)
      (isBlank_head_blankComments (isDelimiter_head_dropWhile tail))
    have hc' := hrun c hc
    simp only [isDelimiter, Bool.or_eq_false_iff] at hc'
    exact hc'.1

theorem exists_nextWord_of_splitWords {text : List Char} {word : Word} {others : List Word}
    (hwords : splitWords text = word :: others) :
    ∃ rest, nextWord text = some (word, rest) ∧ splitWords rest = others := by
  cases hnext : nextWord text with
  | none =>
    rw [splitWords_of_none hnext] at hwords
    cases hwords
  | some next =>
    obtain ⟨word', rest⟩ := next
    rw [splitWords_of_some hnext] at hwords
    cases hwords
    exact ⟨rest, rfl, rfl⟩

theorem words_eq_splitWords (text : List Char) : words text = splitWords text := by
  cases hnext : nextWord text with
  | none => rw [words_of_none hnext, splitWords_of_none hnext]
  | some next =>
    obtain ⟨word, rest⟩ := next
    have hlt := length_lt_of_nextWord hnext
    rw [words_of_some hnext, splitWords_of_some hnext, words_eq_splitWords rest]
termination_by text.length

end Chiptune.Text
