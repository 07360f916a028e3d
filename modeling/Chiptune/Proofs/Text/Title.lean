import Chiptune.Proofs.Text.Appending
import Chiptune.Text.Line
import Mathlib.Data.List.TakeWhile

/-!
# Where a title ends

A title is cut off at a byte that is added up over the words of its line. Here its end is found with
a cursor instead: `fromDirective` moves over the line until the words left open the directive, and
gives the line from there on. `takeTitle_eq` says that a title is what lies in front of that,
trimmed.

Whether words open a directive depends on no more than the keyword and its arguments, so text behind
a line cannot move the end of its title once it is found (`takeTitle_append`).
-/

namespace Chiptune.Text

/-- Words that start with the keyword and, right after it, `count` arguments. -/
def OpensDirective (keyword : List Char) (count : Nat) (words : List Word) : Prop :=
  ∃ (mark : Word) (arguments rest : List Word), words = mark :: (arguments ++ rest) ∧
    sameLetters mark keyword = true ∧ arguments.length = count ∧
    ∀ argument ∈ arguments, isArgument argument = true

/-- The text from the end of the current line on. -/
def afterLine (text : List Char) : List Char := text.dropWhile fun c => c != '\n' && c != '#'

theorem currentLine_append_afterLine (text : List Char) :
    currentLine text ++ afterLine text = text :=
  List.takeWhile_append_dropWhile

theorem not_mem_currentLine (text : List Char) :
    '\n' ∉ currentLine text ∧ '#' ∉ currentLine text := by
  have hall : ∀ c ∈ currentLine text, (c != '\n' && c != '#') = true :=
    List.all_eq_true.1 List.all_takeWhile
  constructor
  · intro hmem
    exact absurd (hall _ hmem) (by decide)
  · intro hmem
    exact absurd (hall _ hmem) (by decide)

/-! ### Lines have no comments -/

theorem skipBlanks_eq_dropWhile {line : List Char} (hhash : '#' ∉ line) :
    skipBlanks false line = line.dropWhile isBlank := by
  induction line with
  | nil => rfl
  | cons c rest ih =>
    rw [List.mem_cons, not_or] at hhash
    have hc : (c == '#') = false := by simpa using Ne.symm hhash.1
    simp only [skipBlanks, hc, Bool.false_eq_true, if_false, List.dropWhile_cons, ih hhash.2]

/-- A line with a further word is blanks, the word, and a rest that a delimiter starts. -/
theorem eq_of_nextWord {line rest : List Char} {word : Word} (hhash : '#' ∉ line)
    (hnext : nextWord line = some (word, rest)) :
    line = line.takeWhile isBlank ++ (word ++ rest) ∧ skipBlanks false line = word ++ rest ∧
      IsWord word ∧ ∀ c, rest.head? = some c → isDelimiter c = true := by
  unfold nextWord at hnext
  split at hnext
  · cases hnext
  · next first tail hskip =>
    cases hnext
    have hsplit : first :: tail = (first :: tail.takeWhile (!isDelimiter ·)) ++
        tail.dropWhile (!isDelimiter ·) := by
      rw [List.cons_append, List.takeWhile_append_dropWhile]
    refine ⟨?_, hskip.trans hsplit, ⟨List.cons_ne_nil _ _, ?_⟩, isDelimiter_head_dropWhile tail⟩
    · rw [← hsplit, ← hskip, skipBlanks_eq_dropWhile hhash, List.takeWhile_append_dropWhile]
    · intro c hc
      rcases List.mem_cons.1 hc with rfl | hc
      · exact isDelimiter_of_skipBlanks hskip
      · simpa using List.all_eq_true.1 List.all_takeWhile c hc

theorem hash_not_mem_of_nextWord {line rest : List Char} {word : Word} (hhash : '#' ∉ line)
    (hnext : nextWord line = some (word, rest)) : '#' ∉ rest := by
  obtain ⟨hline, -, -, -⟩ := eq_of_nextWord hhash hnext
  intro hmem
  rw [hline] at hhash
  exact hhash (List.mem_append_right _ (List.mem_append_right _ hmem))

theorem forall_isBlank_of_nextWord {line : List Char} (hhash : '#' ∉ line)
    (hnone : nextWord line = none) : ∀ c ∈ line, isBlank c = true := by
  unfold nextWord at hnone
  split at hnone
  · next hskip =>
    rw [skipBlanks_eq_dropWhile hhash] at hskip
    exact List.dropWhile_eq_nil_iff.1 hskip
  · cases hnone

/-! ### The words of a directive -/

variable {keyword : List Char} {count : Nat}

theorem opensDirective_cons_iff {mark : Word} {words : List Word} :
    OpensDirective keyword count (mark :: words) ↔ sameLetters mark keyword = true ∧
      (words.take count).length = count ∧ ∀ word ∈ words.take count, isArgument word = true := by
  constructor
  · rintro ⟨mark', arguments, rest, hwords, hsame, rfl, hall⟩
    obtain ⟨rfl, rfl⟩ := List.cons.inj hwords
    rw [List.take_left]
    exact ⟨hsame, rfl, hall⟩
  · rintro ⟨hsame, hlength, hall⟩
    exact ⟨mark, words.take count, words.drop count, by rw [List.take_append_drop], hsame, hlength,
      hall⟩

instance (keyword : List Char) (count : Nat) : DecidablePred (OpensDirective keyword count)
  | [] => isFalse fun ⟨_, _, _, hwords, _⟩ => nomatch hwords
  | _ :: _ => decidable_of_iff _ opensDirective_cons_iff.symm

/-- Words that are many enough open a directive whatever comes behind them, or never. -/
theorem opensDirective_append {words : List Word} (hcount : count < words.length)
    (added : List Word) :
    OpensDirective keyword count (words ++ added) ↔ OpensDirective keyword count words := by
  constructor
  · rintro ⟨mark, arguments, rest, hwords, hsame, hlength, hall⟩
    obtain ⟨word, others, rfl⟩ := List.exists_cons_of_length_pos (Nat.zero_lt_of_lt hcount)
    simp only [List.cons_append, List.cons.injEq] at hwords
    obtain ⟨rfl, hothers⟩ := hwords
    rw [List.length_cons] at hcount
    have harguments : arguments = others.take count := by
      have htake := congrArg (List.take count) hothers
      rwa [List.take_append_of_le_length (by omega), ← hlength, List.take_left, hlength, eq_comm]
        at htake
    rw [opensDirective_cons_iff, ← harguments]
    exact ⟨hsame, hlength, hall⟩
  · rintro ⟨mark, arguments, rest, rfl, hsame, hlength, hall⟩
    exact ⟨mark, arguments, rest ++ added, by simp, hsame, hlength, hall⟩

theorem OpensDirective.lt_length {words : List Word} (hopens : OpensDirective keyword count words) :
    count < words.length := by
  obtain ⟨mark, arguments, rest, rfl, -, rfl, -⟩ := hopens
  rw [List.length_cons, List.length_append]
  omega

/-- The mark of a directive is no argument, so words that open none do not come to open one because
a directive is put behind them. -/
theorem not_opensDirective_append {front back : List Word} (hne : front ≠ [])
    (hfront : ¬ OpensDirective keyword count front) (hback : OpensDirective keyword count back)
    (hmark : ∀ word, sameLetters word keyword = true → isArgument word = false) :
    ¬ OpensDirective keyword count (front ++ back) := by
  by_cases hcount : count < front.length
  · rwa [opensDirective_append hcount]
  · rintro ⟨mark, arguments, rest, hwords, -, hlength, hall⟩
    obtain ⟨word, others, rfl⟩ := List.exists_cons_of_ne_nil hne
    obtain ⟨mark', arguments', rest', rfl, hsame', -, -⟩ := hback
    rw [List.length_cons] at hcount
    rw [List.cons_append] at hwords
    -- Where the words in front run out, the mark behind them would have to be an argument.
    have hplace := congrArg (·[others.length]?) (List.cons.inj hwords).2
    simp only [List.getElem?_append_left (show others.length < arguments.length by omega),
      List.getElem?_append_right (Nat.le_refl others.length), Nat.sub_self,
      List.getElem?_cons_zero] at hplace
    have hargument : isArgument mark' = true := hall mark' (List.mem_of_getElem? hplace.symm)
    rw [hmark mark' hsame'] at hargument
    cases hargument

/-! ### The line from its directive on -/

/-- The line from its directive on, empty if it has none. -/
def fromDirective (keyword : List Char) (count : Nat) (line : List Char) : List Char :=
  match _hnext : nextWord line with
  | none => []
  | some (_, rest) =>
    if OpensDirective keyword count (splitWords line) then skipBlanks false line
    else fromDirective keyword count rest
termination_by line.length
decreasing_by exact length_lt_of_nextWord _hnext

theorem fromDirective_of_none {line : List Char} (hnone : nextWord line = none) :
    fromDirective keyword count line = [] := by
  rw [fromDirective]
  split
  · rfl
  · next heq => rw [hnone] at heq; cases heq

theorem fromDirective_of_opens {line : List Char}
    (hopens : OpensDirective keyword count (splitWords line)) :
    fromDirective keyword count line = skipBlanks false line := by
  rw [fromDirective]
  split
  · next hnone =>
    rw [splitWords_of_none hnone] at hopens
    exact absurd hopens.lt_length (Nat.not_lt_zero _)
  · rw [if_pos hopens]

theorem fromDirective_of_not_opens {line rest : List Char} {word : Word}
    (hnext : nextWord line = some (word, rest))
    (hopens : ¬ OpensDirective keyword count (splitWords line)) :
    fromDirective keyword count line = fromDirective keyword count rest := by
  conv => lhs; rw [fromDirective]
  split
  · next heq => rw [hnext] at heq; cases heq
  · next heq =>
    rw [hnext] at heq
    cases heq
    rw [if_neg hopens]

/-- A line with a directive has words enough for it. -/
theorem lt_length_of_fromDirective {line : List Char}
    (hfound : fromDirective keyword count line ≠ []) : count < (splitWords line).length := by
  by_cases hopens : OpensDirective keyword count (splitWords line)
  · exact hopens.lt_length
  · cases hnext : nextWord line with
    | none => exact absurd (fromDirective_of_none hnext) hfound
    | some next =>
      obtain ⟨word, rest⟩ := next
      have hlt := length_lt_of_nextWord hnext
      rw [fromDirective_of_not_opens hnext hopens] at hfound
      have hrest := lt_length_of_fromDirective hfound
      rw [splitWords_of_some hnext, List.length_cons]
      omega
termination_by line.length

theorem fromDirective_append {line : List Char} (hfound : fromDirective keyword count line ≠ [])
    {d : Char} (hd : isDelimiter d = true) (more : List Char) :
    fromDirective keyword count (line ++ d :: more) =
      fromDirective keyword count line ++ d :: more := by
  cases hnext : nextWord line with
  | none => exact absurd (fromDirective_of_none hnext) hfound
  | some next =>
    obtain ⟨word, rest⟩ := next
    have hlt := length_lt_of_nextWord hnext
    obtain ⟨added, hadded⟩ := exists_words_append hd line more
    rw [words_eq_splitWords, words_eq_splitWords] at hadded
    -- The words in the line are enough to tell whether the directive opens with the first of them.
    have hiff : OpensDirective keyword count (splitWords (line ++ d :: more)) ↔
        OpensDirective keyword count (splitWords line) := by
      rw [hadded]
      exact opensDirective_append (lt_length_of_fromDirective hfound) added
    by_cases hopens : OpensDirective keyword count (splitWords line)
    · rw [fromDirective_of_opens (hiff.2 hopens), fromDirective_of_opens hopens, skipBlanks_append]
      rwa [fromDirective_of_opens hopens] at hfound
    · rw [fromDirective_of_not_opens hnext hopens] at hfound ⊢
      rw [fromDirective_of_not_opens (nextWord_append hnext hd more) (mt hiff.1 hopens)]
      exact fromDirective_append hfound hd more
termination_by line.length

/-- A line is free of the directive if no word of it opens one. -/
theorem fromDirective_eq_nil {line : List Char}
    (hplain : ∀ words, words <:+ splitWords line → ¬ OpensDirective keyword count words) :
    fromDirective keyword count line = [] := by
  cases hnext : nextWord line with
  | none => exact fromDirective_of_none hnext
  | some next =>
    obtain ⟨word, rest⟩ := next
    have hlt := length_lt_of_nextWord hnext
    rw [fromDirective_of_not_opens hnext (hplain _ (List.suffix_refl _))]
    apply fromDirective_eq_nil
    intro words hsuffix
    apply hplain
    rw [splitWords_of_some hnext]
    exact hsuffix.trans (List.suffix_cons _ _)
termination_by line.length

/-- The directive behind a line that has none is found where it stands, even if the line ends in the
keyword and some arguments. -/
theorem fromDirective_append_of_opens
    (hmark : ∀ word, sameLetters word keyword = true → isArgument word = false)
    {line more : List Char} (hhash : '#' ∉ line)
    (hplain : ∀ words, words <:+ splitWords line → ¬ OpensDirective keyword count words)
    {c : Char} (hblank : isBlank c = true)
    (hopens : OpensDirective keyword count (splitWords more)) :
    fromDirective keyword count (line ++ c :: more) = skipBlanks false more := by
  have hsplit := splitWords_append_blank hhash hblank more
  cases hnext : nextWord line with
  | none =>
    rw [splitWords_of_none hnext, List.nil_append] at hsplit
    have hblanks := forall_isBlank_of_nextWord hhash hnext
    rw [fromDirective_of_opens (by rwa [hsplit]), skipBlanks_blanks hblanks]
    exact skipBlanks_blanks (List.forall_mem_singleton.2 hblank) more
  | some next =>
    obtain ⟨word, rest⟩ := next
    have hlt := length_lt_of_nextWord hnext
    have hrest := hash_not_mem_of_nextWord hhash hnext
    have hdelimiter : isDelimiter c = true := by rw [isDelimiter, hblank, Bool.true_or]
    have hwords := splitWords_of_some hnext
    rw [fromDirective_of_not_opens (nextWord_append hnext hdelimiter more)]
    · apply fromDirective_append_of_opens hmark hrest _ hblank hopens
      intro words hsuffix
      apply hplain
      rw [hwords]
      exact hsuffix.trans (List.suffix_cons _ _)
    · rw [hsplit]
      apply not_opensDirective_append _ (hplain _ (List.suffix_refl _)) hopens hmark
      rw [hwords]
      exact List.cons_ne_nil _ _
termination_by line.length

/-! ### The bytes of a title -/

theorem splitWords_skipBlanks (text : List Char) :
    splitWords (skipBlanks false text) = splitWords text :=
  (pieces_blankComments_skipBlanks false text).symm

theorem placedWords_blanks {blanks : List Char} (hblanks : ∀ c ∈ blanks, isBlank c = true)
    (offset : Nat) (line : List Char) :
    placedWords offset (blanks ++ line) =
      placedWords (offset + (Utf8.encode blanks).length) line := by
  induction blanks generalizing offset with
  | nil => rfl
  | cons c blanks ih =>
    have hc : isBlank c = true := hblanks c List.mem_cons_self
    have hrest := ih fun d hd => hblanks d (List.mem_cons_of_mem _ hd)
    rw [List.cons_append, placedWords_cons_blank hc, hrest, Utf8.length_encode_cons,
      utf8Size_of_isBlank hc, Nat.add_assoc]

/-- A word is placed where it starts, and the words behind it from its end on. -/
theorem placedWords_word {word line : List Char} (hne : word ≠ [])
    (hword : ∀ c ∈ word, isBlank c = false)
    (hline : ∀ c, line.head? = some c → isBlank c = true) (offset : Nat) :
    placedWords offset (word ++ line) =
      (offset, word) :: placedWords (offset + (Utf8.encode word).length) line := by
  have hempty : word.isEmpty = false := List.isEmpty_eq_false_iff.2 hne
  cases line with
  | nil =>
    rw [List.append_nil, placedWords, List.splitOnP_eq_singleton hword]
    simp [placedAfter, hempty, placedWords_nil]
  | cons c rest =>
    have hblank : isBlank c = true := hline c rfl
    rw [placedWords_cons_blank hblank, placedWords,
      List.splitOnP_append_cons_of_forall_mem hword c hblank, placedAfter, placedAfter_eq]
    simp [hempty, placedWords]

theorem placedWords_of_none {line : List Char} (hhash : '#' ∉ line)
    (hnone : nextWord line = none) (offset : Nat) : placedWords offset line = [] := by
  have hblanks := placedWords_blanks (forall_isBlank_of_nextWord hhash hnone) offset []
  rwa [List.append_nil, placedWords_nil] at hblanks

theorem placedWords_of_some {line rest : List Char} {word : Word} (hhash : '#' ∉ line)
    (hnext : nextWord line = some (word, rest)) (offset : Nat) :
    ∃ start, offset + (Utf8.encode line).length = start + (Utf8.encode (word ++ rest)).length ∧
      placedWords offset line =
        (start, word) :: placedWords (start + (Utf8.encode word).length) rest := by
  obtain ⟨hline, -, ⟨hne, hletters⟩, hhead⟩ := eq_of_nextWord hhash hnext
  have hrest := hash_not_mem_of_nextWord hhash hnext
  -- A delimiter in a line is a blank, as there is no hash sign.
  have hblank : ∀ c, rest.head? = some c → isBlank c = true := by
    intro c hc
    have hdelimiter := hhead c hc
    have hne : c ≠ '#' := by
      rintro rfl
      exact hrest (List.mem_of_mem_head? hc)
    simpa [isDelimiter, hne] using hdelimiter
  have hword : ∀ c ∈ word, isBlank c = false := fun c hc => isBlank_eq_false (hletters c hc)
  refine ⟨offset + (Utf8.encode (line.takeWhile isBlank)).length, ?_, ?_⟩
  · conv => lhs; rw [hline, Utf8.length_encode_append]
    omega
  · conv => lhs; rw [hline]
    rw [placedWords_blanks (List.all_eq_true.1 List.all_takeWhile),
      placedWords_word hne hword hblank]

theorem map_snd_placedWords {line : List Char} (hhash : '#' ∉ line) (offset : Nat) :
    (placedWords offset line).map Prod.snd = splitWords line := by
  cases hnext : nextWord line with
  | none =>
    rw [placedWords_of_none hhash hnext, splitWords_of_none hnext]
    rfl
  | some next =>
    obtain ⟨word, rest⟩ := next
    have hlt := length_lt_of_nextWord hnext
    have hrest := hash_not_mem_of_nextWord hhash hnext
    obtain ⟨start, -, hplaced⟩ := placedWords_of_some hhash hnext offset
    rw [hplaced, List.map_cons, map_snd_placedWords hrest, splitWords_of_some hnext]
termination_by line.length

theorem directiveStart?_cons (start : Nat) (word : Word) (others : List (Nat × Word)) :
    directiveStart? keyword count ((start, word) :: others) =
      if OpensDirective keyword count (word :: others.map Prod.snd) then some start
      else directiveStart? keyword count others := by
  have htest : (sameLetters word keyword && (others.take count).length == count &&
      (others.take count).all (isArgument ·.2)) = true ↔
      OpensDirective keyword count (word :: others.map Prod.snd) := by
    simp only [opensDirective_cons_iff, ← List.map_take, List.length_map, List.forall_mem_map,
      Bool.and_eq_true, beq_iff_eq, List.all_eq_true, and_assoc]
  rw [directiveStart?]
  simp only [htest]

variable (keyword count)

/-- The bytes counted and those from the directive on make up the line. -/
theorem directiveStart?_add_length {line : List Char} (hhash : '#' ∉ line) (offset : Nat) :
    (directiveStart? keyword count (placedWords offset line)).getD
        (offset + (Utf8.encode line).length) +
      (Utf8.encode (fromDirective keyword count line)).length =
      offset + (Utf8.encode line).length := by
  cases hnext : nextWord line with
  | none =>
    rw [placedWords_of_none hhash hnext, fromDirective_of_none hnext]
    rfl
  | some next =>
    obtain ⟨word, rest⟩ := next
    have hlt := length_lt_of_nextWord hnext
    have hrest := hash_not_mem_of_nextWord hhash hnext
    obtain ⟨start, hlength, hplaced⟩ := placedWords_of_some hhash hnext offset
    rw [hplaced, directiveStart?_cons, map_snd_placedWords hrest, ← splitWords_of_some hnext]
    by_cases hopens : OpensDirective keyword count (splitWords line)
    · rw [if_pos hopens, fromDirective_of_opens hopens, (eq_of_nextWord hhash hnext).2.1, hlength]
      rfl
    · have ih := directiveStart?_add_length hrest (start + (Utf8.encode word).length)
      rw [Utf8.length_encode_append, ← Nat.add_assoc] at hlength
      rw [if_neg hopens, fromDirective_of_not_opens hnext hopens, hlength]
      exact ih
termination_by line.length

theorem fromDirective_suffix {line : List Char} (hhash : '#' ∉ line) :
    fromDirective keyword count line <:+ line := by
  cases hnext : nextWord line with
  | none =>
    rw [fromDirective_of_none hnext]
    exact List.nil_suffix
  | some next =>
    obtain ⟨word, rest⟩ := next
    have hlt := length_lt_of_nextWord hnext
    obtain ⟨hline, hskip, -, -⟩ := eq_of_nextWord hhash hnext
    have hsuffix : word ++ rest <:+ line := ⟨line.takeWhile isBlank, hline.symm⟩
    by_cases hopens : OpensDirective keyword count (splitWords line)
    · rw [fromDirective_of_opens hopens, hskip]
      exact hsuffix
    · have hrest := hash_not_mem_of_nextWord hhash hnext
      rw [fromDirective_of_not_opens hnext hopens]
      exact (fromDirective_suffix hrest).trans ((List.suffix_append word rest).trans hsuffix)
termination_by line.length

variable {keyword count} in
theorem titleSize_eq {text : List Char} (title : List Char)
    (htitle : currentLine text = title ++ fromDirective keyword count (currentLine text)) :
    titleSize keyword count text = (Utf8.encode title).length := by
  have hsum := directiveStart?_add_length keyword count (not_mem_currentLine text).2 0
  have hlength := Utf8.length_encode_append title (fromDirective keyword count (currentLine text))
  rw [← htitle] at hlength
  rw [Nat.zero_add] at hsum
  simp only [titleSize]
  omega

variable {keyword count} in
/-- The title is the part of the line in front of the directive, trimmed, and the text from the
directive or the end of the line on is left. -/
theorem takeTitle_eq {text : List Char} (title : List Char)
    (htitle : currentLine text = title ++ fromDirective keyword count (currentLine text)) :
    takeTitle keyword count text =
      (trimBlanks title, fromDirective keyword count (currentLine text) ++ afterLine text) := by
  have htext : text =
      title ++ (fromDirective keyword count (currentLine text) ++ afterLine text) := by
    rw [← List.append_assoc, ← htitle, currentLine_append_afterLine]
  have hcut : cutAfter? [] (titleSize keyword count text) text =
      some (title, fromDirective keyword count (currentLine text) ++ afterLine text) := by
    rw [titleSize_eq title htitle]
    conv => lhs; rw [htext]
    exact cutAfter?_append [] title _
  simp only [takeTitle, hcut, Option.get_some]

theorem exists_title (text : List Char) :
    ∃ title, currentLine text = title ++ fromDirective keyword count (currentLine text) := by
  obtain ⟨title, htitle⟩ := fromDirective_suffix keyword count (not_mem_currentLine text).2
  exact ⟨title, htitle.symm⟩

/-- Blanks at the ends of a text are trimmed away with those that it has there. -/
theorem trimBlanks_append {before after : List Char} (hbefore : ∀ c ∈ before, isBlank c = true)
    (hafter : ∀ c ∈ after, isBlank c = true) (text : List Char) :
    trimBlanks (before ++ text ++ after) = trimBlanks text := by
  have hend : ∀ rest : List Char,
      (rest ++ after).reverse.dropWhile isBlank = rest.reverse.dropWhile isBlank := by
    intro rest
    rw [List.reverse_append, List.dropWhile_append_of_pos]
    simpa using hafter
  rw [trimBlanks, trimBlanks, List.append_assoc, List.dropWhile_append_of_pos hbefore,
    List.dropWhile_append]
  split
  · next hempty =>
    rw [List.isEmpty_iff] at hempty
    rw [hempty, List.dropWhile_eq_nil_iff.2 hafter]
  · rw [hend]

/-- `inner` is the text without the blanks at its ends, as many as there are. -/
structure Trims (text inner : List Char) : Prop where
  split : ∃ before after, text = before ++ inner ++ after ∧
    (∀ c ∈ before, isBlank c = true) ∧ ∀ c ∈ after, isBlank c = true
  head : ∀ c, inner.head? = some c → isBlank c = false
  last : ∀ c, inner.getLast? = some c → isBlank c = false

theorem isBlank_head_dropWhile {text : List Char} {c : Char}
    (hhead : (text.dropWhile isBlank).head? = some c) : isBlank c = false := by
  have hnot := List.head?_dropWhile_not isBlank text
  rwa [hhead] at hnot

theorem trims_trimBlanks (text : List Char) : Trims text (trimBlanks text) := by
  have hback : text.dropWhile isBlank =
      trimBlanks text ++ ((text.dropWhile isBlank).reverse.takeWhile isBlank).reverse := by
    rw [trimBlanks, ← List.reverse_append, List.takeWhile_append_dropWhile, List.reverse_reverse]
  constructor
  case split =>
    refine ⟨text.takeWhile isBlank, ((text.dropWhile isBlank).reverse.takeWhile isBlank).reverse,
      ?_, List.all_eq_true.1 List.all_takeWhile, ?_⟩
    · rw [List.append_assoc, ← hback, List.takeWhile_append_dropWhile]
    · intro c hc
      exact List.all_eq_true.1 List.all_takeWhile c (List.mem_reverse.1 hc)
  case head =>
    intro c hc
    have hhead : (text.dropWhile isBlank).head? = some c := by
      rw [hback, List.head?_append, hc]
      rfl
    exact isBlank_head_dropWhile hhead
  case last =>
    intro c hc
    rw [trimBlanks, List.getLast?_reverse] at hc
    exact isBlank_head_dropWhile hc

/-! ### Text behind a title -/

/-- A line that is ended stays the same whatever is put behind the text. -/
theorem currentLine_append_of_ended {text : List Char} (hended : afterLine text ≠ [])
    (more : List Char) : currentLine (text ++ more) = currentLine text ∧
      afterLine (text ++ more) = afterLine text ++ more := by
  have hafter : afterLine (text ++ more) = afterLine text ++ more := by
    rw [afterLine, List.dropWhile_append, if_neg]
    · rfl
    · rw [List.isEmpty_iff]
      exact hended
  refine ⟨?_, hafter⟩
  have htext := currentLine_append_afterLine (text ++ more)
  rw [hafter, ← List.append_assoc] at htext
  apply List.append_cancel_right (List.append_cancel_right htext |>.trans _)
  exact (currentLine_append_afterLine text).symm

theorem currentLine_append_lineEnd {d : Char} (hd : d = '\n' ∨ d = '#') (text more : List Char) :
    currentLine (text ++ d :: more) = currentLine text ∧
      afterLine (text ++ d :: more) = afterLine text ++ d :: more := by
  have hstop : (d != '\n' && d != '#') = false := by
    rcases hd with rfl | rfl <;> rfl
  exact ⟨takeWhile_append_cons (p := fun c => c != '\n' && c != '#') hstop text more,
    dropWhile_append_cons (p := fun c => c != '\n' && c != '#') hstop text more⟩

theorem currentLine_append_of_open (text : List Char) (hopen : '\n' ∉ text ∧ '#' ∉ text)
    (more : List Char) : currentLine (text ++ more) = text ++ currentLine more ∧
      afterLine (text ++ more) = afterLine more := by
  have hall : ∀ c ∈ text, (c != '\n' && c != '#') = true := by
    intro c hc
    have hline : c ≠ '\n' := fun heq => hopen.1 (heq ▸ hc)
    have hhash : c ≠ '#' := fun heq => hopen.2 (heq ▸ hc)
    simp [hline, hhash]
  exact ⟨List.takeWhile_append_of_pos hall, List.dropWhile_append_of_pos hall⟩

variable {keyword count}

/-- A delimiter and more text put behind a text do not change its title, if the title ends in front
of them: at a directive, at the end of its line, or at the line feed itself. -/
theorem takeTitle_append {text : List Char} {d : Char} (hd : isDelimiter d = true)
    (hcut : (takeTitle keyword count text).2 ≠ [] ∨ d = '\n') (more : List Char) :
    takeTitle keyword count (text ++ d :: more) =
      ((takeTitle keyword count text).1, (takeTitle keyword count text).2 ++ d :: more) := by
  obtain ⟨title, htitle⟩ := exists_title keyword count text
  rw [takeTitle_eq title htitle] at hcut ⊢
  have hsame : currentLine (text ++ d :: more) = currentLine text →
      afterLine (text ++ d :: more) = afterLine text ++ d :: more →
      takeTitle keyword count (text ++ d :: more) = (trimBlanks title,
        fromDirective keyword count (currentLine text) ++ afterLine text ++ d :: more) := by
    intro hline hafter
    rw [takeTitle_eq title (by rw [hline]; exact htitle), hline, hafter,
      List.append_assoc]
  by_cases hend : d = '\n' ∨ d = '#'
  · obtain ⟨hline, hafter⟩ := currentLine_append_lineEnd hend text more
    exact hsame hline hafter
  · by_cases hended : afterLine text = []
    · -- The line goes on behind the text, but its directive has been found.
      have htext : currentLine text = text := by
        have happend := currentLine_append_afterLine text
        rwa [hended, List.append_nil] at happend
      have hopen := not_mem_currentLine text
      rw [htext] at htitle hopen
      rw [htext, hended, List.append_nil] at hcut ⊢
      have hfound : fromDirective keyword count text ≠ [] :=
        hcut.resolve_right fun heq => hend (Or.inl heq)
      obtain ⟨hrest, hafter⟩ := currentLine_append_of_open [d]
        (by simpa [eq_comm, not_or] using hend) more
      obtain ⟨hline, hafter'⟩ := currentLine_append_of_open text hopen (d :: more)
      rw [List.singleton_append] at hrest hafter
      rw [hrest, List.singleton_append] at hline
      rw [hafter] at hafter'
      have hdirective := fromDirective_append hfound hd (currentLine more)
      rw [takeTitle_eq title, hline, hdirective, hafter', List.append_assoc,
        List.cons_append, currentLine_append_afterLine]
      rw [hline, hdirective, ← List.append_assoc, ← htitle]
    · obtain ⟨hline, hafter⟩ := currentLine_append_of_ended hended (d :: more)
      exact hsame hline hafter

end Chiptune.Text
