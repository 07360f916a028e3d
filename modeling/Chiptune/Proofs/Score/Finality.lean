import Chiptune.Proofs.Score.Steps
import Chiptune.Proofs.Text.Title

/-!
# Final and unfinished texts

A text that is still being written ends anywhere. What the compiler says of it is either final,
that is, said again of every text that starts with it and goes on behind a delimiter, or it says
only that the text ends too early, and then the text can be completed.
`Song.compile_final_or_completable` puts the two together.

For the first half, each reader gives the same outcome in front of more words unless it ran out of
them. For the second, each reader that ran out of words is given what it was waiting for: `filling`
is the words that complete what it has read.
-/

namespace Chiptune

open Text

/-- The reasons given for a text that ends too early. -/
def endOfInputReasons : List String :=
  ["expected ATM1, found end of input", "expected ENTRY, found end of input",
    "expected NAME or ENTRY, found end of input", "ENTRY needs 4 values", "missing END",
    "TRACK without ENDTRACK"] ++
  Mnemonic.all.map fun mnemonic => mnemonic.keyword ++ " is missing an argument"

/-- A fault that says no more than that the text ends too early. -/
def Error.EndsEarly : Error → Prop
  | .grammar fault => fault.message ∈ endOfInputReasons
  | _ => False

instance : (fault : Error) → Decidable fault.EndsEarly
  | .grammar fault => inferInstanceAs (Decidable (fault.message ∈ endOfInputReasons))
  | .range _ | .literal _ | .tooLarge _ _ | .emptyInput | .outOfMemory | .input _ => isFalse id

namespace Score

/-- How many tracks are opened in words that start behind the entry values, counting one that is
opened and not closed. -/
def openedTracks : List Word → Nat
  | [] => 0
  | word :: rest =>
    if Directive.track.isSpelledBy word then
      match _hread : readTrack [] rest with
      | .ok (_, rest') => openedTracks rest' + 1
      | .error _ => 1
    else 0
termination_by words => words.length
decreasing_by exact Nat.lt_succ_of_lt (length_lt_of_readTrack _hread)

/-- How many tracks are opened in words that start with the entry values. -/
def openedInBody (words : List Word) : Nat :=
  match readEntry words with
  | .ok (_, rest) => openedTracks rest
  | .error _ => 0

/-- How many tracks the reader of a text opens. These are the tracks of the score if the text can be
read (`tracksOpened_of_read`). -/
def tracksOpened (text : List Char) : Nat :=
  match readFront text with
  | .ok (_, rest) => openedInBody (words rest)
  | .error _ => 0

end Score

/-! ### Ending too early -/

/-- Whether a fault is that of a text that ends too early, by its cause. -/
def Error.isEndOfInput : Error → Bool
  | .grammar (.unexpected _ none) | .grammar .entryTooShort | .grammar .missingEnd
  | .grammar .openTrack | .grammar (.missingArgument _) => true
  | _ => false

theorem Mnemonic.mem_all (mnemonic : Mnemonic) : mnemonic ∈ Mnemonic.all := by
  cases mnemonic with
  | control op => cases op <;> decide
  | rawByte | note | delay => decide

/-- A word that was found is quoted at the end of the message. -/
theorem GrammarFault.getLast?_message_unexpected (wanted : List Directive) (token : String) :
    (GrammarFault.unexpected wanted (some token)).message.toList.getLast? = some '\'' := by
  have hquoted : (unexpected wanted (some token)).message = "expected " ++
      " or ".intercalate (wanted.map Directive.keyword) ++ ", found " ++ ("'" ++ token) ++ "'" := by
    simp only [message, foundText, String.append_assoc]
  rw [hquoted, String.toList_append]
  exact List.getLast?_concat

theorem getLast?_ne_quote : ∀ reason ∈ endOfInputReasons, reason.toList.getLast? ≠ some '\'' := by
  decide +kernel

/-- Among the faults that a text can have, those that end too early are told by their messages. -/
theorem Error.endsEarly_iff {fault : Error} (hfault : fault.isOfText = true) :
    fault.EndsEarly ↔ fault.isEndOfInput = true := by
  cases fault with
  | grammar fault =>
    cases fault with
    | unexpected wanted found =>
      cases found with
      | none =>
        have hwanted : wanted ∈ [[.formatMark], [.title, .entry], [Directive.entry]] :=
          List.contains_iff_mem.1 hfault
        refine iff_of_true ?_ rfl
        simp only [List.mem_cons, List.not_mem_nil, or_false] at hwanted
        rcases hwanted with rfl | rfl | rfl <;> decide +kernel
      | some token =>
        refine iff_of_false ?_ Bool.false_ne_true
        intro hmem
        exact getLast?_ne_quote _ hmem (GrammarFault.getLast?_message_unexpected wanted token)
    | entryTooShort | missingEnd | openTrack => exact iff_of_true (by decide +kernel) rfl
    | missingArgument mnemonic =>
      refine iff_of_true (List.mem_append_right _ ?_) rfl
      exact List.mem_map_of_mem mnemonic.mem_all
    | other reason => cases hfault
  | range fault | literal token | tooLarge size max | emptyInput | outOfMemory | input fault =>
    exact iff_of_false id Bool.false_ne_true

/-! ### More words behind the words read -/

/-- An outcome that says more than that the words ran out. -/
def Settled {α : Type} (outcome : Except Error α) : Prop :=
  ∀ fault, outcome = .error fault → fault.isEndOfInput = false

theorem settled_ok {α : Type} (a : α) : Settled (.ok a : Except Error α) := nofun

theorem settled_error_iff {α : Type} {fault : Error} :
    Settled (.error fault : Except Error α) ↔ fault.isEndOfInput = false := by
  simp [Settled]

theorem not_settled {α : Type} {fault : Error} (hfault : fault.isEndOfInput = true) :
    ¬ Settled (.error fault : Except Error α) := by
  rw [settled_error_iff, hfault]
  nofun

theorem Settled.of_error {α β : Type} {fault : Error}
    (hsettled : Settled (.error fault : Except Error α)) :
    Settled (.error fault : Except Error β) :=
  settled_error_iff.2 (settled_error_iff.1 hsettled)

/-- An outcome is settled only if that of the first part is. -/
theorem Settled.of_bind {α β : Type} {first : Except Error α} {next : α → Except Error β}
    (hsettled : Settled (first >>= next)) : Settled first := by
  intro fault hfault
  apply hsettled
  rw [hfault]
  rfl

theorem readLiterals_extend {missing : Error} (hmissing : missing.isEndOfInput = true) {count : Nat}
    {words rest : List Word} {outcome : Except Error (Vector Int count)}
    (hread : readLiterals missing count words = (outcome, rest)) (hsettled : Settled outcome)
    (more : List Word) : readLiterals missing count (words ++ more) = (outcome, rest ++ more) := by
  induction count generalizing rest with
  | zero =>
    cases hread
    rfl
  | succ count ih =>
    rw [readLiterals] at hread ⊢
    split at hread
    · next fault rest' hfront =>
      cases hread
      rw [ih hfront hsettled.of_error]
    · cases hread
      exact absurd hsettled (not_settled hmissing)
    · next values word rest' hfront =>
      rw [ih hfront (settled_ok _), List.cons_append]
      split at hread
      · next value hparse =>
        cases hread
        simp only [hparse]
      · next hparse =>
        cases hread
        simp only [hparse]

theorem Instr.read_extend {operation : Word} {words rest : List Word} {outcome : Except Error Instr}
    (hread : read operation words = (outcome, rest)) (hsettled : Settled outcome)
    (more : List Word) : read operation (words ++ more) = (outcome, rest ++ more) := by
  unfold read at hread ⊢
  split at hread
  · split at hread <;> cases hread <;> rfl
  · next mnemonic hmnemonic =>
    split at hread
    · next values rest' hliterals =>
      cases hread
      rw [readLiterals_extend rfl hliterals (settled_ok _)]
    · next fault rest' hliterals =>
      cases hread
      rw [readLiterals_extend rfl hliterals hsettled.of_error]

namespace Score

theorem readTrack_extend {instrs : List Instr} {words : List Word}
    (hsettled : Settled (readTrack instrs words)) (more : List Word) :
    readTrack instrs (words ++ more) =
      (readTrack instrs words).map fun read => (read.1, read.2 ++ more) := by
  induction instrs, words using readTrack_induction with
  | nil instrs =>
    rw [readTrack] at hsettled
    exact absurd hsettled (not_settled rfl)
  | closing instrs word words hend =>
    rw [List.cons_append, readTrack_of_closing hend, readTrack_of_closing hend]
    rfl
  | instr instrs word words instr rest hend hinstr ih =>
    have hextend := Instr.read_extend hinstr (settled_ok _) more
    rw [readTrack_of_instr hend hinstr] at hsettled ⊢
    rw [List.cons_append, readTrack_of_instr hend hextend]
    exact ih hsettled
  | fault instrs word words fault rest hend hinstr =>
    rw [readTrack_of_fault hend hinstr] at hsettled ⊢
    have hextend := Instr.read_extend hinstr hsettled.of_error more
    rw [List.cons_append, readTrack_of_fault hend hextend]
    rfl

theorem readTracks_extend {size : Nat} {tracks : List Track} {words : List Word}
    (hsettled : Settled (readTracks size tracks words)) (more : List Word) :
    readTracks size tracks (words ++ more) = readTracks size tracks words := by
  induction size, tracks, words using readTracks_induction with
  | nil size tracks =>
    rw [readTracks] at hsettled
    exact absurd hsettled (not_settled rfl)
  | endMark size tracks word words hend =>
    rw [List.cons_append, readTracks_of_endMark hend, readTracks_of_endMark hend]
  | stray size tracks word words hend htrack =>
    rw [List.cons_append, readTracks_of_stray hend htrack, readTracks_of_stray hend htrack]
  | offset size tracks word words htrack hsize =>
    rw [List.cons_append, readTracks_of_offset htrack hsize, readTracks_of_offset htrack hsize]
  | track size tracks word words track rest htrack hsize hbody ih =>
    have hextend := readTrack_extend (hbody ▸ settled_ok _) more
    rw [hbody] at hextend
    rw [readTracks_of_track htrack hsize hbody] at hsettled ⊢
    rw [List.cons_append, readTracks_of_track htrack hsize hextend]
    exact ih hsettled
  | fault size tracks word words fault htrack hsize hbody =>
    rw [readTracks_of_fault htrack hsize hbody] at hsettled ⊢
    have hfault : Settled (readTrack [] words) := by
      rw [hbody]
      exact hsettled.of_error
    have hextend := readTrack_extend hfault more
    rw [hbody] at hextend
    rw [List.cons_append, readTracks_of_fault htrack hsize hextend]

theorem readEntry_extend {words : List Word} (hsettled : Settled (readEntry words))
    (more : List Word) :
    readEntry (words ++ more) = (readEntry words).map fun read => (read.1, read.2 ++ more) := by
  unfold readEntry at hsettled ⊢
  cases hliterals : readLiterals (.grammar .entryTooShort) 4 words with
  | mk outcome rest =>
    rw [hliterals] at hsettled
    cases outcome with
    | ok values =>
      rw [readLiterals_extend rfl hliterals (settled_ok _)]
      rfl
    | error fault =>
      rw [readLiterals_extend rfl hliterals hsettled.of_error]
      rfl

/-! ### More text behind the text read -/

variable {d : Char} (hd : isDelimiter d = true)

include hd in
theorem expect_extend {directive : Directive} {text : List Char}
    (hsettled : Settled (expect directive text)) (more : List Char) :
    expect directive (text ++ d :: more) = (expect directive text).map (· ++ d :: more) := by
  simp only [expect, readToken_directive] at hsettled ⊢
  cases hnext : nextWord text with
  | none =>
    simp only [hnext] at hsettled
    exact absurd hsettled (not_settled rfl)
  | some next =>
    obtain ⟨word, rest⟩ := next
    simp only [nextWord_append hnext hd]
    split <;> rfl

include hd in
theorem readTitle_extend {text : List Char} (hsettled : Settled (readTitle text))
    (more : List Char) :
    readTitle (text ++ d :: more) =
      (readTitle text).map fun read => (read.1, read.2 ++ d :: more) := by
  simp only [readTitle, readToken_directive] at hsettled ⊢
  cases hnext : nextWord text with
  | none =>
    simp only [hnext] at hsettled
    exact absurd hsettled (not_settled rfl)
  | some next =>
    obtain ⟨word, line⟩ := next
    simp only [nextWord_append hnext hd]
    simp only [hnext] at hsettled
    split
    · rfl
    · next hentry =>
      rw [if_neg hentry] at hsettled
      split
      · next htitle =>
        rw [if_pos htitle] at hsettled
        have hexpect :
            Settled (expect .entry (takeTitle Directive.entry.keyword.toList 4 line).2) := by
          intro fault hfault
          rw [hfault] at hsettled
          exact settled_error_iff.1 hsettled
        -- The directive was found behind the title, so the title did not run to the end.
        have hcut : (takeTitle Directive.entry.keyword.toList 4 line).2 ≠ [] := by
          intro hnil
          rw [hnil] at hexpect
          exact absurd hexpect (not_settled rfl)
        rw [takeTitle_append hd (Or.inl hcut), expect_extend hd hexpect]
        cases expect .entry (takeTitle Directive.entry.keyword.toList 4 line).2 <;> rfl
      · rfl

include hd in
theorem readFront_extend {text : List Char} (hsettled : Settled (readFront text))
    (more : List Char) :
    readFront (text ++ d :: more) =
      (readFront text).map fun read => (read.1, read.2 ++ d :: more) := by
  unfold readFront at hsettled ⊢
  rw [expect_extend hd hsettled.of_bind]
  cases hbody : expect .formatMark text with
  | error fault => rfl
  | ok body =>
    rw [hbody] at hsettled
    exact readTitle_extend hd hsettled more

theorem readBody_extend {words : List Word} (hsettled : Settled (readBody words))
    (more : List Word) : readBody (words ++ more) = readBody words := by
  unfold readBody at hsettled ⊢
  rw [readEntry_extend hsettled.of_bind]
  cases hentry : readEntry words with
  | error fault => rfl
  | ok read =>
    rw [hentry] at hsettled
    change Settled (readTracks 0 [] read.2 >>= _) at hsettled
    change (readTracks 0 [] (read.2 ++ more) >>= _) = (readTracks 0 [] read.2 >>= _)
    rw [readTracks_extend hsettled.of_bind]

include hd in
theorem read_extend {text : List Char} (hsettled : Settled (read text)) (more : List Char) :
    read (text ++ d :: more) = read text := by
  rw [read_eq_readFront] at hsettled ⊢
  rw [read_eq_readFront, readFront_extend hd hsettled.of_bind]
  cases hfront : readFront text with
  | error fault => rfl
  | ok read =>
    obtain ⟨title, rest⟩ := read
    rw [hfront] at hsettled
    change Settled (readBody (words rest) >>= _) at hsettled
    change (readBody (words (rest ++ d :: more)) >>= _) = (readBody (words rest) >>= _)
    obtain ⟨added, hadded⟩ := exists_words_append hd rest more
    rw [hadded, readBody_extend hsettled.of_bind]

end Score

/-! ### Words that complete what was read -/

/-- A word that is a number wherever one is wanted, within the range of notes and of delays. -/
def fillerWord : Word := "1".toList

theorem Numeral.value_eq_one {numeral : Numeral argumentLimit} (hword : numeral.word = fillerWord) :
    numeral.value = 1 := by
  have hparse := numeral.parse_eq
  rw [hword] at hparse
  exact (Option.some.inj hparse).symm

/-- Words ran out in front of the last argument only if all of them are arguments. -/
theorem forall_isArgument_of_readLiterals {missing fault : Error} {count : Nat}
    {words rest : List Word} (hread : readLiterals missing count words = (.error fault, rest))
    (hfault : fault.isEndOfInput = true) :
    words.length < count ∧ ∀ word ∈ words, isArgument word = true := by
  induction count generalizing rest with
  | zero => cases hread
  | succ count ih =>
    rw [readLiterals] at hread
    split at hread
    · next hfront =>
      cases hread
      obtain ⟨hlength, hwords⟩ := ih hfront
      exact ⟨Nat.lt_succ_of_lt hlength, hwords⟩
    · next hfront =>
      obtain ⟨numerals, rfl, -⟩ := exists_numerals_of_readLiterals hfront
      refine ⟨by simp, ?_⟩
      intro word hword
      rw [List.append_nil, List.mem_map] at hword
      obtain ⟨numeral, -, rfl⟩ := hword
      rw [isArgument, numeral.parse_eq]
      rfl
    · split at hread
      · cases hread
      · cases hread
        cases hfault

theorem isWord_fillerWord : IsWord fillerWord := by decide +kernel

theorem Directive.isWord_keyword (directive : Directive) : IsWord directive.keyword.toList := by
  cases directive <;> decide +kernel

theorem Directive.isWord_singleton_keyword (directive : Directive) :
    ∀ word ∈ [directive.keyword.toList], IsWord word :=
  List.forall_mem_singleton.2 directive.isWord_keyword

/-- Fillers in the place of missing arguments make numerals of all of them. -/
theorem exists_numerals_of_short {words : List Word} {count : Nat} (hlength : words.length < count)
    (hwords : ∀ word ∈ words, isArgument word = true) :
    ∃ (filling : List Word) (numerals : Vector (Numeral argumentLimit) count),
      (∀ word ∈ filling, word = fillerWord) ∧
      numerals.toList.map Numeral.word = words ++ filling := by
  have hfiller : ∀ word ∈ List.replicate (count - words.length) fillerWord, word = fillerWord :=
    fun word hword => List.eq_of_mem_replicate hword
  have hall : ∀ word ∈ words ++ List.replicate (count - words.length) fillerWord,
      isArgument word = true := by
    intro word hword
    rcases List.mem_append.1 hword with hword | hword
    · exact hwords word hword
    · rw [hfiller word hword]
      rfl
  have hcount : (words ++ List.replicate (count - words.length) fillerWord).length = count := by
    rw [List.length_append, List.length_replicate]
    omega
  obtain ⟨numerals, hnumerals⟩ := exists_numerals_of_isArgument hall hcount
  exact ⟨_, numerals, hfiller, hnumerals⟩

theorem Mnemonic.allows_of_short {mnemonic : Mnemonic} {words filling : List Word}
    {numerals : Vector (Numeral argumentLimit) mnemonic.argumentCount}
    (hshort : words.length < mnemonic.argumentCount)
    (hfilling : ∀ word ∈ filling, word = fillerWord)
    (hnumerals : numerals.toList.map Numeral.word = words ++ filling) :
    mnemonic.Allows (numerals.map Numeral.value) := by
  -- Only operations with one argument have a range, and then that argument is a filler.
  have hone : mnemonic.argumentCount = 1 → ∀ numeral ∈ numerals.toList, numeral.value = 1 := by
    intro hcount numeral hnumeral
    apply Numeral.value_eq_one
    apply hfilling
    have hnil : words = [] := List.length_eq_zero_iff.1 (by omega)
    rw [hnil, List.nil_append] at hnumerals
    rw [← hnumerals]
    exact List.mem_map_of_mem hnumeral
  cases mnemonic with
  | rawByte | control op => trivial
  | note =>
    have hvalue := hone rfl numerals.head (by simp [Vector.head])
    simp only [Allows, Vector.head, Vector.getElem_map] at hvalue ⊢
    omega
  | delay =>
    have hvalue := hone rfl numerals.head (by simp [Vector.head])
    simp only [Allows, Vector.head, Vector.getElem_map] at hvalue ⊢
    omega

theorem Instr.exists_filling_of_read {word : Word} {words rest : List Word} {fault : Error}
    (hread : read (word.take directiveLimit) words = (.error fault, rest))
    (hfault : fault.isEndOfInput = true) :
    ∃ (filling : List Word) (instr : Instr), (∀ word ∈ filling, IsWord word) ∧ ∀ more,
      read (word.take directiveLimit) (words ++ (filling ++ more)) = (.ok instr, more) := by
  unfold read at hread
  rw [Mnemonic.ofWord?_take] at hread
  split at hread
  · split at hread
    · cases hread
    · cases hread
      cases hfault
  · next mnemonic hspelled =>
    split at hread
    · obtain ⟨value, rfl | rfl⟩ := exists_range_of_ofArguments (Prod.mk.inj hread).1
      · cases hfault
      · cases hfault
    · next hliterals =>
      cases hread
      obtain ⟨hshort, hwords⟩ := forall_isArgument_of_readLiterals hliterals hfault
      obtain ⟨filling, numerals, hfilling, hnumerals⟩ := exists_numerals_of_short hshort hwords
      let phrase : Phrase := .operation word mnemonic numerals hspelled
        (Mnemonic.allows_of_short hshort hfilling hnumerals)
      refine ⟨filling, phrase.instr, fun other hother => ?_, fun more => ?_⟩
      · rw [hfilling other hother]
        exact isWord_fillerWord
      · have hphrase := read_phrase phrase more
        rwa [show phrase.others = words ++ filling from hnumerals, List.append_assoc] at hphrase

namespace Score

theorem exists_filling_of_readTrack {instrs : List Instr} {words : List Word} {fault : Error}
    (hread : readTrack instrs words = .error fault) (hfault : fault.isEndOfInput = true) :
    ∃ (filling : List Word) (track : Track), (∀ word ∈ filling, IsWord word) ∧ ∀ more,
      readTrack instrs (words ++ (filling ++ more)) = .ok (track, more) := by
  have hclosing : ∀ (instrs : List Instr) (more : List Word),
      readTrack instrs (Directive.endTrack.keyword.toList :: more) = .ok (instrs.reverse, more) :=
    fun instrs more => readTrack_of_closing (by decide)
  induction instrs, words using readTrack_induction with
  | nil instrs =>
    exact ⟨[Directive.endTrack.keyword.toList], instrs.reverse,
      Directive.endTrack.isWord_singleton_keyword, hclosing instrs⟩
  | closing instrs word words hend =>
    rw [readTrack_of_closing hend] at hread
    cases hread
  | instr instrs word words instr rest hend hinstr ih =>
    rw [readTrack_of_instr hend hinstr] at hread
    obtain ⟨filling, track, hfilling, hrest⟩ := ih hread
    refine ⟨filling, track, hfilling, fun more => ?_⟩
    rw [List.cons_append,
      readTrack_of_instr hend (Instr.read_extend hinstr (settled_ok _) (filling ++ more))]
    exact hrest more
  | fault instrs word words fault' rest hend hinstr =>
    rw [readTrack_of_fault hend hinstr] at hread
    cases hread
    obtain ⟨filling, instr, hfilling, hrest⟩ := Instr.exists_filling_of_read hinstr hfault
    refine ⟨filling ++ [Directive.endTrack.keyword.toList], (instr :: instrs).reverse, ?_,
      fun more => ?_⟩
    · exact List.forall_mem_append.2 ⟨hfilling, Directive.endTrack.isWord_singleton_keyword⟩
    · rw [List.append_assoc, List.cons_append, readTrack_of_instr hend (hrest _)]
      exact hclosing _ more

theorem openedTracks_of_track {word : Word} (htrack : Directive.track.isSpelledBy word = true)
    {words rest : List Word} {track : Track} (hread : readTrack [] words = .ok (track, rest)) :
    openedTracks (word :: words) = openedTracks rest + 1 := by
  rw [openedTracks, if_pos htrack]
  split
  · next heq =>
    rw [hread] at heq
    cases heq
    rfl
  · next heq =>
    rw [hread] at heq
    cases heq

theorem openedTracks_of_fault {word : Word} (htrack : Directive.track.isSpelledBy word = true)
    {words : List Word} {fault : Error} (hread : readTrack [] words = .error fault) :
    openedTracks (word :: words) = 1 := by
  rw [openedTracks, if_pos htrack]
  split
  · next heq =>
    rw [hread] at heq
    cases heq
  · rfl

theorem length_of_readTracks {size : Nat} {tracks result : List Track} {words : List Word}
    (hread : readTracks size tracks words = .ok result) :
    tracks.length + openedTracks words = result.length := by
  induction size, tracks, words using readTracks_induction with
  | nil size tracks =>
    rw [readTracks] at hread
    cases hread
  | endMark size tracks word words hend =>
    have htrack := Directive.isSpelledBy_eq_false hend (by decide : Directive.endSong ≠ .track)
    rw [readTracks_of_endMark hend, closeTracks_eq_ok_iff] at hread
    obtain ⟨-, rfl⟩ := hread
    rw [openedTracks, htrack, List.length_reverse]
    rfl
  | stray size tracks word words hend htrack =>
    rw [readTracks_of_stray hend htrack] at hread
    cases hread
  | offset size tracks word words htrack hsize =>
    rw [readTracks_of_offset htrack hsize] at hread
    cases hread
  | track size tracks word words track rest htrack hsize hbody ih =>
    rw [readTracks_of_track htrack hsize hbody] at hread
    rw [openedTracks_of_track htrack hbody, ← ih hread, List.length_cons]
    omega
  | fault size tracks word words fault htrack hsize hbody =>
    rw [readTracks_of_fault htrack hsize hbody] at hread
    cases hread

/-- A text that can be read opens as many tracks as it has. -/
theorem tracksOpened_of_read {text : List Char} {score : Score} (hread : read text = .ok score) :
    tracksOpened text = score.tracks.length := by
  rw [read_eq_readFront, bind_eq_ok_iff] at hread
  obtain ⟨⟨title, rest⟩, hfront, hbody⟩ := hread
  simp only [readBody, bind_eq_ok_iff] at hbody
  obtain ⟨_, ⟨⟨entry, words'⟩, hentry, tracks, htracks, hpair⟩, hscore⟩ := hbody
  cases hpair
  cases hscore
  rw [tracksOpened, hfront]
  simp only [openedInBody, hentry]
  rw [← length_of_readTracks htracks, List.length_nil, Nat.zero_add]

theorem readTracks_endMark {tracks : List Track} (hne : tracks ≠ [])
    (hcount : tracks.length ≤ maxTracks) (size : Nat) :
    readTracks size tracks [Directive.endSong.keyword.toList] = .ok tracks.reverse := by
  rw [readTracks_of_endMark (by decide), closeTracks_eq_ok_iff, List.length_reverse]
  exact ⟨⟨List.length_pos_iff.2 hne, hcount⟩, rfl⟩

/-- The words of an empty track and the end of a song. -/
def closingWords : List Word :=
  [Directive.track.keyword.toList, Directive.endTrack.keyword.toList,
    Directive.endSong.keyword.toList]

theorem isWord_closingWords : ∀ word ∈ closingWords, IsWord word := by
  simp only [closingWords, List.forall_mem_cons, Directive.isWord_keyword, true_and]
  nofun

theorem readTracks_closingWords {size : Nat} (hsize : size ≤ maxOffset) :
    readTracks size [] closingWords = .ok [[]] := by
  have hempty : readTrack [] [Directive.endTrack.keyword.toList, Directive.endSong.keyword.toList] =
      .ok ([], [Directive.endSong.keyword.toList]) := readTrack_of_closing (by decide)
  rw [closingWords, readTracks_of_track (by decide) hsize hempty]
  exact readTracks_endMark (List.cons_ne_nil _ _) (by decide) _

/-- Tracks that are not too many can be ended. A first track is opened only if there is none. -/
theorem exists_filling_of_readTracks {size : Nat} {tracks : List Track} {words : List Word}
    {fault : Error} (hread : readTracks size tracks words = .error fault)
    (hfault : fault.isEndOfInput = true) (hfirst : tracks = [] → size ≤ maxOffset)
    (hopened : tracks.length + openedTracks words ≤ maxTracks) :
    ∃ (filling : List Word) (result : List Track), (∀ word ∈ filling, IsWord word) ∧
      readTracks size tracks (words ++ filling) = .ok result := by
  induction size, tracks, words using readTracks_induction with
  | nil size tracks =>
    by_cases hne : tracks = []
    · -- A song has at least one track, so an empty one is put in.
      subst hne
      exact ⟨closingWords, [[]], isWord_closingWords, readTracks_closingWords (hfirst rfl)⟩
    · exact ⟨[Directive.endSong.keyword.toList], tracks.reverse,
        Directive.endSong.isWord_singleton_keyword, readTracks_endMark hne (by omega) size⟩
  | endMark size tracks word words hend =>
    rw [readTracks_of_endMark hend, closeTracks] at hread
    split at hread
    · cases hread
      cases hfault
    · cases hread
  | stray size tracks word words hend htrack =>
    rw [readTracks_of_stray hend htrack] at hread
    cases hread
    cases hfault
  | offset size tracks word words htrack hsize =>
    rw [readTracks_of_offset htrack hsize] at hread
    cases hread
    cases hfault
  | track size tracks word words track rest htrack hsize hbody ih =>
    rw [readTracks_of_track htrack hsize hbody] at hread
    rw [openedTracks_of_track htrack hbody] at hopened
    have hnext : (track :: tracks).length + openedTracks rest ≤ maxTracks := by
      rw [List.length_cons]
      omega
    obtain ⟨filling, result, hfilling, hresult⟩ := ih hread
      (fun hnil => absurd hnil (List.cons_ne_nil _ _)) hnext
    refine ⟨filling, result, hfilling, ?_⟩
    have hextend := readTrack_extend (hbody ▸ settled_ok _) filling
    rw [hbody] at hextend
    rw [List.cons_append, readTracks_of_track htrack hsize hextend]
    exact hresult
  | fault size tracks word words fault' htrack hsize hbody =>
    rw [readTracks_of_fault htrack hsize hbody] at hread
    cases hread
    rw [openedTracks_of_fault htrack hbody] at hopened
    obtain ⟨filling, track, hfilling, hclosed⟩ := exists_filling_of_readTrack hbody hfault
    refine ⟨filling ++ [Directive.endSong.keyword.toList], (track :: tracks).reverse, ?_, ?_⟩
    · exact List.forall_mem_append.2 ⟨hfilling, Directive.endSong.isWord_singleton_keyword⟩
    · rw [List.cons_append, readTracks_of_track htrack hsize (hclosed _)]
      exact readTracks_endMark (List.cons_ne_nil _ _) hopened _

theorem exists_filling_of_readEntry {words : List Word} {fault : Error}
    (hread : readEntry words = .error fault) (hfault : fault.isEndOfInput = true) :
    ∃ (filling : List Word) (entry : Entry), (∀ word ∈ filling, IsWord word) ∧ ∀ more,
      readEntry (words ++ (filling ++ more)) = .ok (entry, more) := by
  unfold readEntry at hread
  split at hread
  · cases hread
  · next hliterals =>
    cases hread
    obtain ⟨hshort, hwords⟩ := forall_isArgument_of_readLiterals hliterals hfault
    obtain ⟨filling, numerals, hfilling, hnumerals⟩ := exists_numerals_of_short hshort hwords
    refine ⟨filling, _, fun word hword => ?_, fun more => readEntry_eq_ok_iff.2 ⟨numerals, ?_, rfl⟩⟩
    · rw [hfilling word hword]
      exact isWord_fillerWord
    · rw [hnumerals, List.append_assoc]

theorem exists_filling_of_readBody {words : List Word} {fault : Error}
    (hread : readBody words = .error fault) (hfault : fault.isEndOfInput = true)
    (hopened : openedInBody words ≤ maxTracks) :
    ∃ (filling : List Word) (result : Entry × List Track), (∀ word ∈ filling, IsWord word) ∧
      readBody (words ++ filling) = .ok result := by
  simp only [readBody, bind_eq_error_iff] at hread
  rcases hread with hentry | ⟨⟨entry, rest⟩, hentry, htracks | ⟨_, _, hpure⟩⟩
  · obtain ⟨filling, entry, hfilling, hfilled⟩ := exists_filling_of_readEntry hentry hfault
    refine ⟨filling ++ closingWords, (entry, [[]]),
      List.forall_mem_append.2 ⟨hfilling, isWord_closingWords⟩, ?_⟩
    simp only [readBody, bind_eq_ok_iff]
    exact ⟨_, hfilled closingWords, _, readTracks_closingWords (Nat.zero_le _), rfl⟩
  · simp only [openedInBody, hentry] at hopened
    obtain ⟨filling, tracks, hfilling, hfilled⟩ := exists_filling_of_readTracks htracks hfault
      (fun _ => Nat.zero_le _) (by simpa using hopened)
    refine ⟨filling, (entry, tracks), hfilling, ?_⟩
    have hextend := readEntry_extend (hentry ▸ settled_ok (entry, rest)) filling
    rw [hentry] at hextend
    simp only [readBody, bind_eq_ok_iff]
    exact ⟨_, hextend, _, hfilled, rfl⟩
  · cases hpure

/-! ### Text that completes what was read -/

theorem nextWord_eq_none_of_expect {directive : Directive} {text : List Char} {fault : Error}
    (hread : expect directive text = .error fault) (hfault : fault.isEndOfInput = true) :
    nextWord text = none := by
  simp only [expect, readToken_directive] at hread
  cases hnext : nextWord text with
  | none => rfl
  | some next =>
    simp only [hnext] at hread
    split at hread
    · cases hread
    · cases hread
      cases hfault

theorem expect_newline {text : List Char} (hnone : nextWord text = none) (directive : Directive)
    (more : List Char) : expect directive (text ++ '\n' :: more) = expect directive more := by
  simp only [expect, readToken_directive, nextWord_append_newline hnone]

/-- A song from its entry values on. -/
def bareBody : List Char := ' ' :: spell (List.replicate 4 fillerWord ++ closingWords)

/-- A song without its format mark. -/
def bareSong : List Char := Directive.entry.keyword.toList ++ bareBody

theorem readBody_bareBody : readBody (words bareBody) = .ok (#v[1, 1, 1, 1], [[]]) := by
  decide +kernel

theorem readTitle_newline {text : List Char} {fault : Error} (hread : readTitle text = .error fault)
    (hfault : fault.isEndOfInput = true) :
    ∃ title, readTitle (text ++ '\n' :: bareSong) = .ok (title, bareBody) := by
  simp only [readTitle, readToken_directive] at hread ⊢
  cases hnext : nextWord text with
  | none =>
    simp only [nextWord_append_newline hnext]
    exact ⟨none, rfl⟩
  | some next =>
    obtain ⟨word, line⟩ := next
    simp only [nextWord_append hnext (by decide : isDelimiter '\n' = true)]
    simp only [hnext] at hread
    split
    · next hentry =>
      rw [if_pos hentry] at hread
      cases hread
    · next hentry =>
      rw [if_neg hentry] at hread
      split
      · next htitle =>
        rw [if_pos htitle] at hread
        rw [takeTitle_append (by decide) (Or.inr rfl)]
        cases hexpect : expect .entry (takeTitle Directive.entry.keyword.toList 4 line).2 with
        | ok rest =>
          rw [hexpect] at hread
          cases hread
        | error fault' =>
          rw [hexpect] at hread
          cases hread
          simp only [expect_newline (nextWord_eq_none_of_expect hexpect hfault)]
          exact ⟨_, rfl⟩
      · next htitle =>
        rw [if_neg htitle] at hread
        cases hread
        cases hfault

theorem readFront_newline {text : List Char} {fault : Error} (hread : readFront text = .error fault)
    (hfault : fault.isEndOfInput = true) :
    ∃ more title, readFront (text ++ '\n' :: more) = .ok (title, bareBody) := by
  simp only [readFront, bind_eq_error_iff] at hread
  rcases hread with hmark | ⟨body, hmark, htitle⟩
  · refine ⟨Directive.formatMark.keyword.toList ++ ' ' :: bareSong, none, ?_⟩
    rw [readFront, expect_newline (nextWord_eq_none_of_expect hmark hfault)]
    rfl
  · obtain ⟨title, hbare⟩ := readTitle_newline htitle hfault
    refine ⟨bareSong, title, ?_⟩
    have hextend := expect_extend (by decide : isDelimiter '\n' = true) (hmark ▸ settled_ok body)
      bareSong
    rw [hmark] at hextend
    simp only [readFront, bind_eq_ok_iff]
    exact ⟨_, hextend, hbare⟩

theorem words_append_spell (text : List Char) {filling : List Word}
    (hfilling : ∀ word ∈ filling, IsWord word) :
    words (text ++ '\n' :: spell filling) = words text ++ filling := by
  rw [words_eq_splitWords, words_eq_splitWords, splitWords_append_newline,
    splitWords_spell hfilling]

theorem exists_read_newline {text : List Char} {fault : Error} (hread : read text = .error fault)
    (hfault : fault.isEndOfInput = true) (hopened : tracksOpened text ≤ maxTracks) :
    ∃ more score, read (text ++ '\n' :: more) = .ok score := by
  rw [read_eq_readFront, bind_eq_error_iff] at hread
  rcases hread with hfront | ⟨⟨title, rest⟩, hfront, hbody⟩
  · obtain ⟨more, title, hbare⟩ := readFront_newline hfront hfault
    refine ⟨more, ⟨title, #v[1, 1, 1, 1], [[]]⟩, ?_⟩
    rw [read_eq_readFront, hbare]
    change (readBody (words bareBody) >>= _) = _
    rw [readBody_bareBody]
    rfl
  · change (readBody (words rest) >>= _) = _ at hbody
    rw [bind_eq_error_iff] at hbody
    rcases hbody with hbody | ⟨_, _, hpure⟩
    · simp only [tracksOpened, hfront] at hopened
      obtain ⟨filling, ⟨entry, tracks⟩, hfilling, hfilled⟩ :=
        exists_filling_of_readBody hbody hfault hopened
      refine ⟨spell filling, ⟨title, entry, tracks⟩, ?_⟩
      have hextend := readFront_extend (by decide : isDelimiter '\n' = true)
        (hfront ▸ settled_ok (title, rest)) (spell filling)
      rw [hfront] at hextend
      rw [read_eq_readFront, hextend]
      change (readBody (words (rest ++ '\n' :: spell filling)) >>= _) = _
      rw [words_append_spell rest hfilling, hfilled]
      rfl
    · cases hpure

end Score

/-- What the compiler says of a text is said again of every text that goes on behind a delimiter,
unless it is that the text ends too early. A text that ends too early, and has not opened more
tracks than a song can have, goes on to one that compiles. -/
theorem Song.compile_final_or_completable (text : List Char) :
    ((∀ fault, Song.compile text = .error fault → ¬ fault.EndsEarly) →
      ∀ (d : Char) (more : List Char), isDelimiter d = true →
        Song.compile (text ++ d :: more) = Song.compile text) ∧
    (∀ fault, Song.compile text = .error fault → fault.EndsEarly → Score.tracksOpened text ≤ 255 →
      ∃ (more : List Char) (song : Song), Song.compile (text ++ '\n' :: more) = .ok song) := by
  constructor
  · intro hfinal d more hd
    have hsettled : Settled (Score.read text) := by
      intro fault hread
      have hcompile := Song.compile_eq_error_iff.2 hread
      have hearly := hfinal fault hcompile
      rwa [Error.endsEarly_iff (Song.isOfText_of_compile hcompile), Bool.not_eq_true] at hearly
    rw [Song.compile, Score.read_extend hd hsettled, Song.compile]
  · intro fault hcompile hearly hopened
    rw [Error.endsEarly_iff (Song.isOfText_of_compile hcompile)] at hearly
    obtain ⟨more, score, hscore⟩ :=
      Score.exists_read_newline (Song.compile_eq_error_iff.1 hcompile) hearly hopened
    exact ⟨more, score.toSong, by rw [Song.compile, hscore]; rfl⟩

/-- A text whose title holds the keyword that ends it, with a word in its track that is no
operation. -/
def strayText : List Char := "ATM1 NAME Entry ENTRY 1 2 3 4 TRACK END".toList

/-- A text that ends in a comment, inside the arguments of an operation. -/
def unfinishedText : List Char := "ATM1 ENTRY 1 2 3 4 TRACK GOTO_ADVANCED 7 8 # open".toList

theorem Song.final_strayText_completable_unfinishedText :
    (∀ (d : Char) (more : List Char), isDelimiter d = true →
      Song.compile (strayText ++ d :: more) = .error (.literal "END")) ∧
    ∃ (more : List Char) (song : Song),
      Song.compile (unfinishedText ++ '\n' :: more) = .ok song := by
  have hstray : Song.compile strayText = .error (.literal "END") := by decide +kernel
  have hunfinished : Song.compile unfinishedText =
      .error (.grammar (.missingArgument (.control .gotoAdvanced))) := by decide +kernel
  constructor
  · intro d more hd
    rw [← hstray]
    apply (Song.compile_final_or_completable strayText).1 _ d more hd
    intro fault hfault
    rw [hstray] at hfault
    cases hfault
    exact id
  · exact (Song.compile_final_or_completable unfinishedText).2 _ hunfinished (by decide +kernel)
      (by decide +kernel)

end Chiptune
