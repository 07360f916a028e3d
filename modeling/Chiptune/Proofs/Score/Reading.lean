import Chiptune.Proofs.Score.Layout
import Chiptune.Proofs.Score.Sheet
import Chiptune.Proofs.Text.Splitting

/-!
# What the readers accept

Each reader of a song text accepts exactly the words of the part of a sheet that it is for, and gives
what that part stands for. There are two lemmas for a reader: one says that it reads every such part
in front of any other words, and one finds the part behind every success. `Score.read_eq_ok_iff` puts
them together for whole texts, with a title or without.

Main result: `Song.compile_untitled_iff`, the grammar of texts without a title.
-/

namespace Chiptune

open Text

instance decidableEqExcept {ε α : Type} [DecidableEq ε] [DecidableEq α] : DecidableEq (Except ε α)
  | .ok _, .ok _ => decidable_of_iff _ (Except.ok.injEq ..).to_iff.symm
  | .error _, .error _ => decidable_of_iff _ (Except.error.injEq ..).to_iff.symm
  | .ok _, .error _ => isFalse nofun
  | .error _, .ok _ => isFalse nofun

theorem bind_eq_ok_iff {α β : Type} {first : Except Error α} {next : α → Except Error β} {b : β} :
    (first >>= next) = .ok b ↔ ∃ a, first = .ok a ∧ next a = .ok b := by
  cases first with
  | ok a => simp [bind, Except.bind]
  | error fault => simp [bind, Except.bind]

/-! ### Instructions -/

theorem ofInt_eq_ofNat_toNat {value : Int} (hnonneg : 0 ≤ value) (hlt : value < 256) :
    UInt8.ofInt value = UInt8.ofNat value.toNat := by
  rw [UInt8.ofInt, Int.emod_eq_of_lt hnonneg (by simpa using hlt)]

/-- The bytes of a delay in terms of the number that is written. -/
theorem Ticks.encode_of_count {ticks : Ticks} {value : Int} (hcount : (ticks.count : Int) = value) :
    ticks.encode = if value ≤ 64 then [UInt8.ofInt (159 + value)]
      else 224 :: Varint.encode (UInt32.ofInt (value - 65)) := by
  have hmax : ticks.count ≤ 2147483647 := ticks.le_max
  by_cases hshort : value ≤ 64
  · have hnat : (159 + value).toNat = 159 + ticks.count := by omega
    rw [if_pos hshort, encode_of_le (by omega), ofInt_eq_ofNat_toNat (by omega) (by omega), hnat]
  · have hnat : (value - 65).toNat = ticks.count - 65 := by omega
    rw [if_neg hshort, encode_of_lt (by omega), UInt32.ofInt,
      Int.emod_eq_of_lt (by omega) (by omega), hnat]

theorem Phrase.encode_instr (phrase : Phrase) : phrase.instr.encode = phrase.bytes := by
  cases phrase with
  | lone numeral plain => rfl
  | operation name mnemonic arguments spelled allowed =>
    cases mnemonic with
    | rawByte => simp [instr, bytes, Instr.encode, Mnemonic.bytes, Vector.head]
    | note =>
      simp only [Mnemonic.Allows, Vector.head, Vector.getElem_map] at allowed
      simp only [instr, bytes, Instr.encode, Mnemonic.bytes, Vector.head, Vector.getElem_map]
      rw [ofInt_eq_ofNat_toNat allowed.1 (by omega)]
    | delay =>
      simp only [Mnemonic.Allows, Vector.head, Vector.getElem_map] at allowed
      simp only [instr, bytes, Instr.encode, Mnemonic.bytes, Vector.head, Vector.getElem_map]
      exact Ticks.encode_of_count (Int.toNat_of_nonneg (by omega))
    | control op =>
      simp only [instr, bytes, Instr.encode, Mnemonic.bytes, Vector.map_map]
      rfl

theorem Block.encode_track (block : Block) : block.track.encode = block.bytes := by
  simp only [track, Track.encode, bytes, List.flatMap_map, Phrase.encode_instr]

theorem Instr.ofArguments_values {name : Word} {mnemonic : Mnemonic}
    (arguments : Vector (Numeral argumentLimit) mnemonic.argumentCount)
    (spelled : Mnemonic.ofWord? name = some mnemonic)
    (allowed : mnemonic.Allows (arguments.map Numeral.value)) :
    Instr.ofArguments mnemonic (arguments.map Numeral.value) =
      .ok (Phrase.operation name mnemonic arguments spelled allowed).instr := by
  cases mnemonic with
  | rawByte => simp [ofArguments, Phrase.instr, Vector.head]
  | note =>
    simp only [Mnemonic.Allows, Vector.head, Vector.getElem_map] at allowed
    simp only [ofArguments, Phrase.instr, Vector.head, Vector.getElem_map]
    exact dif_pos allowed
  | delay =>
    simp only [Mnemonic.Allows, Vector.head, Vector.getElem_map] at allowed
    have hle := arguments[0].value_le
    have hmin : min arguments[0].value.toNat maxTicks = arguments[0].value.toNat := by
      unfold maxTicks
      omega
    simp only [ofArguments, Phrase.instr, Vector.head, Vector.getElem_map, Ticks.ofInt,
      dif_neg (show ¬ arguments[0].value < 1 by omega), Except.map, hmin]
  | control op =>
    have hmap : (arguments.map Numeral.value).map UInt8.ofInt =
        arguments.map fun numeral => UInt8.ofInt numeral.value := Vector.map_map
    simp only [ofArguments, Phrase.instr]
    exact congrArg (fun operands => Except.ok (control op operands)) hmap

theorem Instr.allows_of_ofArguments {mnemonic : Mnemonic}
    {values : Vector Int mnemonic.argumentCount} {instr : Instr}
    (hok : Instr.ofArguments mnemonic values = .ok instr) : mnemonic.Allows values := by
  cases mnemonic with
  | rawByte => trivial
  | note =>
    simp only [ofArguments] at hok
    split at hok
    · assumption
    · cases hok
  | delay =>
    simp only [ofArguments, Ticks.ofInt] at hok
    split at hok
    · cases hok
    · next hlt => exact Int.not_lt.1 hlt
  | control op => trivial

/-! ### Literals -/

/-- Numerals in front of any words are read with their values. -/
theorem readLiterals_append (missing : Error) {count : Nat}
    (numerals : Vector (Numeral argumentLimit) count) (rest : List Word) :
    readLiterals missing count (numerals.toList.map Numeral.word ++ rest) =
      (.ok (numerals.map Numeral.value), rest) := by
  induction count generalizing rest with
  | zero =>
    have hnil : numerals = #v[] := Vector.eq_empty
    subst hnil
    simp [readLiterals]
  | succ count ih =>
    -- The last numeral is read last, so the induction is on the front of the vector.
    obtain ⟨front, last, rfl⟩ : ∃ (front : Vector (Numeral argumentLimit) count) (last : _),
        numerals = front.push last := Vector.exists_push
    have hwords : (front.push last).toList.map Numeral.word ++ rest =
        front.toList.map Numeral.word ++ last.word :: rest := by
      simp [Vector.toList_push]
    rw [readLiterals, hwords, ih]
    simp [last.parse_eq]

theorem exists_numerals_of_isArgument {words : List Word}
    (hwords : ∀ word ∈ words, isArgument word = true) {count : Nat}
    (hcount : words.length = count) : ∃ numerals : Vector (Numeral argumentLimit) count,
      numerals.toList.map Numeral.word = words := by
  induction words generalizing count with
  | nil =>
    subst hcount
    exact ⟨#v[], rfl⟩
  | cons word words ih =>
    subst hcount
    obtain ⟨value, hvalue⟩ := Option.isSome_iff_exists.1 (hwords word List.mem_cons_self)
    have hothers : ∀ other ∈ words, isArgument other = true := fun other hother =>
      hwords other (List.mem_cons_of_mem _ hother)
    obtain ⟨numerals, hnumerals⟩ := ih hothers rfl
    refine ⟨⟨(⟨word, value, hvalue⟩ :: numerals.toList).toArray, by simp⟩, ?_⟩
    simp [hnumerals]

/-- Behind literals that are read there are numerals. -/
theorem exists_numerals_of_readLiterals {missing : Error} {count : Nat} {words rest : List Word}
    {values : Vector Int count} (hread : readLiterals missing count words = (.ok values, rest)) :
    ∃ numerals : Vector (Numeral argumentLimit) count,
      words = numerals.toList.map Numeral.word ++ rest ∧ numerals.map Numeral.value = values := by
  induction count generalizing rest with
  | zero =>
    cases hread
    exact ⟨#v[], by simp, by simp⟩
  | succ count ih =>
    rw [readLiterals] at hread
    split at hread
    · cases hread
    · cases hread
    · next front word tail hfront =>
      split at hread
      · next value hparse =>
        cases hread
        obtain ⟨numerals, hwords, hvalues⟩ := ih hfront
        refine ⟨numerals.push ⟨word, value, hparse⟩, ?_, ?_⟩
        · rw [hwords]
          simp [Vector.toList_push]
        · rw [Vector.map_push, hvalues]
      · cases hread

/-! ### Instructions and tracks -/

/-- A phrase in front of any words is read as its instruction. -/
theorem Instr.read_phrase (phrase : Phrase) (rest : List Word) :
    Instr.read (phrase.first.take directiveLimit) (phrase.others ++ rest) =
      (.ok phrase.instr, rest) := by
  cases phrase with
  | lone numeral plain =>
    simp only [read, Phrase.first, Mnemonic.ofWord?_take, plain, numeral.parse_eq]
    rfl
  | operation name mnemonic arguments spelled allowed =>
    simp only [read, Phrase.first, Phrase.others, Mnemonic.ofWord?_take, spelled,
      readLiterals_append, ofArguments_values arguments spelled allowed]

/-- Behind an instruction that is read there is a phrase. -/
theorem Instr.exists_phrase_of_read {word : Word} {words rest : List Word} {instr : Instr}
    (hread : Instr.read (word.take directiveLimit) words = (.ok instr, rest)) :
    ∃ phrase : Phrase, phrase.first = word ∧ words = phrase.others ++ rest ∧
      phrase.instr = instr := by
  rw [read, Mnemonic.ofWord?_take] at hread
  split at hread
  · next hplain =>
    split at hread
    · next value hparse =>
      cases hread
      exact ⟨.lone ⟨word, value, hparse⟩ hplain, rfl, rfl, rfl⟩
    · cases hread
  · next mnemonic hspelled =>
    split at hread
    · next values tail hvalues =>
      obtain ⟨hok, rfl⟩ := Prod.mk.inj hread
      obtain ⟨numerals, hwords, rfl⟩ := exists_numerals_of_readLiterals hvalues
      have hallowed := allows_of_ofArguments hok
      refine ⟨.operation word mnemonic numerals hspelled hallowed, rfl, hwords, ?_⟩
      rw [ofArguments_values numerals hspelled hallowed] at hok
      exact Except.ok.inj hok
    · cases hread

namespace Score

/-- Phrases up to a closing word are read as their instructions. -/
theorem readTrack_phrases (found : List Instr) (phrases : List Phrase) {closing : Word}
    (hclosing : Directive.endTrack.isSpelledBy closing = true) (rest : List Word) :
    readTrack found (phrases.flatMap Phrase.words ++ closing :: rest) =
      .ok (found.reverse ++ phrases.map Phrase.instr, rest) := by
  induction phrases generalizing found with
  | nil => simp [readTrack, Directive.isSpelledBy_take, hclosing]
  | cons phrase phrases ih =>
    have hopen := phrase.isSpelledBy_first .endTrack
    have hread := Instr.read_phrase phrase (phrases.flatMap Phrase.words ++ closing :: rest)
    rw [List.flatMap_cons, List.append_assoc, Phrase.words, List.cons_append, readTrack]
    simp only [Directive.isSpelledBy_take, hopen, Bool.false_eq_true, if_false]
    split
    · next instr rest' heq =>
      rw [hread] at heq
      cases heq
      rw [ih]
      simp
    · next fault rest' heq =>
      rw [hread] at heq
      cases heq

/-- Behind a track that is read there are phrases and a closing word. -/
theorem exists_phrases_of_readTrack {found : List Instr} {words rest : List Word} {track : Track}
    (hread : readTrack found words = .ok (track, rest)) :
    ∃ (phrases : List Phrase) (closing : Word),
      words = phrases.flatMap Phrase.words ++ closing :: rest ∧
      Directive.endTrack.isSpelledBy closing = true ∧
      track = found.reverse ++ phrases.map Phrase.instr := by
  fun_induction readTrack found words with
  | case1 => cases hread
  | case2 found word rest' operation hend =>
    cases hread
    exact ⟨[], word, rfl, by rwa [← Directive.isSpelledBy_take], by simp⟩
  | case3 found word rest' operation hend instr rest'' hinstr ih =>
    obtain ⟨phrases, closing, hwords, hclosing, htrack⟩ := ih hread
    obtain ⟨phrase, rfl, hothers, rfl⟩ := Instr.exists_phrase_of_read hinstr
    refine ⟨phrase :: phrases, closing, ?_, hclosing, ?_⟩
    · rw [hothers, hwords, List.flatMap_cons, List.append_assoc, Phrase.words, List.cons_append]
    · rw [htrack]
      simp
  | case4 => cases hread

/-- Blocks that start within reach, up to an end mark, are read as their tracks. -/
theorem readTracks_blocks (size : Nat) (found : List Track) (blocks : List Block) {endMark : Word}
    (hend : Directive.endSong.isSpelledBy endMark = true) (remarks : List Word)
    (hfits : ∀ index < blocks.length, size + Block.bytesBefore blocks index ≤ maxOffset) :
    readTracks size found (blocks.flatMap Block.words ++ endMark :: remarks) =
      closeTracks (found.reverse ++ blocks.map Block.track) := by
  induction blocks generalizing size found with
  | nil => simp [readTracks, Directive.isSpelledBy_take, hend]
  | cons block blocks ih =>
    have hsize : size ≤ maxOffset := hfits 0 (Nat.zero_lt_succ _)
    have hread := readTrack_phrases [] block.phrases block.closes
      (blocks.flatMap Block.words ++ endMark :: remarks)
    have hrest : ∀ index < blocks.length,
        size + block.track.encode.length + Block.bytesBefore blocks index ≤ maxOffset := by
      intro index hindex
      have hle := hfits (index + 1) (Nat.succ_lt_succ hindex)
      rw [Block.bytesBefore_succ] at hle
      rw [Block.encode_track]
      omega
    rw [List.flatMap_cons, List.append_assoc, Block.words, List.cons_append, List.append_assoc,
      List.singleton_append, readTracks]
    simp only [Directive.isSpelledBy_take, block.endSong_isSpelledBy_opening, block.opens,
      Bool.false_eq_true, if_false, Bool.not_true, if_neg (Nat.not_lt_of_le hsize)]
    split
    · next track rest' heq =>
      rw [hread] at heq
      cases heq
      exact (ih _ _ hrest).trans (by simp [Block.track])
    · next fault heq =>
      rw [hread] at heq
      cases heq

/-- Behind tracks that are read there are blocks that start within reach, and an end mark. -/
theorem exists_blocks_of_readTracks {size : Nat} {found tracks : List Track} {words : List Word}
    (hread : readTracks size found words = .ok tracks) :
    ∃ (blocks : List Block) (endMark : Word) (remarks : List Word),
      words = blocks.flatMap Block.words ++ endMark :: remarks ∧
      Directive.endSong.isSpelledBy endMark = true ∧
      (∀ index < blocks.length, size + Block.bytesBefore blocks index ≤ maxOffset) ∧
      closeTracks (found.reverse ++ blocks.map Block.track) = .ok tracks := by
  fun_induction readTracks size found words with
  | case1 => cases hread
  | case2 size found word rest token hend =>
    refine ⟨[], word, rest, rfl, by rwa [← Directive.isSpelledBy_take], ?_, by simpa using hread⟩
    intro index hindex
    cases hindex
  | case3 => cases hread
  | case4 => cases hread
  | case5 size found word rest token hend htrack hsize track rest' hbody ih =>
    obtain ⟨blocks, endMark, remarks, hwords, hmark, hfits, hclose⟩ := ih hread
    obtain ⟨phrases, closing, hphrases, hclosing, rfl⟩ := exists_phrases_of_readTrack hbody
    have hopen : Directive.track.isSpelledBy word = true := by
      rw [← Directive.isSpelledBy_take]
      simpa using htrack
    let block : Block := ⟨word, phrases, closing, hopen, hclosing⟩
    refine ⟨block :: blocks, endMark, remarks, ?_, hmark, ?_, ?_⟩
    · rw [hphrases, hwords]
      simp [block, Block.words]
    · intro index hindex
      cases index with
      | zero => exact Nat.not_lt.1 hsize
      | succ index =>
        have hle := hfits index (Nat.lt_of_succ_lt_succ hindex)
        have hbytes := block.encode_track
        rw [Block.bytesBefore_succ, ← hbytes, ← Nat.add_assoc]
        exact hle
    · rw [← hclose]
      simp [block, Block.track]
  | case6 => cases hread

theorem closeTracks_eq_ok_iff {tracks tracks' : List Track} :
    closeTracks tracks = .ok tracks' ↔
      (1 ≤ tracks.length ∧ tracks.length ≤ maxTracks) ∧ tracks = tracks' := by
  unfold closeTracks
  split
  · next hcount =>
    constructor
    · intro hread
      cases hread
    · rintro ⟨hbounds, -⟩
      omega
  · next hcount =>
    constructor
    · intro hread
      cases hread
      exact ⟨by omega, rfl⟩
    · rintro ⟨-, rfl⟩
      rfl

/-! ### The parts in front of the tracks -/

theorem expect_eq_ok_iff {directive : Directive} {text rest : List Char} :
    expect directive text = .ok rest ↔
      ∃ word, nextWord text = some (word, rest) ∧ directive.isSpelledBy word = true := by
  unfold expect readToken
  cases hnext : nextWord text with
  | none => simp
  | some next =>
    obtain ⟨word, tail⟩ := next
    have hlimit : directiveLimit ≠ 0 := by decide
    simp only [hlimit, if_false, Directive.isSpelledBy_take]
    constructor
    · intro hread
      split at hread
      · next hspelled =>
        cases hread
        exact ⟨word, rfl, hspelled⟩
      · cases hread
    · rintro ⟨word', hword, hspelled⟩
      cases hword
      rw [if_pos hspelled]

/-- The text from the directive in front of the entry values on, if the text starts after the format
mark: a title is passed over. -/
def pastTitle (text : List Char) : List Char :=
  match nextWord text with
  | none => text
  | some (word, line) =>
    if Directive.title.isSpelledBy word then (takeTitle Directive.entry.keyword.toList 4 line).2
    else text

/-- The title of a text that starts after the format mark. -/
def titleOf? (text : List Char) : Option String :=
  match nextWord text with
  | none => none
  | some (word, line) =>
    if Directive.title.isSpelledBy word then
      some (String.ofList ((takeTitle Directive.entry.keyword.toList 4 line).1.take titleLimit))
    else none

/-- A text that does not start with the directive of a title has none. -/
theorem pastTitle_eq_self {text : List Char} (huntitled : ∀ word,
    (splitWords text).head? = some word → Directive.title.isSpelledBy word = false) :
    pastTitle text = text ∧ titleOf? text = none := by
  unfold pastTitle titleOf?
  cases hnext : nextWord text with
  | none => exact ⟨rfl, rfl⟩
  | some next =>
    obtain ⟨word, line⟩ := next
    have hword : Directive.title.isSpelledBy word = false := by
      apply huntitled
      rw [splitWords_of_some hnext, List.head?_cons]
    simp [hword]

theorem readTitle_eq_ok_iff {text rest : List Char} {title : Option String} :
    readTitle text = .ok (title, rest) ↔
      (∃ word, nextWord (pastTitle text) = some (word, rest) ∧
        Directive.entry.isSpelledBy word = true) ∧ title = titleOf? text := by
  have hlimit : directiveLimit ≠ 0 := by decide
  cases hnext : nextWord text with
  | none => simp [readTitle, readToken, pastTitle, hnext]
  | some next =>
    obtain ⟨word, line⟩ := next
    simp only [readTitle, readToken, pastTitle, titleOf?, hnext, hlimit, if_false,
      Directive.isSpelledBy_take]
    cases hentry : Directive.entry.isSpelledBy word with
    | true =>
      have htitle : Directive.title.isSpelledBy word = false := by
        rw [Bool.eq_false_iff]
        intro htitle
        cases Directive.eq_of_isSpelledBy hentry htitle
      simp only [htitle, hnext, if_true, Bool.false_eq_true, if_false]
      constructor
      · intro hread
        cases hread
        exact ⟨⟨word, rfl, hentry⟩, rfl⟩
      · rintro ⟨⟨word', hword, -⟩, rfl⟩
        cases hword
        rfl
    | false =>
      cases htitle : Directive.title.isSpelledBy word with
      | true =>
        simp only [Bool.false_eq_true, if_false, if_true]
        rw [← expect_eq_ok_iff]
        cases expect .entry (takeTitle Directive.entry.keyword.toList 4 line).2 with
        | ok tail => simp [and_comm, eq_comm]
        | error fault => simp
      | false =>
        simp only [Bool.false_eq_true, if_false]
        constructor
        · intro hread
          cases hread
        · rintro ⟨⟨word', hword, hspelled⟩, -⟩
          rw [hnext] at hword
          cases hword
          rw [hentry] at hspelled
          cases hspelled

theorem readEntry_eq_ok_iff {words rest : List Word} {entry : Entry} :
    readEntry words = .ok (entry, rest) ↔
      ∃ numerals : Vector (Numeral argumentLimit) 4,
        words = numerals.toList.map Numeral.word ++ rest ∧
        entry = numerals.map fun numeral => UInt8.ofInt numeral.value := by
  constructor
  · intro hread
    unfold readEntry at hread
    split at hread
    · next values tail hvalues =>
      cases hread
      obtain ⟨numerals, hwords, rfl⟩ := exists_numerals_of_readLiterals hvalues
      exact ⟨numerals, hwords, Vector.map_map⟩
    · cases hread
  · rintro ⟨numerals, rfl, rfl⟩
    simp only [readEntry, readLiterals_append, Vector.map_map]
    rfl

/-! ### Whole texts -/

/-- A text is read exactly if it has the format mark and, past the title, the words of a sheet. The
score is then that of the sheet. -/
theorem read_eq_ok_iff {text : List Char} {score : Score} :
    read text = .ok score ↔ ∃ (mark : Word) (body : List Char) (sheet : Sheet),
      nextWord text = some (mark, body) ∧ Directive.formatMark.isSpelledBy mark = true ∧
      splitWords (pastTitle body) = sheet.words ∧ score = sheet.score (titleOf? body) := by
  constructor
  · intro hread
    simp only [read, bind_eq_ok_iff] at hread
    obtain ⟨body, hmark, ⟨title, rest⟩, htitle, ⟨entry, words'⟩, hentry, tracks, htracks, hscore⟩ :=
      hread
    obtain ⟨mark, hnext, hspelled⟩ := expect_eq_ok_iff.1 hmark
    obtain ⟨⟨entryMark, hentryNext, hentryMark⟩, rfl⟩ := readTitle_eq_ok_iff.1 htitle
    obtain ⟨numerals, hwords, rfl⟩ := readEntry_eq_ok_iff.1 hentry
    obtain ⟨blocks, endMark, remarks, rfl, hend, hfits, hclose⟩ :=
      exists_blocks_of_readTracks htracks
    obtain ⟨hcount, rfl⟩ := closeTracks_eq_ok_iff.1 hclose
    rw [List.reverse_nil, List.nil_append, List.length_map] at hcount
    let sheet : Sheet :=
      { entryMark, entry := numerals, blocks, endMark, remarks, opens := hentryMark, closes := hend
        one_le_length := hcount.1, length_le := hcount.2
        fits := by simpa using hfits }
    refine ⟨mark, body, sheet, hnext, hspelled, ?_, ?_⟩
    · rw [splitWords_of_some hentryNext, ← words_eq_splitWords, hwords]
      rfl
    · cases hscore
      rfl
  · rintro ⟨mark, body, sheet, hnext, hspelled, hwords, rfl⟩
    obtain ⟨rest, hentryNext, hrest⟩ := exists_nextWord_of_splitWords hwords
    have hmark : expect .formatMark text = .ok body := expect_eq_ok_iff.2 ⟨mark, hnext, hspelled⟩
    have htitle : readTitle body = .ok (titleOf? body, rest) :=
      readTitle_eq_ok_iff.2 ⟨⟨sheet.entryMark, hentryNext, sheet.opens⟩, rfl⟩
    have hentry : readEntry (words rest) = .ok ((sheet.score (titleOf? body)).entry,
        sheet.blocks.flatMap Block.words ++ sheet.endMark :: sheet.remarks) := by
      rw [words_eq_splitWords, hrest]
      exact readEntry_eq_ok_iff.2 ⟨sheet.entry, rfl, rfl⟩
    have htracks := readTracks_blocks 0 [] sheet.blocks sheet.closes sheet.remarks
      (by simpa using sheet.fits)
    have hclose : closeTracks ([].reverse ++ sheet.blocks.map Block.track) =
        .ok (sheet.blocks.map Block.track) :=
      closeTracks_eq_ok_iff.2 ⟨by simpa using ⟨sheet.one_le_length, sheet.length_le⟩, rfl⟩
    simp only [read, bind_eq_ok_iff]
    exact ⟨body, hmark, _, htitle, _, hentry, _, htracks.trans hclose, rfl⟩

end Score

namespace Sheet

theorem bytesBefore_eq_startOf (blocks : List Block) (index : Nat) :
    Block.bytesBefore blocks index = Score.startOf (blocks.map Block.track) index := by
  rw [Block.bytesBefore, Score.startOf, ← List.map_take, List.flatMap_map]
  simp only [Block.encode_track]

theorem fits_score (title : Option String) (sheet : Sheet) : (sheet.score title).Fits where
  one_le_length := by simpa [score] using sheet.one_le_length
  length_le := by simpa [score] using sheet.length_le
  startOf_le := by
    intro index hindex
    rw [score, List.length_map] at hindex
    rw [score, ← bytesBefore_eq_startOf]
    exact sheet.fits index hindex

theorem toSong_score (title : Option String) (sheet : Sheet) :
    (sheet.score title).toSong = { sheet.song with title := title } := by
  have hoffsets := Score.offsets_toSong (sheet.score title)
  have hdata : (sheet.blocks.map Block.track).flatMap Track.encode =
      sheet.blocks.flatMap Block.bytes := by
    rw [List.flatMap_map]
    simp only [Block.encode_track]
  simp only [score, List.length_map, ← bytesBefore_eq_startOf] at hoffsets
  simp only [Score.toSong] at hoffsets
  simp only [Score.toSong, score, song, hoffsets, hdata]

end Sheet

/-- A text compiles exactly if it has the format mark and, past the title, the words of a sheet. -/
theorem Song.compile_eq_ok_iff {text : List Char} {song : Song} :
    Song.compile text = .ok song ↔ ∃ (mark : Word) (body : List Char) (sheet : Sheet),
      nextWord text = some (mark, body) ∧ Directive.formatMark.isSpelledBy mark = true ∧
      splitWords (Score.pastTitle body) = sheet.words ∧
      song = { sheet.song with title := Score.titleOf? body } := by
  constructor
  · intro hcompile
    unfold Song.compile at hcompile
    cases hread : Score.read text with
    | error fault =>
      rw [hread] at hcompile
      cases hcompile
    | ok score =>
      rw [hread] at hcompile
      obtain ⟨mark, body, sheet, hnext, hmark, hwords, rfl⟩ := Score.read_eq_ok_iff.1 hread
      refine ⟨mark, body, sheet, hnext, hmark, hwords, ?_⟩
      rw [← Sheet.toSong_score]
      exact (Except.ok.inj hcompile).symm
  · rintro ⟨mark, body, sheet, hnext, hmark, hwords, rfl⟩
    have hread := Score.read_eq_ok_iff.2 ⟨mark, body, sheet, hnext, hmark, hwords, rfl⟩
    rw [Song.compile, hread, ← Sheet.toSong_score]
    rfl

/-- A text whose second word does not announce a title compiles exactly if its words are the format
mark and the words of a sheet. There is one way only to divide them so, and the song is the one of
that sheet. -/
theorem Song.compile_untitled_iff (text : List Char)
    (huntitled : ∀ word, (splitWords text)[1]? = some word →
      Directive.title.isSpelledBy word = false) :
    (∀ song, Song.compile text = .ok song ↔ ∃ (mark : Word) (sheet : Sheet),
      Directive.formatMark.isSpelledBy mark = true ∧ splitWords text = mark :: sheet.words ∧
      song = sheet.song) ∧
    (∀ (mark mark' : Word) (sheet sheet' : Sheet), splitWords text = mark :: sheet.words →
      splitWords text = mark' :: sheet'.words → mark = mark' ∧ sheet = sheet') := by
  constructor
  · intro song
    -- The words after the format mark are those of the text past the title, as there is none.
    have hbody : ∀ mark body, nextWord text = some (mark, body) →
        Score.pastTitle body = body ∧ Score.titleOf? body = none := by
      intro mark body hnext
      apply Score.pastTitle_eq_self
      intro word hhead
      apply huntitled
      rwa [splitWords_of_some hnext, List.getElem?_cons_succ, ← List.head?_eq_getElem?]
    rw [Song.compile_eq_ok_iff]
    constructor
    · rintro ⟨mark, body, sheet, hnext, hmark, hwords, rfl⟩
      obtain ⟨hpast, htitle⟩ := hbody mark body hnext
      refine ⟨mark, sheet, hmark, ?_, by rw [htitle]; rfl⟩
      rw [splitWords_of_some hnext, ← hwords, hpast]
    · rintro ⟨mark, sheet, hmark, hwords, rfl⟩
      obtain ⟨body, hnext, hrest⟩ := exists_nextWord_of_splitWords hwords
      obtain ⟨hpast, htitle⟩ := hbody mark body hnext
      exact ⟨mark, body, sheet, hnext, hmark, by rw [hpast, hrest], by rw [htitle]; rfl⟩
  · intro mark mark' sheet sheet' hwords hwords'
    obtain ⟨hmark, hsheet⟩ := List.cons.inj (hwords.symm.trans hwords')
    exact ⟨hmark, Sheet.words_injective hsheet⟩

/-- A text in letters of any case, with a comment, a negative and a hexadecimal number, a long delay
and a lone literal. -/
def loneTrackText : List Char :=
  "atm1 Entry 1 -1,0x100 4 track Note 63 delay 65 7#b\nENDtrack End".toList

theorem Song.compile_untitled_loneTrackText :
    Song.compile loneTrackText = .ok ⟨none, #v[1, 255, 0, 4], [0], [63, 224, 0, 7]⟩ ∧
    ∃ (mark : Word) (sheet : Sheet), Directive.formatMark.isSpelledBy mark = true ∧
      splitWords loneTrackText = mark :: sheet.words ∧
      sheet.song = ⟨none, #v[1, 255, 0, 4], [0], [63, 224, 0, 7]⟩ := by
  have hcompile : Song.compile loneTrackText =
      .ok ⟨none, #v[1, 255, 0, 4], [0], [63, 224, 0, 7]⟩ := by decide +kernel
  have huntitled : ∀ word, (splitWords loneTrackText)[1]? = some word →
      Directive.title.isSpelledBy word = false := by
    intro word hword
    have hsecond : "Entry".toList = word := Option.some.inj hword
    subst hsecond
    decide
  obtain ⟨mark, sheet, hmark, hwords, hsong⟩ :=
    ((Song.compile_untitled_iff _ huntitled).1 _).1 hcompile
  exact ⟨hcompile, mark, sheet, hmark, hwords, hsong.symm⟩

end Chiptune
