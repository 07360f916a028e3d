import Chiptune.Proofs.Text.Splitting
import Chiptune.Text.Utf8

/-!
# Tokens read one after the other

A cursor is read with a limit of its own each time, a large one where a directive is expected and a
small one where a number is. `readings_eq_words` says that the limits never get in each other's way:
whatever they are, the readings are the words of the text by `splitWords`, each cut to its own limit,
and nothing from the end of the text on.

The readers keep the unread text as their cursor. Where that stands in the bytes of the text is its
`bytePosition`, which lies between two characters and grows with every token.
-/

namespace Chiptune.Text

/-- What a cursor gives when it is read with one limit after the other. -/
def readings : (text : List Char) → (limits : List Nat) → List (Option Word)
  | _, [] => []
  | text, limit :: limits => (readToken limit text).1 :: readings (readToken limit text).2 limits

/-- The cursor after these readings. -/
def cursorAfter (text : List Char) (limits : List Nat) : List Char :=
  limits.foldl (fun rest limit => (readToken limit rest).2) text

/-- Where a cursor stands in a text, in bytes from its start. -/
def bytePosition (text rest : List Char) : Nat :=
  (Utf8.encode text).length - (Utf8.encode rest).length

/-! ### One reading -/

theorem skipBlanks_suffix (inComment : Bool) (text : List Char) :
    skipBlanks inComment text <:+ text := by
  induction text generalizing inComment with
  | nil => cases inComment <;> exact List.suffix_refl _
  | cons c rest ih =>
    have hrest : ∀ inComment, skipBlanks inComment rest <:+ c :: rest := fun inComment =>
      (ih inComment).trans (List.suffix_cons c rest)
    cases inComment with
    | true => exact hrest _
    | false =>
      rw [skipBlanks]
      split
      · exact hrest _
      · split
        · exact hrest _
        · exact List.suffix_refl _

theorem suffix_of_nextWord {text rest : List Char} {word : Word}
    (hnext : nextWord text = some (word, rest)) : rest <:+ text := by
  unfold nextWord at hnext
  split at hnext
  · cases hnext
  · next first tail hskip =>
    cases hnext
    have htail : tail <:+ text := by
      apply (List.suffix_cons first tail).trans
      rw [← hskip]
      exact skipBlanks_suffix false text
    exact (List.dropWhile_suffix _).trans htail

theorem readToken_suffix (limit : Nat) (text : List Char) : (readToken limit text).2 <:+ text := by
  unfold readToken
  split
  · exact List.nil_suffix
  · next hnext => exact suffix_of_nextWord hnext

/-- The limit decides what is kept of a word, not where the cursor goes. -/
theorem readToken_rest_eq (limit limit' : Nat) (text : List Char) :
    (readToken limit text).2 = (readToken limit' text).2 := by
  unfold readToken
  split <;> rfl

theorem splitWords_readToken (limit : Nat) (text : List Char) :
    splitWords (readToken limit text).2 = (splitWords text).tail := by
  unfold readToken
  split
  · next hnext => rw [splitWords_of_none hnext]; rfl
  · next hnext => rw [splitWords_of_some hnext]; rfl

theorem readToken_token_eq {limit : Nat} (hlimit : 1 ≤ limit) (text : List Char) :
    (readToken limit text).1 = (splitWords text).head?.map (·.take limit) := by
  unfold readToken
  split
  · next hnext => rw [splitWords_of_none hnext]; rfl
  · next hnext =>
    rw [splitWords_of_some hnext, if_neg (Nat.one_le_iff_ne_zero.1 hlimit)]
    rfl

theorem length_lt_of_readToken {limit : Nat} {text : List Char} {token : Word}
    (htoken : (readToken limit text).1 = some token) :
    (readToken limit text).2.length < text.length := by
  unfold readToken at htoken ⊢
  split
  · next hnext => simp only [hnext] at htoken; cases htoken
  · next hnext => exact length_lt_of_nextWord hnext

/-! ### Many readings -/

theorem readings_eq_mapIdx (text : List Char) {limits : List Nat}
    (hlimits : ∀ limit ∈ limits, 1 ≤ limit) :
    readings text limits =
      limits.mapIdx fun index limit => (splitWords text)[index]?.map (·.take limit) := by
  induction limits generalizing text with
  | nil => rfl
  | cons limit limits ih =>
    have hrest := ih (readToken limit text).2 fun other hother =>
      hlimits other (List.mem_cons_of_mem _ hother)
    have hfirst := readToken_token_eq (hlimits limit List.mem_cons_self) text
    -- The first reading takes one word away, so the others are those of the words behind it.
    rw [readings, hrest, hfirst, List.mapIdx_cons, splitWords_readToken, List.head?_eq_getElem?]
    simp only [List.getElem?_tail]

theorem cursorAfter_suffix (text : List Char) (limits : List Nat) :
    cursorAfter text limits <:+ text := by
  induction limits generalizing text with
  | nil => exact List.suffix_refl _
  | cons limit limits ih => exact (ih _).trans (readToken_suffix limit text)

theorem cursorAfter_eq_of_length {limits limits' : List Nat} (text : List Char)
    (hlength : limits'.length = limits.length) :
    cursorAfter text limits' = cursorAfter text limits := by
  induction limits generalizing text limits' with
  | nil => rw [List.eq_nil_of_length_eq_zero hlength]
  | cons limit limits ih =>
    obtain ⟨limit', limits', rfl⟩ := List.exists_cons_of_length_eq_add_one hlength
    have hfirst := readToken_rest_eq limit' limit text
    simp only [cursorAfter, List.foldl_cons, hfirst]
    exact ih _ (Nat.succ.inj hlength)

/-- Every reading takes one word away, whatever is kept of it. -/
theorem words_cursorAfter (text : List Char) (limits : List Nat) :
    words (cursorAfter text limits) = (words text).drop limits.length := by
  induction limits generalizing text with
  | nil => rfl
  | cons limit limits ih =>
    have hfirst := splitWords_readToken limit text
    rw [← words_eq_splitWords, ← words_eq_splitWords] at hfirst
    have hrest := ih (readToken limit text).2
    rw [hfirst, List.drop_tail] at hrest
    exact hrest

/-- Each reading is that of the cursor which the readings before it left. -/
theorem getElem?_readings (text : List Char) (limits : List Nat) (index : Nat) :
    (readings text limits)[index]? = limits[index]?.map fun limit =>
      (readToken limit (cursorAfter text (limits.take index))).1 := by
  induction limits generalizing text index with
  | nil => simp [readings]
  | cons limit limits ih =>
    cases index with
    | zero => rfl
    | succ index => exact ih _ index

theorem cursorAfter_take_succ {text : List Char} {limits : List Nat} {index limit : Nat}
    (hlimit : limits[index]? = some limit) :
    cursorAfter text (limits.take (index + 1)) =
      (readToken limit (cursorAfter text (limits.take index))).2 := by
  rw [List.take_add_one, hlimit, cursorAfter, List.foldl_append]
  rfl

/-- Reading directives to the end of a text gives its tokens, and then nothing any more. -/
theorem readings_replicate (text : List Char) {count : Nat}
    (hcount : (tokens text).length ≤ count) :
    readings text (List.replicate count directiveLimit) =
      (tokens text).map some ++ List.replicate (count - (tokens text).length) none := by
  have hlimits : ∀ limit ∈ List.replicate count directiveLimit, 1 ≤ limit := by
    intro limit hlimit
    rw [List.eq_of_mem_replicate hlimit]
    decide
  have htokens : tokens text = (splitWords text).map (·.take directiveLimit) := by
    rw [tokens, words_eq_splitWords]
  rw [readings_eq_mapIdx text hlimits]
  apply List.ext_getElem?
  intro index
  rw [List.getElem?_mapIdx, List.getElem?_replicate]
  rw [htokens, List.length_map] at hcount ⊢
  -- Up to the last word a reading is a token, and past it there are as many readings as are left.
  by_cases hword : index < (splitWords text).length
  · rw [if_pos (by omega), List.getElem?_append_left (by simpa using hword)]
    simp [hword]
  · rw [List.getElem?_append_right (by simpa using hword), List.getElem?_replicate]
    simp only [List.length_map, List.getElem?_eq_none (Nat.not_lt.1 hword), Option.map_none]
    by_cases hcall : index < count
    · rw [if_pos hcall, if_pos (by omega)]
      rfl
    · rw [if_neg hcall, if_neg (by omega)]
      rfl

/-! ### Cursors in bytes -/

theorem bytePosition_eq {text front rest : List Char} (htext : text = front ++ rest) :
    bytePosition text rest = (Utf8.encode front).length := by
  rw [bytePosition, htext, Utf8.length_encode_append]
  exact Nat.add_sub_cancel _ _

theorem length_encode_pos {text : List Char} (hne : text ≠ []) : 0 < (Utf8.encode text).length := by
  obtain ⟨c, rest, rfl⟩ := List.exists_cons_of_ne_nil hne
  rw [Utf8.length_encode_cons]
  have hsize := c.utf8Size_pos
  omega

theorem bytePosition_lt {text rest rest' : List Char} (hrest : rest <:+ text)
    (hrest' : rest' <:+ rest) (hlt : rest'.length < rest.length) :
    bytePosition text rest < bytePosition text rest' := by
  obtain ⟨front, rfl⟩ := hrest
  obtain ⟨between, rfl⟩ := hrest'
  have hne : between ≠ [] := by
    intro hnil
    rw [hnil, List.nil_append] at hlt
    exact Nat.lt_irrefl _ hlt
  have hpos := length_encode_pos hne
  rw [bytePosition_eq rfl, bytePosition_eq (List.append_assoc front between rest').symm,
    Utf8.length_encode_append]
  exact Nat.lt_add_of_pos_right hpos

/-- Whatever limits a text is read with, the readings are its words, each cut to the limit of its own
reading, and nothing behind the last word. Each token moves the cursor on, in whole characters; which
limits came before it does not matter to a reading; and reading on and on comes to an end. -/
theorem readings_eq_words (text : List Char) {limits : List Nat}
    (hlimits : ∀ limit ∈ limits, 1 ≤ limit) :
    readings text limits =
      limits.mapIdx (fun index limit => (splitWords text)[index]?.map (·.take limit)) ∧
    (∀ index < limits.length, (splitWords text).length ≤ index →
      (readings text limits)[index]? = some none) ∧
    (∀ (index : Nat) (token : Word), (readings text limits)[index]? = some (some token) →
      bytePosition text (cursorAfter text (limits.take index)) <
        bytePosition text (cursorAfter text (limits.take (index + 1)))) ∧
    (∀ index, ∃ front, text = front ++ cursorAfter text (limits.take index) ∧
      bytePosition text (cursorAfter text (limits.take index)) = (Utf8.encode front).length) ∧
    (∀ limits', limits'.length = limits.length →
      cursorAfter text limits' = cursorAfter text limits ∧
      ∀ index : Nat, limits'[index]? = limits[index]? →
        (readings text limits')[index]? = (readings text limits)[index]?) ∧
    ∀ count, (tokens text).length ≤ count →
      readings text (List.replicate count directiveLimit) =
        (tokens text).map some ++ List.replicate (count - (tokens text).length) none := by
  have hread := readings_eq_mapIdx text hlimits
  refine ⟨hread, ?_, ?_, ?_, ?_, fun count => readings_replicate text⟩
  · intro index hindex hend
    rw [hread, List.getElem?_mapIdx, List.getElem?_eq_getElem hindex, List.getElem?_eq_none hend]
    rfl
  · intro index token htoken
    rw [getElem?_readings] at htoken
    obtain ⟨limit, hlimit, htoken⟩ := Option.map_eq_some_iff.1 htoken
    rw [cursorAfter_take_succ hlimit]
    exact bytePosition_lt (cursorAfter_suffix text _) (readToken_suffix limit _)
      (length_lt_of_readToken htoken)
  · intro index
    obtain ⟨front, hfront⟩ := cursorAfter_suffix text (limits.take index)
    exact ⟨front, hfront.symm, bytePosition_eq hfront.symm⟩
  · intro limits' hlength
    refine ⟨cursorAfter_eq_of_length text hlength, ?_⟩
    intro index hlimit
    have hcursor : cursorAfter text (limits'.take index) = cursorAfter text (limits.take index) := by
      apply cursorAfter_eq_of_length
      rw [List.length_take, List.length_take, hlength]
    rw [getElem?_readings, getElem?_readings, hlimit, hcursor]

/-- Comments that are glued to words and hold a hash sign or a carriage return, and a letter of two
bytes. -/
def gluedText : List Char := "Übung#a#b\r c\n,,0x1F,STOP# end".toList

/-- Read with short and long limits in turn, and once more than it has words. -/
theorem readings_gluedText : readings gluedText [2, 31, 3, 63] =
    [some "Üb".toList, some "0x1F".toList, some "STO".toList, none] := by
  have hwords : splitWords gluedText = ["Übung".toList, "0x1F".toList, "STOP".toList] := by
    decide +kernel
  have hlimits : ∀ limit ∈ [2, 31, 3, 63], 1 ≤ limit := by decide
  obtain ⟨hread, -⟩ := readings_eq_words gluedText hlimits
  rw [hread, hwords]
  rfl

end Chiptune.Text
