import Chiptune.Directive
import Chiptune.Literal
import Chiptune.Mnemonic
import Mathlib.Tactic.ByContra

/-!
# Keywords

Directives and mnemonics are words of fixed letters in any case. Three facts let the readers tell
them apart from each other and from numbers.

A reader keeps only the front of a word. That turns no other word into a keyword, because every
keyword is shorter than what is kept: `isSpelledBy_take` and `ofWord?_take`. A word spells at most
one keyword: `sameLetters_unique`. And no keyword is a literal, because a literal starts with a sign
or a digit and a keyword with a letter: `parse_eq_none_of_isSpelledBy`.
-/

namespace Chiptune.Text

theorem sameLetters_iff {left right : List Char} :
    sameLetters left right = true ↔ left.map Char.toLower = right.map Char.toLower := by
  simp [sameLetters]

theorem length_eq_of_sameLetters {left right : List Char} (hsame : sameLetters left right = true) :
    left.length = right.length := by
  simpa using congrArg List.length (sameLetters_iff.1 hsame)

/-- A word has the letters of one keyword only. -/
theorem sameLetters_unique {word left right : List Char} (hleft : sameLetters word left = true)
    (hright : sameLetters word right = true) : sameLetters left right = true :=
  sameLetters_iff.2 ((sameLetters_iff.1 hleft).symm.trans (sameLetters_iff.1 hright))

/-- Keeping the front of a word does not make it a keyword that is shorter than what is kept. -/
theorem sameLetters_take {keyword : List Char} {limit : Nat} (hkeyword : keyword.length < limit)
    (word : Word) : sameLetters (word.take limit) keyword = sameLetters word keyword := by
  by_cases hshort : word.length ≤ limit
  · rw [List.take_of_length_le hshort]
  · have hleft : sameLetters (word.take limit) keyword = false := by
      rw [Bool.eq_false_iff]
      intro hsame
      have hlength := length_eq_of_sameLetters hsame
      rw [List.length_take] at hlength
      omega
    have hright : sameLetters word keyword = false := by
      rw [Bool.eq_false_iff]
      intro hsame
      have hlength := length_eq_of_sameLetters hsame
      omega
    rw [hleft, hright]

/-- Changing the case keeps a character at or above the capital letters there. -/
theorem le_toNat_toLower {c : Char} (hletter : 65 ≤ c.toNat) : 65 ≤ c.toLower.toNat := by
  unfold Char.toLower
  split
  · next hcapital =>
    have hle : c.val.toNat ≤ 90 := hcapital.2
    have hge : 65 ≤ c.val.toNat := hletter
    change 65 ≤ (c.val.toNat + 32) % 4294967296
    omega
  · exact hletter

theorem toLower_eq_self {c : Char} (hsmall : c.toNat < 65) : c.toLower = c := by
  unfold Char.toLower
  rw [dif_neg]
  intro hcapital
  have hle : 65 ≤ c.val.toNat := hcapital.1
  simp only [Char.toNat] at hsmall
  omega

end Chiptune.Text

namespace Chiptune.Literal

theorem toNat_lt_of_digit? {c : Char} {value : Nat} (hdigit : digit? 10 c = some value) :
    c.toNat < 65 := by
  obtain ⟨hvalue, hlt⟩ := Option.filter_eq_some_iff.1 hdigit
  have hlt : value < 10 := by simpa using hlt
  unfold hexDigit? at hvalue
  split at hvalue
  · next hrange =>
    have hle : c.toNat ≤ 57 := hrange.2
    omega
  · split at hvalue
    · cases hvalue
      omega
    · split at hvalue
      · cases hvalue
        omega
      · cases hvalue

/-- A literal starts with a sign or a digit. -/
theorem toNat_lt_of_parse {c : Char} {rest : List Char} {value : Int}
    (hparse : parse (c :: rest) = some value) : c.toNat < 65 := by
  by_contra hletter
  have hminus : c ≠ '-' := by
    rintro rfl
    exact hletter (by decide)
  have hplus : c ≠ '+' := by
    rintro rfl
    exact hletter (by decide)
  have hzero : c ≠ '0' := by
    rintro rfl
    exact hletter (by decide)
  have hsign := splitSign_of_unsigned hminus hplus rest
  have hradix := splitRadix_of_ne_zero hzero rest
  have hdigit : digit? 10 c = none := by
    cases hdigit : digit? 10 c with
    | none => rfl
    | some digit => exact absurd (toNat_lt_of_digit? hdigit) hletter
  simp [parse, hsign, hradix, accumulate?, accumulateFrom, hdigit] at hparse

/-- A word with the letters of a keyword is no literal. -/
theorem parse_eq_none_of_sameLetters {word keyword : List Char}
    (hkeyword : ∀ c, keyword.head? = some c → 65 ≤ c.toNat)
    (hsame : Text.sameLetters word keyword = true) : parse word = none := by
  cases hparse : parse word with
  | none => rfl
  | some value =>
    have hmap := Text.sameLetters_iff.1 hsame
    cases word with
    | nil => cases hparse
    | cons c rest =>
      cases keyword with
      | nil => cases hmap
      | cons k tail =>
        simp only [List.map_cons, List.cons.injEq] at hmap
        have hsmall := toNat_lt_of_parse hparse
        have hlarge := Text.le_toNat_toLower (hkeyword k rfl)
        rw [← hmap.1, Text.toLower_eq_self hsmall] at hlarge
        omega

end Chiptune.Literal

namespace Chiptune

open Text

theorem Directive.isSpelledBy_take (directive : Directive) (word : Word) :
    directive.isSpelledBy (word.take directiveLimit) = directive.isSpelledBy word :=
  sameLetters_take (by cases directive <;> decide) word

theorem Directive.eq_of_isSpelledBy {left right : Directive} {word : Word}
    (hleft : left.isSpelledBy word = true) (hright : right.isSpelledBy word = true) :
    left = right := by
  have hsame := sameLetters_unique hleft hright
  revert hsame
  cases left <;> cases right <;> decide

theorem Directive.parse_eq_none_of_isSpelledBy {directive : Directive} {word : Word}
    (hspelled : directive.isSpelledBy word = true) : Literal.parse word = none := by
  refine Literal.parse_eq_none_of_sameLetters ?_ hspelled
  intro c hhead
  cases directive <;> cases hhead <;> decide

theorem Mnemonic.length_keyword_lt (mnemonic : Mnemonic) :
    mnemonic.keyword.toList.length < directiveLimit := by
  cases mnemonic with
  | control op => cases op <;> decide
  | rawByte | note | delay => decide

theorem Mnemonic.ofWord?_take (word : Word) : ofWord? (word.take directiveLimit) = ofWord? word := by
  unfold ofWord?
  congr 1
  funext mnemonic
  exact sameLetters_take mnemonic.length_keyword_lt word

theorem Mnemonic.sameLetters_of_ofWord? {word : Word} {mnemonic : Mnemonic}
    (hword : ofWord? word = some mnemonic) :
    sameLetters word mnemonic.keyword.toList = true :=
  List.find?_some (p := fun mnemonic : Mnemonic => sameLetters word mnemonic.keyword.toList) hword

theorem Mnemonic.isSpelledBy_eq_false_of_ofWord? {word : Word} {mnemonic : Mnemonic}
    (hword : ofWord? word = some mnemonic) (directive : Directive) :
    directive.isSpelledBy word = false := by
  rw [Bool.eq_false_iff]
  intro hspelled
  have hsame := sameLetters_unique hspelled (sameLetters_of_ofWord? hword)
  revert hsame
  cases directive <;> cases mnemonic with
    | control op => cases op <;> decide
    | rawByte | note | delay => decide

end Chiptune
