import Chiptune.Proofs.Text.Keyword

/-!
# Letter case

Lowering the letters of a word changes nothing that a reader asks of it: not which directive or
mnemonic it spells, and not which number it is, although a number may hold letters as digits and as
the mark of its base.
-/

namespace Chiptune.Text

/-- The word in small letters. -/
def lower (word : Word) : Word := word.map Char.toLower

theorem lower_take (limit : Nat) (word : Word) :
    lower (word.take limit) = (lower word).take limit :=
  List.map_take

theorem sameLetters_iff_lower {left right : Word} :
    sameLetters left right = true ↔ lower left = lower right :=
  sameLetters_iff

/-- What holds of the capital letters and of every character that has no other case holds of every
character. -/
theorem toLower_induction {P : Char → Prop} (hcapital : ∀ index < 26, P (Char.ofNat (65 + index)))
    (hsame : ∀ c : Char, c.toLower = c → P c) (c : Char) : P c := by
  by_cases hletter : 65 ≤ c.toNat ∧ c.toNat ≤ 90
  · have hindex := hcapital (c.toNat - 65) (by omega)
    rwa [Nat.add_sub_cancel' hletter.1, Char.ofNat_toNat] at hindex
  · apply hsame
    unfold Char.toLower
    rw [dif_neg]
    rintro ⟨hlow, hhigh⟩
    exact hletter ⟨hlow, hhigh⟩

theorem toLower_toLower (c : Char) : c.toLower.toLower = c.toLower := by
  apply toLower_induction (P := fun c => c.toLower.toLower = c.toLower)
  · decide
  · intro c hsame
    rw [hsame, hsame]

/-- Only a character itself is lowered to one that stands in front of the letters. -/
theorem toLower_eq_iff {c d : Char} (hd : d.toNat < 65) : c.toLower = d ↔ c = d := by
  constructor
  · intro hlower
    have hc : c.toNat < 65 := by
      by_contra hletter
      have hle := le_toNat_toLower (Nat.le_of_not_lt hletter)
      rw [hlower] at hle
      omega
    rwa [toLower_eq_self hc] at hlower
  · rintro rfl
    exact toLower_eq_self hd

theorem sameLetters_lower (word keyword : List Char) :
    sameLetters (lower word) keyword = sameLetters word keyword := by
  simp only [sameLetters, lower, List.map_map, Function.comp_def, toLower_toLower]

end Chiptune.Text

namespace Chiptune.Literal

open Text

theorem hexDigit?_toLower (c : Char) : hexDigit? c.toLower = hexDigit? c := by
  apply toLower_induction (P := fun c => hexDigit? c.toLower = hexDigit? c)
  · decide
  · intro c hsame
    rw [hsame]

theorem accumulateFrom_lower (radix : Nat) (total : Int64) (digits : List Char) :
    accumulateFrom radix total (lower digits) = accumulateFrom radix total digits := by
  induction digits generalizing total with
  | nil => rfl
  | cons c rest ih =>
    simp only [lower, List.map_cons, accumulateFrom, digit?, hexDigit?_toLower]
    split
    · rfl
    · exact ih _

theorem splitSign_lower (token : List Char) :
    splitSign (lower token) = ((splitSign token).1, lower (splitSign token).2) := by
  cases token with
  | nil => rfl
  | cons c rest =>
    by_cases hminus : c = '-'
    · subst hminus
      rfl
    · by_cases hplus : c = '+'
      · subst hplus
        rfl
      · have hminus' : c.toLower ≠ '-' := mt (toLower_eq_iff (by decide)).1 hminus
        have hplus' : c.toLower ≠ '+' := mt (toLower_eq_iff (by decide)).1 hplus
        rw [splitSign_of_unsigned hminus hplus]
        exact splitSign_of_unsigned hminus' hplus' _

theorem isMark_toLower (c : Char) :
    (c.toLower == 'x' || c.toLower == 'X') = (c == 'x' || c == 'X') := by
  apply toLower_induction (P := fun c =>
    (c.toLower == 'x' || c.toLower == 'X') = (c == 'x' || c == 'X'))
  · decide
  · intro c hsame
    rw [hsame]

theorem head?_any_lower (rest : List Char) :
    ((lower rest).head?.any fun c => (hexDigit? c).isSome) =
      rest.head?.any fun c => (hexDigit? c).isSome := by
  cases rest with
  | nil => rfl
  | cons c rest => simp [lower, hexDigit?_toLower]

theorem splitRadix_lower (body : List Char) :
    splitRadix (lower body) = ((splitRadix body).1, lower (splitRadix body).2) := by
  rcases body with _ | ⟨c, _ | ⟨mark, rest⟩⟩
  · rfl
  · by_cases hzero : c = '0'
    · subst hzero
      rfl
    · rw [splitRadix_of_ne_zero hzero]
      exact splitRadix_of_ne_zero (mt (toLower_eq_iff (by decide)).1 hzero) _
  · by_cases hzero : c = '0'
    · subst hzero
      change splitRadix ('0' :: mark.toLower :: lower rest) = _
      simp only [splitRadix, isMark_toLower, head?_any_lower]
      split <;> rfl
    · rw [splitRadix_of_ne_zero hzero]
      exact splitRadix_of_ne_zero (mt (toLower_eq_iff (by decide)).1 hzero) _

/-- The value of a literal does not depend on the case of its letters. -/
theorem parse_lower (token : List Char) : parse (lower token) = parse token := by
  have hempty : ∀ digits : List Char, (lower digits).isEmpty = digits.isEmpty := by
    intro digits
    cases digits <;> rfl
  simp only [parse, splitSign_lower, splitRadix_lower, hempty, accumulate?, accumulateFrom_lower]

end Chiptune.Literal

namespace Chiptune

open Text

theorem Directive.isSpelledBy_lower (directive : Directive) (word : Word) :
    directive.isSpelledBy (lower word) = directive.isSpelledBy word :=
  sameLetters_lower word _

theorem Mnemonic.ofWord?_lower (word : Word) : ofWord? (lower word) = ofWord? word := by
  simp only [ofWord?, sameLetters_lower]

end Chiptune
