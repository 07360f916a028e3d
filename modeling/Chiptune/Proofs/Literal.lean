import Chiptune.Proofs.Text.Keyword
import Mathlib.Data.List.Basic
import Mathlib.Data.Nat.Digits.Defs

/-!
# What literals denote

The grammar of literals, and the number that a literal denotes, without a word of how either is
found. `parse_reads_literals` says that the reader accepts exactly the literals, at any length, and
gives the number held within 32 bits.

The reader adds digits up in 64 bits. That loses nothing: the sum follows the number up to the
greatest word and stays there (`exists_accumulate?`), and every number beyond that word is beyond
the 32 bits of the result as well.
-/

namespace Chiptune.Literal

/-- The digits in the order of their values. A base has the first of them. -/
def digitLetters : List Char := "0123456789abcdef".toList

/-- Whether a character is a digit of the base, in letters of any case. -/
def IsDigit (radix : Nat) (c : Char) : Prop := c.toLower ∈ digitLetters.take radix

instance (radix : Nat) (c : Char) : Decidable (IsDigit radix c) :=
  inferInstanceAs (Decidable (c.toLower ∈ digitLetters.take radix))

def digitValue (c : Char) : Nat := digitLetters.idxOf c.toLower

/-- The number that digits stand for, the most significant one first. -/
def number (radix : Nat) (digits : List Char) : Nat :=
  Nat.ofDigits radix (digits.reverse.map digitValue)

/-- The ways to write a number without a sign, each with its base and the digits that count. -/
inductive Unsigned : (body : List Char) → (radix : Nat) → (digits : List Char) → Prop
  | hexadecimal {mark : Char} {digits : List Char} (hmark : mark = 'x' ∨ mark = 'X')
      (hne : digits ≠ []) (hdigits : ∀ c ∈ digits, IsDigit 16 c) :
      Unsigned ('0' :: mark :: digits) 16 digits
  | octal {digits : List Char} (hne : digits ≠ []) (hdigits : ∀ c ∈ digits, IsDigit 8 c) :
      Unsigned ('0' :: digits) 8 digits
  | zero : Unsigned ['0'] 10 ['0']
  | decimal {first : Char} {rest : List Char} (hfirst : first ≠ '0')
      (hdigits : ∀ c ∈ first :: rest, IsDigit 10 c) : Unsigned (first :: rest) 10 (first :: rest)

/-- Whether a token is a literal for the number. -/
inductive Denotes : (token : List Char) → (value : Int) → Prop
  | bare {body digits : List Char} {radix : Nat} (hbody : Unsigned body radix digits) :
      Denotes body (number radix digits)
  | plus {body digits : List Char} {radix : Nat} (hbody : Unsigned body radix digits) :
      Denotes ('+' :: body) (number radix digits)
  | minus {body digits : List Char} {radix : Nat} (hbody : Unsigned body radix digits) :
      Denotes ('-' :: body) (-(number radix digits : Int))

/-! ### Digits -/

theorem toNat_lt_of_hexDigit? {c : Char} {value : Nat} (hdigit : hexDigit? c = some value) :
    c.toNat < 128 := by
  unfold hexDigit? at hdigit
  split at hdigit
  · next hrange =>
    have hle : c.toNat ≤ 57 := hrange.2
    omega
  · split at hdigit
    · next hrange =>
      have hle : c.toNat ≤ 102 := hrange.2
      omega
    · split at hdigit
      · next hrange =>
        have hle : c.toNat ≤ 70 := hrange.2
        omega
      · cases hdigit

theorem hexDigit?_eq_idxOf? (c : Char) : hexDigit? c = digitLetters.idxOf? c.toLower := by
  by_cases hascii : c.toNat < 128
  · have hall : ∀ code < 128,
        hexDigit? (Char.ofNat code) = digitLetters.idxOf? (Char.ofNat code).toLower := by
      decide +kernel
    have hc := hall c.toNat hascii
    rwa [Char.ofNat_toNat] at hc
  · have hlower : c.toLower = c := by
      unfold Char.toLower
      rw [dif_neg]
      rintro ⟨-, hhigh⟩
      have hle : c.toNat ≤ 90 := hhigh
      omega
    have hmem : c ∉ digitLetters := by
      intro hmem
      have hall : digitLetters.all (·.toNat < 128) = true := by decide +kernel
      exact hascii (by simpa using List.all_eq_true.1 hall c hmem)
    rw [hlower, List.idxOf?_eq_none_iff.2 hmem, Option.eq_none_iff_forall_ne_some]
    intro value hdigit
    exact hascii (toNat_lt_of_hexDigit? hdigit)

theorem digit?_eq_some_iff {radix : Nat} {c : Char} {value : Nat} :
    digit? radix c = some value ↔ IsDigit radix c ∧ value = digitValue c := by
  rw [digit?, hexDigit?_eq_idxOf?, Option.filter_eq_some_iff, decide_eq_true_eq]
  constructor
  · rintro ⟨hindex, hlt⟩
    have hmem : c.toLower ∈ digitLetters := by
      rw [← List.isSome_idxOf?, hindex]
      rfl
    have hvalue : digitValue c = value := by
      rw [digitValue, List.idxOf_eq_getD_idxOf?, hindex]
      rfl
    rw [← hvalue] at hlt
    exact ⟨(List.mem_take_iff_idxOf_lt hmem).2 hlt, hvalue.symm⟩
  · rintro ⟨hdigit, rfl⟩
    have hmem : c.toLower ∈ digitLetters := List.mem_of_mem_take hdigit
    obtain ⟨index, hindex⟩ := Option.isSome_iff_exists.1 (List.isSome_idxOf?.2 hmem)
    have hvalue : digitValue c = index := by
      rw [digitValue, List.idxOf_eq_getD_idxOf?, hindex]
      rfl
    exact ⟨hvalue ▸ hindex, (List.mem_take_iff_idxOf_lt hmem).1 hdigit⟩

theorem digit?_of_isDigit {radix : Nat} {c : Char} (hdigit : IsDigit radix c) :
    digit? radix c = some (digitValue c) :=
  digit?_eq_some_iff.2 ⟨hdigit, rfl⟩

theorem number_cons (radix : Nat) (c : Char) (rest : List Char) :
    number radix (c :: rest) = radix ^ rest.length * digitValue c + number radix rest := by
  simp only [number, List.reverse_cons, List.map_append, List.map_cons, List.map_nil,
    Nat.ofDigits_append, Nat.ofDigits_singleton, List.length_map, List.length_reverse]
  omega

/-! ### Adding digits up -/

theorem toInt_ofIntClamp_of_nonneg {value : Int} (hnonneg : 0 ≤ value) :
    (Int64.ofIntClamp value).toInt = min Int64.maxValue.toInt value := by
  have hmin : Int64.minValue.toInt ≤ value := by
    rw [Int64.toInt_minValue]
    omega
  by_cases hle : value ≤ Int64.maxValue.toInt
  · rw [Int64.toInt_ofIntClamp hmin hle]
    omega
  · rw [Int64.ofIntClamp, dif_pos hmin, dif_neg hle]
    omega

/-- One step of the sum follows the number up to the greatest word. -/
theorem toInt_accumulate_step {radix total : Nat} {word : Int64} (hradix : 1 ≤ radix)
    (hword : word.toInt = min Int64.maxValue.toInt total) (value : Nat) :
    (Int64.ofIntClamp ((Int64.ofIntClamp (word.toInt * radix)).toInt + value)).toInt =
      min Int64.maxValue.toInt ((radix * total + value : Nat) : Int) := by
  have hmax : Int64.maxValue.toInt = 9223372036854775807 := rfl
  have hone : (1 : Int) ≤ radix := by omega
  have hproduct : 0 ≤ word.toInt * (radix : Int) := Int.mul_nonneg (by omega) (by omega)
  rw [toInt_ofIntClamp_of_nonneg hproduct, toInt_ofIntClamp_of_nonneg (by omega), Nat.cast_add,
    Nat.cast_mul]
  by_cases hle : (total : Int) ≤ Int64.maxValue.toInt
  · have htotal : word.toInt * radix = radix * total := by
      rw [hword, min_eq_right hle, Int.mul_comm]
    omega
  · -- The word is full already. It stays so, as the number only grows.
    have hfull : word.toInt * 1 ≤ word.toInt * radix := Int.mul_le_mul_of_nonneg_left hone (by omega)
    have hgrown : 1 * (total : Int) ≤ radix * total :=
      Int.mul_le_mul_of_nonneg_right hone (by omega)
    omega

theorem exists_accumulateFrom {radix total : Nat} {word : Int64} (hradix : 1 ≤ radix)
    (hword : word.toInt = min Int64.maxValue.toInt total) {digits : List Char}
    (hdigits : ∀ c ∈ digits, IsDigit radix c) :
    ∃ sum, accumulateFrom radix word digits = some sum ∧
      sum.toInt = min Int64.maxValue.toInt
        ((radix ^ digits.length * total + number radix digits : Nat) : Int) := by
  induction digits generalizing word total with
  | nil => exact ⟨word, rfl, by simpa [number] using hword⟩
  | cons c rest ih =>
    have hdigit := digit?_of_isDigit (hdigits c List.mem_cons_self)
    have hstep := toInt_accumulate_step hradix hword (digitValue c)
    obtain ⟨sum, hsum, hvalue⟩ := ih hstep fun d hd => hdigits d (List.mem_cons_of_mem _ hd)
    have hnumber : radix ^ rest.length * (radix * total + digitValue c) + number radix rest =
        radix ^ (c :: rest).length * total + number radix (c :: rest) := by
      rw [number_cons, List.length_cons, Nat.pow_succ, Nat.mul_add, Nat.mul_assoc, Nat.add_assoc]
    refine ⟨sum, ?_, by rw [hvalue, hnumber]⟩
    simp only [accumulateFrom, hdigit, hsum]

/-- Digits of any length are added up to the number that they stand for, or to the greatest word if
that is less. -/
theorem exists_accumulate? {radix : Nat} (hradix : 1 ≤ radix) {digits : List Char}
    (hdigits : ∀ c ∈ digits, IsDigit radix c) :
    ∃ sum, accumulate? radix digits = some sum ∧
      sum.toInt = min Int64.maxValue.toInt (number radix digits) := by
  have hzero : (0 : Int64).toInt = min Int64.maxValue.toInt ((0 : Nat) : Int) := rfl
  obtain ⟨sum, hsum, hvalue⟩ := exists_accumulateFrom hradix hzero hdigits
  rw [Nat.mul_zero, Nat.zero_add] at hvalue
  exact ⟨sum, hsum, hvalue⟩

theorem isDigit_of_accumulateFrom {radix : Nat} {word sum : Int64} {digits : List Char}
    (hsum : accumulateFrom radix word digits = some sum) : ∀ c ∈ digits, IsDigit radix c := by
  induction digits generalizing word with
  | nil => nofun
  | cons c rest ih =>
    rw [accumulateFrom] at hsum
    split at hsum
    · cases hsum
    · next hdigit => exact List.forall_mem_cons.2 ⟨(digit?_eq_some_iff.1 hdigit).1, ih hsum⟩

/-- Holding a number within 64 bits first changes nothing about holding it within 32 bits, whatever
its sign. -/
theorem clamp_toInt {word : Int64} {magnitude : Nat}
    (hword : word.toInt = min Int64.maxValue.toInt magnitude) :
    (-word).toInt = -word.toInt ∧ clamp word.toInt = clamp magnitude ∧
      clamp (-word).toInt = clamp (-(magnitude : Int)) := by
  have hmax : Int64.maxValue.toInt = 9223372036854775807 := rfl
  have hneg : (-word).toInt = -word.toInt := by
    rw [Int64.toInt_neg]
    apply Int.bmod_eq_of_le
    · omega
    · omega
  rw [hneg, hword]
  simp only [clamp, least, greatest, true_and]
  omega

/-! ### Signs and bases -/

theorem isSome_hexDigit?_iff {c : Char} : (hexDigit? c).isSome = true ↔ IsDigit 16 c := by
  rw [hexDigit?_eq_idxOf?, List.isSome_idxOf?]
  rfl

/-- The base of a body and its digits are found as the grammar has them. -/
theorem unsigned_iff {body digits : List Char} {radix : Nat} :
    Unsigned body radix digits ↔ splitRadix body = (radix, digits) ∧ digits ≠ [] ∧
      ∀ c ∈ digits, IsDigit radix c := by
  constructor
  · intro hbody
    cases hbody with
    | hexadecimal hmark hne hdigits =>
      obtain ⟨first, rest, rfl⟩ := List.exists_cons_of_ne_nil hne
      have hfirst := isSome_hexDigit?_iff.2 (hdigits first List.mem_cons_self)
      refine ⟨?_, hne, hdigits⟩
      rcases hmark with rfl | rfl <;> simp [splitRadix, hfirst]
    | octal hne hdigits =>
      obtain ⟨first, rest, rfl⟩ := List.exists_cons_of_ne_nil hne
      have hfirst : IsDigit 8 first := hdigits first List.mem_cons_self
      -- An octal digit is no mark of base sixteen.
      have hmark : (first == 'x' || first == 'X') = false := by
        rw [Bool.eq_false_iff]
        intro hmark
        rcases Bool.or_eq_true_iff.1 hmark with hx | hx <;>
          exact absurd (eq_of_beq hx ▸ hfirst) (by decide)
      exact ⟨by simp [splitRadix, hmark], hne, hdigits⟩
    | zero => exact ⟨by decide, by decide, List.forall_mem_singleton.2 (by decide +kernel)⟩
    | decimal hfirst hdigits =>
      exact ⟨splitRadix_of_ne_zero hfirst _, List.cons_ne_nil _ _, hdigits⟩
  · rintro ⟨hsplit, hne, hdigits⟩
    unfold splitRadix at hsplit
    split at hsplit
    · next mark rest =>
      split at hsplit
      · next hmark =>
        cases hsplit
        rw [Bool.and_eq_true, Bool.or_eq_true, beq_iff_eq, beq_iff_eq] at hmark
        exact .hexadecimal hmark.1 hne hdigits
      · cases hsplit
        exact .octal hne hdigits
    · next hplain =>
      cases hsplit
      obtain ⟨first, rest, rfl⟩ := List.exists_cons_of_ne_nil hne
      by_cases hzero : first = '0'
      · subst hzero
        cases rest with
        | nil => exact .zero
        | cons mark rest => exact absurd rfl (hplain mark rest)
      · exact .decimal hzero hdigits

/-- A body without a sign starts with a digit. -/
theorem splitSign_of_isUnsigned {body digits : List Char} {radix : Nat}
    (hbody : Unsigned body radix digits) : splitSign body = (false, body) := by
  cases hbody with
  | hexadecimal | octal | zero => exact splitSign_of_unsigned (by decide) (by decide) _
  | decimal hfirst hdigits =>
    have hdigit := hdigits _ List.mem_cons_self
    apply splitSign_of_unsigned
    · rintro rfl
      exact absurd hdigit (by decide)
    · rintro rfl
      exact absurd hdigit (by decide)

theorem denotes_iff {token : List Char} {value : Int} :
    Denotes token value ↔ ∃ radix digits, Unsigned (splitSign token).2 radix digits ∧
      value = if (splitSign token).1 then -(number radix digits : Int) else number radix digits := by
  constructor
  · intro hdenotes
    cases hdenotes with
    | bare hbody =>
      rw [splitSign_of_isUnsigned hbody]
      exact ⟨_, _, hbody, rfl⟩
    | plus hbody => exact ⟨_, _, hbody, rfl⟩
    | minus hbody => exact ⟨_, _, hbody, rfl⟩
  · rintro ⟨radix, digits, hbody, rfl⟩
    cases token with
    | nil => exact .bare hbody
    | cons c rest =>
      by_cases hminus : c = '-'
      · subst hminus
        exact .minus hbody
      · by_cases hplus : c = '+'
        · subst hplus
          exact .plus hbody
        · rw [splitSign_of_unsigned hminus hplus] at hbody ⊢
          exact .bare hbody

/-- Of a body without a sign the reader adds up the digits, and of any other nothing. -/
theorem parse_eq_some_iff_unsigned {token : List Char} {value : Int} :
    parse token = some value ↔ ∃ radix digits sum, Unsigned (splitSign token).2 radix digits ∧
      accumulate? radix digits = some sum ∧
      value = clamp (if (splitSign token).1 then -sum else sum).toInt := by
  simp only [parse, unsigned_iff]
  constructor
  · intro hparse
    split at hparse
    · cases hparse
    · next hne =>
      obtain ⟨sum, hsum, rfl⟩ := Option.map_eq_some_iff.1 hparse
      exact ⟨_, _, sum, ⟨rfl, mt List.isEmpty_iff.2 hne, isDigit_of_accumulateFrom hsum⟩, hsum, rfl⟩
  · rintro ⟨radix, digits, sum, ⟨hsplit, hne, -⟩, hsum, rfl⟩
    rw [hsplit, if_neg (mt List.isEmpty_iff.1 hne), hsum]
    rfl

/-- The digits of a literal are added up to a word that can be negated, and that stands for the
number as far as 32 bits go. -/
theorem Unsigned.exists_sum {body digits : List Char} {radix : Nat}
    (hbody : Unsigned body radix digits) :
    ∃ sum, accumulate? radix digits = some sum ∧ (-sum).toInt = -sum.toInt ∧
      clamp sum.toInt = clamp (number radix digits) ∧
      clamp (-sum).toInt = clamp (-(number radix digits : Int)) := by
  have hradix : 1 ≤ radix := by
    cases hbody <;> decide
  obtain ⟨sum, hsum, hvalue⟩ := exists_accumulate? hradix (unsigned_iff.1 hbody).2.2
  exact ⟨sum, hsum, clamp_toInt hvalue⟩

theorem parse_eq_some_iff {token : List Char} {value : Int} :
    parse token = some value ↔ ∃ number, Denotes token number ∧ value = clamp number := by
  simp only [parse_eq_some_iff_unsigned, denotes_iff]
  constructor
  · rintro ⟨radix, digits, sum, hbody, hsum, rfl⟩
    obtain ⟨sum', hsum', -, hplus, hminus⟩ := hbody.exists_sum
    obtain rfl : sum' = sum := Option.some.inj (hsum'.symm.trans hsum)
    refine ⟨_, ⟨radix, digits, hbody, rfl⟩, ?_⟩
    split
    · exact hminus
    · exact hplus
  · rintro ⟨_, ⟨radix, digits, hbody, rfl⟩, rfl⟩
    obtain ⟨sum, hsum, -, hplus, hminus⟩ := hbody.exists_sum
    refine ⟨radix, digits, sum, hbody, hsum, ?_⟩
    split
    · exact hminus.symm
    · exact hplus.symm

/-- A literal denotes one number only. -/
theorem Denotes.unique {token : List Char} {left right : Int} (hleft : Denotes token left)
    (hright : Denotes token right) : left = right := by
  obtain ⟨radix, digits, hbody, rfl⟩ := denotes_iff.1 hleft
  obtain ⟨radix', digits', hbody', rfl⟩ := denotes_iff.1 hright
  obtain ⟨rfl, rfl⟩ := Prod.mk.inj ((unsigned_iff.1 hbody).1.symm.trans (unsigned_iff.1 hbody').1)
  rfl

theorem parse_eq_none_of_mnemonic {token : List Char} {mnemonic : Mnemonic}
    (hspelled : Text.sameLetters token mnemonic.keyword.toList = true) : parse token = none := by
  refine parse_eq_none_of_sameLetters ?_ hspelled
  intro c hhead
  cases mnemonic with
  | control op => cases op <;> cases hhead <;> decide
  | rawByte | note | delay => cases hhead; decide

/-- The reader accepts exactly the literals, at any length, and gives the number that a literal
denotes, held within 32 bits. The 64 bits in which digits are added up never show: not in the result,
and not when the sum is negated. No keyword is a literal. -/
theorem parse_reads_literals (token : List Char) :
    (∀ value, parse token = some value ↔ ∃ number, Denotes token number ∧
      value = max (-2147483648) (min 2147483647 number)) ∧
    (∀ left right, Denotes token left → Denotes token right → left = right) ∧
    (parse token = none ↔ ∀ number, ¬ Denotes token number) ∧
    (∀ (body digits : List Char) (radix : Nat), Unsigned body radix digits →
      ∃ sum, accumulate? radix digits = some sum ∧ (-sum).toInt = -sum.toInt ∧
        clamp sum.toInt = clamp (number radix digits) ∧
        clamp (-sum).toInt = clamp (-(number radix digits : Int))) ∧
    (∀ directive : Directive, directive.isSpelledBy token = true → parse token = none) ∧
    ∀ mnemonic : Mnemonic, Text.sameLetters token mnemonic.keyword.toList = true →
      parse token = none := by
  refine ⟨fun value => parse_eq_some_iff, fun left right => Denotes.unique, ?_,
    fun body digits radix hbody => hbody.exists_sum,
    fun directive => Directive.parse_eq_none_of_isSpelledBy,
    fun mnemonic => parse_eq_none_of_mnemonic⟩
  constructor
  · intro hnone number hdenotes
    have hsome := parse_eq_some_iff.2 ⟨number, hdenotes, rfl⟩
    rw [hnone] at hsome
    cases hsome
  · intro hnot
    rw [Option.eq_none_iff_forall_ne_some]
    intro value hparse
    obtain ⟨number, hdenotes, -⟩ := parse_eq_some_iff.1 hparse
    exact hnot number hdenotes

/-- Seventeen digits of base sixteen, more than 64 bits hold. -/
def longDigits : List Char := "fFfFfFfFfFfFfFfF0".toList

theorem parse_reads_longDigits :
    parse ("-0X".toList ++ longDigits) = some (-2147483648) ∧
    (∃ sum, accumulate? 16 longDigits = some sum ∧ (-sum).toInt = -sum.toInt) ∧
    parse "endTrack".toList = none ∧ parse "goto_Advanced".toList = none := by
  have hall : longDigits.all (fun c => decide (IsDigit 16 c)) = true := by decide +kernel
  have hbody : Unsigned ("0X".toList ++ longDigits) 16 longDigits :=
    .hexadecimal (Or.inr rfl) (List.cons_ne_nil _ _) (by simpa using hall)
  obtain ⟨hparse, -, -, hsum, -⟩ := parse_reads_literals ("-0X".toList ++ longDigits)
  obtain ⟨-, -, -, -, hdirective, -⟩ := parse_reads_literals "endTrack".toList
  obtain ⟨-, -, -, -, -, hmnemonic⟩ := parse_reads_literals "goto_Advanced".toList
  obtain ⟨sum, hsum, hneg, -⟩ := hsum _ _ _ hbody
  refine ⟨(hparse _).2 ⟨_, .minus hbody, by decide +kernel⟩, ⟨sum, hsum, hneg⟩,
    hdirective .endTrack (by decide), hmnemonic (.control .gotoAdvanced) (by decide)⟩

end Chiptune.Literal
