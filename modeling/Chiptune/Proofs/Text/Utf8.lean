import Chiptune.Text.Utf8
import Mathlib.Logic.Basic

/-!
# Bytes and the texts that they spell

Decoding accepts exactly what encoding gives, so every byte string spells one text or none
(`decode_eq_ok_iff`).

`Sequence` is the table of well-formed sequences, one row for each length. The decoder's look at the
front of some bytes finds a row of the table (`front_eq_character_iff`), and the rows are the
encodings of the characters (`encodeChar_of_sequence`, `sequence_encodeChar`). The second byte alone
keeps the value of a row in the range that its length is for, and out of the surrogates.
-/

namespace Chiptune.Text.Utf8

/-- The well-formed byte sequences, with the values that they spell. -/
inductive Sequence : List UInt8 → Nat → Prop
  | one {lead : UInt8} (hlead : lead.toNat < 0x80) : Sequence [lead] lead.toNat
  | two {lead second : UInt8} (hlead : 0xC2 ≤ lead.toNat ∧ lead.toNat < 0xE0)
      (hsecond : fits lead second = true) :
      Sequence [lead, second] (lead.toNat % 32 * 64 + payload second)
  | three {lead second third : UInt8} (hlead : 0xE0 ≤ lead.toNat ∧ lead.toNat < 0xF0)
      (hsecond : fits lead second = true) (hthird : isContinuation third = true) :
      Sequence [lead, second, third]
        (64 * (lead.toNat % 16 * 64 + payload second) + payload third)
  | four {lead second third fourth : UInt8} (hlead : 0xF0 ≤ lead.toNat ∧ lead.toNat ≤ 0xF4)
      (hsecond : fits lead second = true) (hthird : isContinuation third = true)
      (hfourth : isContinuation fourth = true) :
      Sequence [lead, second, third, fourth]
        (64 * (64 * (lead.toNat % 8 * 64 + payload second) + payload third) + payload fourth)

theorem isContinuation_iff {byte : UInt8} :
    isContinuation byte = true ↔ 0x80 ≤ byte.toNat ∧ byte.toNat ≤ 0xBF := by
  simp [isContinuation, UInt8.le_iff_toNat_le]

theorem fits_iff {lead second : UInt8} :
    fits lead second = true ↔ (0x80 ≤ second.toNat ∧ second.toNat ≤ 0xBF) ∧
      (lead.toNat = 0xE0 → 0xA0 ≤ second.toNat) ∧ (lead.toNat = 0xED → second.toNat ≤ 0x9F) ∧
      (lead.toNat = 0xF0 → 0x90 ≤ second.toNat) ∧ (lead.toNat = 0xF4 → second.toNat ≤ 0x8F) := by
  simp only [fits, Bool.and_eq_true, Bool.or_eq_true, isContinuation_iff, bne_iff_ne, ne_eq,
    decide_eq_true_eq, UInt8.le_iff_toNat_le, ← UInt8.toNat_inj, UInt8.reduceToNat, and_assoc,
    ← imp_iff_not_or]

/-! ### The decoder looks for a sequence -/

theorem front_of_sequence {bytes : List UInt8} {value : Nat} (hsequence : Sequence bytes value)
    {lead : UInt8} {rest tail : List UInt8} (hbytes : lead :: rest = bytes ++ tail) :
    front lead rest = .character (Char.ofNat value) bytes.length := by
  unfold front
  simp only [UInt8.lt_iff_toNat_lt, UInt8.reduceToNat, Bool.or_eq_true, decide_eq_true_eq]
  rcases hsequence with hlead | ⟨hlead, hsecond⟩ | ⟨hlead, hsecond, hthird⟩ |
    ⟨hlead, hsecond, hthird, hfourth⟩
  all_goals obtain ⟨rfl, rfl⟩ := List.cons.inj hbytes
  · rw [if_pos hlead]
    rfl
  · rw [if_neg (by omega), if_neg (by omega)]
    simp [hsecond, hlead.2]
  · rw [if_neg (by omega), if_neg (by omega)]
    simp [hsecond, hthird, hlead.2, finish, Nat.not_lt.2 hlead.1]
  · rw [if_neg (by omega), if_neg (by omega)]
    have hthree : ¬ lead.toNat < 0xE0 := by omega
    simp [hsecond, hthird, hfourth, finish, hthree, Nat.not_lt.2 hlead.1]

theorem exists_cons_of_finish {missing size value total : Nat} {rest : List UInt8} {c : Char}
    (hfinish : finish (missing + 1) size value rest = .character c total) :
    ∃ byte tail, rest = byte :: tail ∧ isContinuation byte = true ∧
      finish missing (size + 1) (64 * value + payload byte) tail = .character c total := by
  rcases rest with _ | ⟨byte, tail⟩
  · cases hfinish
  · rw [finish] at hfinish
    split at hfinish
    · next hcontinues => exact ⟨byte, tail, rfl, hcontinues, hfinish⟩
    · cases hfinish

theorem exists_sequence_of_front {lead : UInt8} {rest : List UInt8} {c : Char} {size : Nat}
    (hfront : front lead rest = .character c size) :
    ∃ bytes value tail, Sequence bytes value ∧ lead :: rest = bytes ++ tail ∧
      c = Char.ofNat value ∧ size = bytes.length := by
  unfold front at hfront
  simp only [UInt8.lt_iff_toNat_lt, UInt8.reduceToNat, Bool.or_eq_true, decide_eq_true_eq] at hfront
  split at hfront
  · next hlead =>
    cases hfront
    exact ⟨_, _, rest, .one hlead, rfl, rfl, rfl⟩
  · split at hfront
    · cases hfront
    · next hlead =>
      split at hfront
      · cases hfront
      · next second rest =>
        cases hfits : fits lead second with
        | false =>
          rw [hfits] at hfront
          cases hfront
        | true =>
          simp only [hfits, Bool.not_true, Bool.false_eq_true, if_false] at hfront
          split at hfront
          · cases hfront
            exact ⟨_, _, rest, .two (by omega) hfits, rfl, rfl, rfl⟩
          · split at hfront
            · obtain ⟨third, tail, rfl, hthird, hdone⟩ := exists_cons_of_finish hfront
              cases hdone
              exact ⟨_, _, tail, .three (by omega) hfits hthird, rfl, rfl, rfl⟩
            · obtain ⟨third, rest, rfl, hthird, hrest⟩ := exists_cons_of_finish hfront
              obtain ⟨fourth, tail, rfl, hfourth, hdone⟩ := exists_cons_of_finish hrest
              cases hdone
              exact ⟨_, _, tail, .four (by omega) hfits hthird hfourth, rfl, rfl, rfl⟩

/-! ### The sequences are the encodings -/

theorem isValidChar_of_sequence {bytes : List UInt8} {value : Nat}
    (hsequence : Sequence bytes value) : value.isValidChar := by
  unfold Nat.isValidChar
  cases hsequence with
  | one hlead => omega
  | two hlead hsecond =>
    rw [payload]
    omega
  | three hlead hsecond hthird =>
    -- The surrogates all start with 0xED, behind which only a smaller second byte fits.
    rw [fits_iff] at hsecond
    rw [payload, payload]
    omega
  | four hlead hsecond hthird hfourth =>
    rw [fits_iff] at hsecond
    rw [payload, payload, payload]
    omega

theorem encodeChar_of_sequence {bytes : List UInt8} {value : Nat}
    (hsequence : Sequence bytes value) : String.utf8EncodeChar (Char.ofNat value) = bytes := by
  have hvalue : (Char.ofNat value).val.toNat = value := by
    rw [Char.ofNat, dif_pos (isValidChar_of_sequence hsequence)]
    rfl
  unfold String.utf8EncodeChar
  simp only [hvalue]
  clear hvalue
  cases hsequence with
  | one hlead => rw [if_pos (Nat.le_of_lt_succ hlead), UInt8.ofNat_toNat]
  | two hlead hsecond =>
    rw [fits_iff] at hsecond
    rw [payload, if_neg (by omega), if_pos (by omega)]
    simp only [List.cons.injEq, ← UInt8.toNat_inj, UInt8.toNat_ofNat', Nat.reducePow, and_true]
    omega
  | three hlead hsecond hthird =>
    rw [fits_iff] at hsecond
    rw [isContinuation_iff] at hthird
    rw [payload, payload, if_neg (by omega), if_neg (by omega), if_pos (by omega)]
    simp only [List.cons.injEq, ← UInt8.toNat_inj, UInt8.toNat_ofNat', Nat.reducePow, and_true]
    omega
  | four hlead hsecond hthird hfourth =>
    rw [fits_iff] at hsecond
    rw [isContinuation_iff] at hthird hfourth
    rw [payload, payload, payload, if_neg (by omega), if_neg (by omega), if_neg (by omega)]
    simp only [List.cons.injEq, ← UInt8.toNat_inj, UInt8.toNat_ofNat', Nat.reducePow, and_true]
    omega

theorem Sequence.of_eq {bytes : List UInt8} {value value' : Nat} (hsequence : Sequence bytes value)
    (hvalue : value = value') : Sequence bytes value' :=
  hvalue ▸ hsequence

theorem sequence_encodeChar (c : Char) : Sequence (String.utf8EncodeChar c) c.toNat := by
  have hvalid : c.val.toNat.isValidChar := c.valid
  unfold String.utf8EncodeChar
  change Sequence _ c.val.toNat
  generalize c.val.toNat = value at hvalid ⊢
  dsimp only
  unfold Nat.isValidChar at hvalid
  split
  · refine (Sequence.one ?_).of_eq ?_
    all_goals simp only [UInt8.toNat_ofNat', Nat.reducePow]
    all_goals omega
  · split
    · refine (Sequence.two ?_ ?_).of_eq ?_
      all_goals simp only [fits_iff, payload, UInt8.toNat_ofNat', Nat.reducePow]
      all_goals omega
    · split
      · refine (Sequence.three ?_ ?_ ?_).of_eq ?_
        all_goals
          simp only [fits_iff, isContinuation_iff, payload, UInt8.toNat_ofNat', Nat.reducePow]
        all_goals omega
      · refine (Sequence.four ?_ ?_ ?_ ?_).of_eq ?_
        all_goals
          simp only [fits_iff, isContinuation_iff, payload, UInt8.toNat_ofNat', Nat.reducePow]
        all_goals omega

theorem front_eq_character_iff {lead : UInt8} {rest : List UInt8} {c : Char} {size : Nat} :
    front lead rest = .character c size ↔
      (∃ tail, lead :: rest = String.utf8EncodeChar c ++ tail) ∧
        size = (String.utf8EncodeChar c).length := by
  constructor
  · intro hfront
    obtain ⟨bytes, value, tail, hsequence, hbytes, rfl, rfl⟩ := exists_sequence_of_front hfront
    rw [encodeChar_of_sequence hsequence]
    exact ⟨⟨tail, hbytes⟩, rfl⟩
  · rintro ⟨⟨tail, hbytes⟩, rfl⟩
    rw [front_of_sequence (sequence_encodeChar c) hbytes, Char.ofNat_toNat]

theorem encode_cons (c : Char) (text : List Char) :
    encode (c :: text) = String.utf8EncodeChar c ++ encode text := rfl

/-- Bytes that some text is encoded by start with its first character. -/
theorem exists_front_of_encode {text : List Char} {lead : UInt8} {rest : List UInt8}
    (hencode : encode text = lead :: rest) :
    ∃ c more, text = c :: more ∧ front lead rest = .character c (String.utf8EncodeChar c).length ∧
      lead :: rest = String.utf8EncodeChar c ++ encode more := by
  rcases text with _ | ⟨c, more⟩
  · cases hencode
  · exact ⟨c, more, rfl, front_eq_character_iff.2 ⟨⟨encode more, hencode.symm⟩, rfl⟩, hencode.symm⟩

theorem decodeFrom_eq_ok_iff {read text : List Char} {position : Nat} {bytes : List UInt8} :
    decodeFrom read position bytes = .ok text ↔
      ∃ more, text = read.reverse ++ more ∧ encode more = bytes := by
  fun_induction decodeFrom read position bytes with
  | case1 read position =>
    constructor
    · intro hread
      cases hread
      exact ⟨[], (List.append_nil _).symm, rfl⟩
    · rintro ⟨more, rfl, hmore⟩
      rcases more with _ | ⟨c, more⟩
      · rw [List.append_nil]
      · exact absurd (List.append_eq_nil_iff.1 hmore).1 String.utf8EncodeChar_ne_nil
  | case2 read position lead rest c size hfront ih =>
    obtain ⟨⟨tail, hbytes⟩, hsize⟩ := front_eq_character_iff.1 hfront
    have htail : rest.drop (size - 1) = tail := by
      obtain ⟨first, others, hfirst⟩ := List.exists_cons_of_ne_nil (@String.utf8EncodeChar_ne_nil c)
      rw [hfirst] at hbytes hsize
      rw [(List.cons.inj hbytes).2, hsize]
      exact List.drop_left
    rw [ih, htail]
    constructor
    · rintro ⟨more, rfl, hmore⟩
      refine ⟨c :: more, by simp, ?_⟩
      rw [encode_cons, hmore, hbytes]
    · rintro ⟨more, rfl, hmore⟩
      -- The character in front is the same one, so the bytes behind it are.
      obtain ⟨c', more, rfl, hfront', hbytes'⟩ := exists_front_of_encode hmore
      obtain ⟨rfl, -⟩ := Front.character.inj (hfront.symm.trans hfront')
      refine ⟨more, by simp, ?_⟩
      exact List.append_cancel_left (hbytes'.symm.trans hbytes)
  | case3 read position lead rest size hfront =>
    constructor
    · nofun
    · rintro ⟨more, rfl, hmore⟩
      obtain ⟨c, -, -, hfront', -⟩ := exists_front_of_encode hmore
      cases hfront.symm.trans hfront'
  | case4 read position lead rest hfront =>
    constructor
    · nofun
    · rintro ⟨more, rfl, hmore⟩
      obtain ⟨c, -, -, hfront', -⟩ := exists_front_of_encode hmore
      cases hfront.symm.trans hfront'

/-- Bytes spell a text exactly if they are its encoding. -/
theorem decode_eq_ok_iff {bytes : List UInt8} {text : List Char} :
    decode bytes = .ok text ↔ encode text = bytes := by
  rw [decode, decodeFrom_eq_ok_iff]
  constructor
  · rintro ⟨more, rfl, hbytes⟩
    exact hbytes
  · intro hbytes
    exact ⟨text, rfl, hbytes⟩

end Chiptune.Text.Utf8
