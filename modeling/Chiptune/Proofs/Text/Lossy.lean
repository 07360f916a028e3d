import Chiptune.Proofs.Text.Utf8
import Mathlib.Data.List.Basic
import Mathlib.Tactic.ByContra

/-!
# Texts of faulty bytes

Lossy decoding reads one stretch of bytes after another: a character, or a faulty stretch for which
it puts one replacement (`exists_stretch`). What it makes of a stretch depends on nothing behind it,
as long as a character could start there. So bytes can be decoded in parts (`decodeLossy_append`),
bytes that spell a text are decoded to it, and a piece of text without replacements comes from the
bytes that spell it and from no others (`exists_encode_of_decodeLossy`).
-/

namespace Chiptune.Text.Utf8

/-! ### One stretch -/

/-- No byte in front that would continue a character. -/
def StartsCharacter (bytes : List UInt8) : Prop :=
  ∀ byte, bytes.head? = some byte → isContinuation byte = false

theorem finish_append_of_invalid {missing size value total : Nat} {rest : List UInt8}
    (hfinish : finish missing size value rest = .invalid total) (tail : List UInt8) :
    finish missing size value (rest ++ tail) = .invalid total ∧
      size ≤ total ∧ total ≤ size + rest.length := by
  fun_induction finish missing size value rest with
  | case1 => cases hfinish
  | case2 => cases hfinish
  | case3 missing size value byte rest hcontinues ih =>
    obtain ⟨htail, hle, hle'⟩ := ih hfinish
    rw [List.cons_append, finish, if_pos hcontinues, List.length_cons]
    exact ⟨htail, by omega, by omega⟩
  | case4 missing size value byte rest hcontinues =>
    cases hfinish
    rw [List.cons_append, finish, if_neg hcontinues]
    exact ⟨rfl, Nat.le_refl _, Nat.le_add_right _ _⟩

theorem finish_append_of_incomplete {missing size value : Nat} {rest : List UInt8}
    (hfinish : finish missing size value rest = .incomplete) {byte : UInt8}
    (hbyte : isContinuation byte = false) (tail : List UInt8) :
    finish missing size value (rest ++ byte :: tail) = .invalid (size + rest.length) := by
  fun_induction finish missing size value rest with
  | case1 => cases hfinish
  | case2 missing size value => simp [finish, hbyte]
  | case3 missing size value next rest hcontinues ih =>
    rw [List.cons_append, finish, if_pos hcontinues, ih hfinish, List.length_cons]
    congr 1
    omega
  | case4 => cases hfinish

/-- What stands in front is decided byte by byte. -/
theorem front_cases (lead : UInt8) :
    (∃ c, ∀ rest, front lead rest = .character c 1) ∨
    (∀ rest, front lead rest = .invalid 1) ∨
    (front lead [] = .incomplete ∧ ∀ second,
      (∀ rest, front lead (second :: rest) = .invalid 1) ∨
      isContinuation second = true ∧
        ∃ missing value, ∀ rest, front lead (second :: rest) = finish missing 2 value rest) := by
  by_cases hascii : lead < 0x80
  · refine Or.inl ⟨Char.ofNat lead.toNat, fun rest => ?_⟩
    rw [front.eq_def, if_pos hascii]
  by_cases hlead : (lead < 0xC2 || 0xF4 < lead) = true
  · refine Or.inr (Or.inl fun rest => ?_)
    rw [front.eq_def, if_neg hascii, if_pos hlead]
  refine Or.inr (Or.inr ⟨by rw [front, if_neg hascii, if_neg hlead], fun second => ?_⟩)
  cases hfits : fits lead second with
  | false =>
    refine Or.inl fun rest => ?_
    simp [front, hascii, hlead, hfits]
  | true =>
    have hcontinues : isContinuation second = true := isContinuation_iff.2 (fits_iff.1 hfits).1
    refine Or.inr ⟨hcontinues, ?_⟩
    simp only [front, if_neg hascii, if_neg hlead, hfits, Bool.not_true, Bool.false_eq_true,
      if_false]
    -- A sequence of two bytes is finished already.
    split
    · exact ⟨0, _, fun rest => (finish.eq_1 2 _ rest).symm⟩
    · split
      · exact ⟨1, _, fun rest => rfl⟩
      · exact ⟨2, _, fun rest => rfl⟩

theorem front_append_of_invalid {lead : UInt8} {rest : List UInt8} {size : Nat}
    (hfront : front lead rest = .invalid size) (tail : List UInt8) :
    front lead (rest ++ tail) = .invalid size ∧ size - 1 ≤ rest.length := by
  obtain ⟨c, hlead⟩ | hlead | ⟨hnil, hcons⟩ := front_cases lead
  · rw [hlead] at hfront
    cases hfront
  · rw [hlead] at hfront ⊢
    cases hfront
    exact ⟨rfl, Nat.zero_le _⟩
  · cases rest with
    | nil =>
      rw [hnil] at hfront
      cases hfront
    | cons second rest =>
      rw [List.cons_append, List.length_cons]
      obtain hsecond | ⟨-, missing, value, hsecond⟩ := hcons second
      · rw [hsecond] at hfront ⊢
        cases hfront
        exact ⟨rfl, Nat.zero_le _⟩
      · rw [hsecond] at hfront ⊢
        obtain ⟨htail, hle, hle'⟩ := finish_append_of_invalid hfront tail
        exact ⟨htail, by omega⟩

theorem front_append_of_incomplete {lead : UInt8} {rest : List UInt8}
    (hfront : front lead rest = .incomplete) {byte : UInt8} (hbyte : isContinuation byte = false)
    (tail : List UInt8) : front lead (rest ++ byte :: tail) = .invalid (rest.length + 1) := by
  obtain ⟨c, hlead⟩ | hlead | ⟨-, hcons⟩ := front_cases lead
  · rw [hlead] at hfront
    cases hfront
  · rw [hlead] at hfront
    cases hfront
  · cases rest with
    | nil =>
      obtain hsecond | ⟨hcontinues, -⟩ := hcons byte
      · exact hsecond tail
      · rw [hbyte] at hcontinues
        cases hcontinues
    | cons second rest =>
      obtain hsecond | ⟨-, missing, value, hsecond⟩ := hcons second
      · rw [hsecond] at hfront
        cases hfront
      · rw [hsecond] at hfront
        rw [List.cons_append, hsecond, finish_append_of_incomplete hfront hbyte, List.length_cons]
        congr 1
        omega

/-! ### One stretch after another -/

theorem decodeLossyFrom_eq (read : List Char) (bytes : List UInt8) :
    decodeLossyFrom read bytes = read.reverse ++ decodeLossy bytes := by
  cases bytes with
  | nil => simp [decodeLossy, decodeLossyFrom]
  | cons lead rest =>
    have hshorter (size : Nat) : (rest.drop size).length < (lead :: rest).length :=
      Nat.lt_succ_of_le (List.drop_suffix size rest).length_le
    rw [decodeLossy, decodeLossyFrom, decodeLossyFrom]
    split
    · next c size _ =>
      have := hshorter (size - 1)
      rw [decodeLossyFrom_eq (c :: read), decodeLossyFrom_eq [c]]
      simp
    · next size _ =>
      have := hshorter (size - 1)
      rw [decodeLossyFrom_eq (replacement :: read), decodeLossyFrom_eq [replacement]]
      simp
    · simp
termination_by bytes.length

theorem decodeLossy_nil : decodeLossy [] = [] := by
  rw [decodeLossy, decodeLossyFrom, List.reverse_nil]

theorem decodeLossy_of_character {lead : UInt8} {rest : List UInt8} {c : Char} {size : Nat}
    (hfront : front lead rest = .character c size) :
    decodeLossy (lead :: rest) = c :: decodeLossy (rest.drop (size - 1)) := by
  rw [decodeLossy, decodeLossyFrom, hfront]
  exact decodeLossyFrom_eq [c] _

theorem decodeLossy_of_invalid {lead : UInt8} {rest : List UInt8} {size : Nat}
    (hfront : front lead rest = .invalid size) :
    decodeLossy (lead :: rest) = replacement :: decodeLossy (rest.drop (size - 1)) := by
  rw [decodeLossy, decodeLossyFrom, hfront]
  exact decodeLossyFrom_eq [replacement] _

theorem decodeLossy_of_incomplete {lead : UInt8} {rest : List UInt8}
    (hfront : front lead rest = .incomplete) : decodeLossy (lead :: rest) = [replacement] := by
  rw [decodeLossy, decodeLossyFrom, hfront]
  rfl

theorem decodeLossy_encodeChar (c : Char) (rest : List UInt8) :
    decodeLossy (String.utf8EncodeChar c ++ rest) = c :: decodeLossy rest := by
  obtain ⟨lead, others, hbytes⟩ := List.exists_cons_of_ne_nil (@String.utf8EncodeChar_ne_nil c)
  have hfront : front lead (others ++ rest) = .character c (others.length + 1) :=
    front_eq_character_iff.2 ⟨⟨rest, by rw [hbytes, List.cons_append]⟩, by rw [hbytes]; rfl⟩
  rw [hbytes, List.cons_append, decodeLossy_of_character hfront, Nat.add_sub_cancel,
    List.drop_left]

/-- A stretch of bytes that is decoded to one character, with any bytes behind it that start one. -/
theorem exists_stretch {bytes : List UInt8} (hbytes : bytes ≠ []) :
    ∃ c stretch more, bytes = stretch ++ more ∧ stretch ≠ [] ∧
      (c = replacement ∨ stretch = String.utf8EncodeChar c) ∧
      ∀ tail, StartsCharacter tail →
        decodeLossy (bytes ++ tail) = c :: decodeLossy (more ++ tail) := by
  obtain ⟨lead, rest, rfl⟩ := List.exists_cons_of_ne_nil hbytes
  cases hfront : front lead rest with
  | character c size =>
    obtain ⟨⟨more, hmore⟩, -⟩ := front_eq_character_iff.1 hfront
    refine ⟨c, _, more, hmore, String.utf8EncodeChar_ne_nil, Or.inr rfl, fun tail _ => ?_⟩
    rw [hmore, List.append_assoc, decodeLossy_encodeChar]
  | invalid size =>
    refine ⟨replacement, lead :: rest.take (size - 1), rest.drop (size - 1), ?_,
      List.cons_ne_nil _ _, Or.inl rfl, fun tail _ => ?_⟩
    · rw [List.cons_append, List.take_append_drop]
    · obtain ⟨htail, hle⟩ := front_append_of_invalid hfront tail
      rw [List.cons_append, decodeLossy_of_invalid htail, List.drop_append_of_le_length hle]
  | incomplete =>
    refine ⟨replacement, lead :: rest, [], (List.append_nil _).symm, hbytes, Or.inl rfl,
      fun tail hstarts => ?_⟩
    rw [List.nil_append]
    cases tail with
    | nil => rw [List.append_nil, decodeLossy_of_incomplete hfront, decodeLossy_nil]
    | cons byte tail =>
      have htail := front_append_of_incomplete hfront (hstarts byte rfl) tail
      rw [List.cons_append, decodeLossy_of_invalid htail, Nat.add_sub_cancel, List.drop_left]

theorem startsCharacter_nil : StartsCharacter [] := nofun

/-- Bytes are decoded stretch by stretch. -/
@[elab_as_elim]
theorem stretch_induction {motive : List UInt8 → Prop} (nil : motive [])
    (stretch : ∀ bytes c stretch more, bytes = stretch ++ more →
      (c = replacement ∨ stretch = String.utf8EncodeChar c) →
      (∀ tail, StartsCharacter tail →
        decodeLossy (bytes ++ tail) = c :: decodeLossy (more ++ tail)) →
      motive more → motive bytes)
    (bytes : List UInt8) : motive bytes := by
  by_cases hbytes : bytes = []
  · exact hbytes ▸ nil
  · obtain ⟨c, front, more, hsplit, hne, hkind, htail⟩ := exists_stretch hbytes
    have hshorter : more.length < bytes.length := by
      have hpos := List.length_pos_iff.2 hne
      rw [hsplit, List.length_append]
      omega
    exact stretch bytes c front more hsplit hkind htail (stretch_induction nil stretch more)
termination_by bytes.length

theorem decodeLossy_append (bytes : List UInt8) {tail : List UInt8}
    (hstarts : StartsCharacter tail) :
    decodeLossy (bytes ++ tail) = decodeLossy bytes ++ decodeLossy tail := by
  induction bytes using stretch_induction with
  | nil => rw [decodeLossy_nil, List.nil_append, List.nil_append]
  | stretch bytes c front more hsplit hkind htail ih =>
    have halone := htail [] startsCharacter_nil
    rw [List.append_nil, List.append_nil] at halone
    rw [htail tail hstarts, ih, halone, List.cons_append]

theorem eq_nil_of_decodeLossy {bytes : List UInt8} (hdecode : decodeLossy bytes = []) :
    bytes = [] := by
  by_contra hbytes
  obtain ⟨c, stretch, more, -, -, -, htail⟩ := exists_stretch hbytes
  have halone := htail [] startsCharacter_nil
  rw [List.append_nil, hdecode] at halone
  cases halone

/-! ### Bytes that spell a text -/

theorem decodeLossy_encode (text : List Char) : decodeLossy (encode text) = text := by
  induction text with
  | nil => exact decodeLossy_nil
  | cons c text ih => rw [encode_cons, decodeLossy_encodeChar, ih]

theorem isContinuation_head?_of_sequence {bytes : List UInt8} {value : Nat}
    (hsequence : Sequence bytes value) {byte : UInt8} (hbyte : bytes.head? = some byte) :
    isContinuation byte = false := by
  rw [Bool.eq_false_iff, ne_eq, isContinuation_iff]
  cases hsequence with
  | one hlead | two hlead | three hlead | four hlead =>
    cases hbyte
    omega

/-- A byte that stands for itself is the whole sequence that it is in. -/
theorem eq_toNat_of_sequence {bytes : List UInt8} {value : Nat} (hsequence : Sequence bytes value)
    {byte : UInt8} (hmem : byte ∈ bytes) (hascii : byte.toNat < 0x80) : value = byte.toNat := by
  cases hsequence with
  | one hlead =>
    rw [List.mem_singleton] at hmem
    rw [hmem]
  | two hlead hsecond =>
    rw [fits_iff] at hsecond
    simp only [List.mem_cons, List.not_mem_nil, or_false] at hmem
    rcases hmem with rfl | rfl <;> omega
  | three hlead hsecond hthird =>
    rw [fits_iff] at hsecond
    rw [isContinuation_iff] at hthird
    simp only [List.mem_cons, List.not_mem_nil, or_false] at hmem
    rcases hmem with rfl | rfl | rfl <;> omega
  | four hlead hsecond hthird hfourth =>
    rw [fits_iff] at hsecond
    rw [isContinuation_iff] at hthird hfourth
    simp only [List.mem_cons, List.not_mem_nil, or_false] at hmem
    rcases hmem with rfl | rfl | rfl | rfl <;> omega

theorem mem_of_mem_encode {text : List Char} {byte : UInt8} (hmem : byte ∈ encode text)
    (hascii : byte.toNat < 0x80) : Char.ofNat byte.toNat ∈ text := by
  obtain ⟨c, hc, hbyte⟩ := List.mem_flatMap.1 hmem
  rwa [← eq_toNat_of_sequence (sequence_encodeChar c) hbyte hascii, Char.ofNat_toNat]

theorem startsCharacter_encode (text : List Char) : StartsCharacter (encode text) := by
  cases text with
  | nil => exact startsCharacter_nil
  | cons c text =>
    intro byte hbyte
    rw [encode_cons, List.head?_append_of_ne_nil _ String.utf8EncodeChar_ne_nil] at hbyte
    exact isContinuation_head?_of_sequence (sequence_encodeChar c) hbyte

theorem decodeLossy_append_encode (bytes : List UInt8) (text : List Char) :
    decodeLossy (bytes ++ encode text) = decodeLossy bytes ++ text := by
  rw [decodeLossy_append bytes (startsCharacter_encode text), decodeLossy_encode]

/-- Text without replacements at the end of what was decoded is spelled by the last bytes. -/
theorem exists_encode_of_decodeLossy {bytes : List UInt8} {before text : List Char}
    (htext : replacement ∉ text) (hdecode : decodeLossy bytes = before ++ text) :
    ∃ start, bytes = start ++ encode text ∧ decodeLossy start = before := by
  induction bytes using stretch_induction generalizing before text with
  | nil =>
    rw [decodeLossy_nil] at hdecode
    obtain ⟨rfl, rfl⟩ := List.append_eq_nil_iff.1 hdecode.symm
    exact ⟨[], rfl, decodeLossy_nil⟩
  | stretch bytes c stretch more hsplit hkind htail ih =>
    have halone := htail [] startsCharacter_nil
    rw [List.append_nil, List.append_nil, hdecode] at halone
    cases before with
    | nil =>
      -- The stretch is the first character of the text, so it is no replacement.
      rw [List.nil_append] at halone
      subst halone
      obtain ⟨hc, hmore⟩ := List.ne_and_not_mem_of_not_mem_cons htext
      obtain ⟨start, hstart, hnone⟩ := @ih [] _ hmore rfl
      obtain rfl := eq_nil_of_decodeLossy hnone
      refine ⟨[], ?_, decodeLossy_nil⟩
      rw [List.nil_append, encode_cons, hsplit, hkind.resolve_left (Ne.symm hc)]
      exact congrArg (String.utf8EncodeChar c ++ ·) hstart
    | cons d before =>
      obtain ⟨rfl, hmore⟩ := List.cons.inj halone
      obtain ⟨start, hstart, -⟩ := ih htext hmore.symm
      have hbytes : bytes = (stretch ++ start) ++ encode text := by
        rw [hsplit, hstart, List.append_assoc]
      refine ⟨stretch ++ start, hbytes, ?_⟩
      rw [hbytes, decodeLossy_append_encode] at hdecode
      exact List.append_cancel_right hdecode

end Chiptune.Text.Utf8
