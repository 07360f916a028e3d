import Chiptune.Instr.Emission
import Chiptune.Proofs.Score.Steps
import Chiptune.Proofs.Text.Tokens
import Chiptune.Proofs.Varint

/-!
# Emission leaves no half instruction

`ByteBuffer.emit` works on a buffer and on a list of words that both outlive the call. It does what
reading an instruction and appending its bytes does (`emit_eq_read`), and from there on the buffer is
out of the picture: `emit_appends_or_refuses` says that either a whole instruction is appended, whose
bytes depend on nothing but the words of the instruction, or the buffer is left alone. Either way it
says which words are gone.
-/

namespace Chiptune

open Text

/-! ### Appending an instruction straight away -/

/-- A literal that is positive is the number of ticks of a delay. -/
theorem Ticks.exists_ofInt {value : Int} (hpos : 1 ≤ value) (hle : value ≤ Literal.greatest) :
    ∃ ticks, Ticks.ofInt value = .ok ticks ∧ (ticks.count : Int) = value := by
  refine ⟨_, dif_neg (by omega), ?_⟩
  unfold Literal.greatest at hle
  change ((min value.toNat maxTicks : Nat) : Int) = value
  unfold maxTicks
  omega

theorem le_greatest_of_readLiterals {missing : Error} {count : Nat} {words rest : List Word}
    {values : Vector Int count} (hread : readLiterals missing count words = (.ok values, rest)) :
    ∀ value ∈ values.toList, value ≤ Literal.greatest := by
  obtain ⟨numerals, -, rfl⟩ := exists_numerals_of_readLiterals hread
  intro value hvalue
  rw [Vector.toList_map] at hvalue
  obtain ⟨numeral, -, rfl⟩ := List.mem_map.1 hvalue
  exact numeral.value_le

namespace ByteBuffer

theorem foldl_pushWrapped (buffer : ByteBuffer) (values : List Int) :
    values.foldl pushWrapped buffer = buffer.extend (values.map UInt8.ofInt) := by
  rw [Buffer.extend, List.foldl_map]
  rfl

theorem emitDelay_eq (buffer : ByteBuffer) {value : Int} (hle : value ≤ Literal.greatest) :
    emitDelay buffer value = match Ticks.ofInt value with
      | .ok ticks => (none, buffer.extend ticks.encode)
      | .error fault => (some fault, buffer) := by
  by_cases hpos : value < 1
  · rw [emitDelay, if_pos hpos, Ticks.ofInt, dif_pos hpos]
  · obtain ⟨ticks, hticks, hcount⟩ := Ticks.exists_ofInt (by omega) hle
    have hbytes := Ticks.encode_of_count hcount
    simp only [emitDelay, if_neg hpos, hticks, hbytes]
    by_cases hshort : value ≤ 64
    · rw [if_pos hshort, if_pos (show value ≤ (Ticks.shortLimit : Int) from hshort)]
      rfl
    · rw [if_neg hshort, if_neg (show ¬ value ≤ (Ticks.shortLimit : Int) from hshort)]
      rfl

theorem emitOperation_eq (buffer : ByteBuffer) {mnemonic : Mnemonic}
    {values : Vector Int mnemonic.argumentCount}
    (hle : ∀ value ∈ values.toList, value ≤ Literal.greatest) :
    emitOperation buffer mnemonic values = match Instr.ofArguments mnemonic values with
      | .ok instr => (none, buffer.extend instr.encode)
      | .error fault => (some fault, buffer) := by
  cases mnemonic with
  | rawByte => rfl
  | note =>
    change emitNote buffer values[0] = _
    by_cases hrange : (0 : Int) ≤ values[0] ∧ values[0] ≤ 63
    · have hinstr : Instr.ofArguments .note values = .ok (.note ⟨values[0].toNat, by omega⟩) :=
        dif_pos hrange
      have hbyte := ofInt_eq_ofNat_toNat hrange.1 (by omega)
      rw [emitNote, if_pos hrange, hinstr, pushWrapped, hbyte]
      rfl
    · have hfault : Instr.ofArguments .note values = .error (.range (.note values[0])) :=
        dif_neg hrange
      rw [emitNote, if_neg hrange, hfault]
  | delay =>
    have hvalue : values[0] ≤ Literal.greatest := hle _ (by simp)
    change emitDelay buffer values[0] = _
    rw [emitDelay_eq buffer hvalue, Instr.ofArguments]
    cases Ticks.ofInt values[0] with
    | ok ticks => rfl
    | error fault => rfl
  | control op =>
    have hoperands : (values.map UInt8.ofInt).toList = values.toList.map UInt8.ofInt :=
      Vector.toList_map
    rw [emitOperation, foldl_pushWrapped, ← hoperands]
    rfl

/-- Emitting is reading an instruction and appending its bytes. -/
theorem emit_eq_read (buffer : ByteBuffer) (operation : Word) (words : List Word) :
    emit buffer operation words = match Instr.read operation words with
      | (.ok instr, rest) => ⟨none, buffer.extend instr.encode, rest⟩
      | (.error fault, rest) => ⟨some fault, buffer, rest⟩ := by
  unfold emit Instr.read
  cases Mnemonic.ofWord? operation with
  | none =>
    cases Literal.parse operation with
    | none => rfl
    | some value => rfl
  | some mnemonic =>
    simp only
    cases hread :
      readLiterals (.grammar (.missingArgument mnemonic)) mnemonic.argumentCount words with
    | mk result rest =>
      cases result with
      | error fault => rfl
      | ok values =>
        simp only [emitOperation_eq buffer (le_greatest_of_readLiterals hread)]
        cases Instr.ofArguments mnemonic values with
        | ok instr => rfl
        | error fault => rfl

end ByteBuffer

/-! ### The words of an instruction -/

/-- How many words follow an operation as its arguments; a lone literal has none. -/
def argumentsOf (operation : Word) : Nat :=
  match Mnemonic.ofWord? operation with
  | some mnemonic => mnemonic.argumentCount
  | none => 0

/-- Literals are read from the words in front, and it does not matter what stands behind them. -/
theorem readLiterals_of_take {missing : Error} {count : Nat} {words rest others : List Word}
    {values : Vector Int count} (hread : readLiterals missing count words = (.ok values, rest))
    (hothers : others.take count = words.take count) :
    readLiterals missing count others = (.ok values, others.drop count) := by
  obtain ⟨numerals, hwords, rfl⟩ := exists_numerals_of_readLiterals hread
  have hfront : words.take count = numerals.toList.map Numeral.word := by
    rw [hwords, List.take_left' (by simp)]
  have hsplit : others = numerals.toList.map Numeral.word ++ others.drop count := by
    rw [← hfront, ← hothers, List.take_append_drop]
  conv => lhs; rw [hsplit]
  exact readLiterals_append missing numerals _

theorem length_of_readLiterals {missing : Error} {count : Nat} {words rest : List Word}
    {values : Vector Int count} (hread : readLiterals missing count words = (.ok values, rest)) :
    count ≤ words.length ∧ rest = words.drop count := by
  obtain ⟨numerals, hwords, -⟩ := exists_numerals_of_readLiterals hread
  have hsame := readLiterals_of_take hread rfl
  rw [hread] at hsame
  refine ⟨?_, (Prod.mk.inj hsame).2⟩
  rw [hwords, List.length_append, List.length_map, Vector.length_toList]
  omega

/-- Where reading literals fails, either the words have run out, or the last word read is none. -/
theorem exists_consumed_of_readLiterals {missing fault : Error} {count : Nat}
    {words rest : List Word} (hread : readLiterals missing count words = (.error fault, rest)) :
    ∃ consumed ≤ count, consumed ≤ words.length ∧ rest = words.drop consumed ∧
      (fault = missing ∨ ∃ front word, words.take consumed = front ++ [word] ∧
        Literal.parse (word.take argumentLimit) = none ∧
        fault = .literal (String.ofList (word.take argumentLimit))) := by
  induction count generalizing rest with
  | zero => cases hread
  | succ count ih =>
    rw [readLiterals] at hread
    split at hread
    · next hfront =>
      cases hread
      obtain ⟨consumed, hle, hrest⟩ := ih hfront
      exact ⟨consumed, Nat.le_succ_of_le hle, hrest⟩
    · next values hfront =>
      cases hread
      obtain ⟨hlength, hrest⟩ := length_of_readLiterals hfront
      exact ⟨count, Nat.le_succ _, hlength, hrest, Or.inl rfl⟩
    · next values word tail hfront =>
      obtain ⟨hlength, hrest⟩ := length_of_readLiterals hfront
      split at hread
      · cases hread
      · next hparse =>
        cases hread
        have hlt : count < words.length := by
          have hsum := congrArg List.length hrest
          rw [List.length_cons, List.length_drop] at hsum
          omega
        refine ⟨count + 1, Nat.le_refl _, hlt, ?_, Or.inr ⟨words.take count, word, ?_, hparse, rfl⟩⟩
        · rw [← List.drop_drop, ← hrest]
          rfl
        · rw [List.take_add_one, ← List.head?_drop, ← hrest]
          rfl

namespace Instr

variable {operation : Word} {words rest : List Word}

theorem read_of_take {instr : Instr} (hread : read operation words = (.ok instr, rest))
    {others : List Word}
    (hothers : others.take (argumentsOf operation) = words.take (argumentsOf operation)) :
    read operation others = (.ok instr, others.drop (argumentsOf operation)) := by
  cases hname : Mnemonic.ofWord? operation with
  | none =>
    simp only [read, argumentsOf, hname] at hread ⊢
    split at hread
    · cases hread
      rfl
    · cases hread
  | some mnemonic =>
    simp only [read, argumentsOf, hname] at hread hothers ⊢
    split at hread
    · next values tail hvalues =>
      rw [readLiterals_of_take hvalues hothers, ← (Prod.mk.inj hread).1]
    · cases hread

theorem argumentsOf_le_of_read {instr : Instr} (hread : read operation words = (.ok instr, rest)) :
    argumentsOf operation ≤ words.length := by
  cases hname : Mnemonic.ofWord? operation with
  | none =>
    simp only [argumentsOf, hname]
    exact Nat.zero_le _
  | some mnemonic =>
    simp only [read, argumentsOf, hname] at hread ⊢
    split at hread
    · next hvalues => exact (length_of_readLiterals hvalues).1
    · cases hread

/-- A fault comes after some of the arguments, and if it is an argument that is no literal, after
that one. -/
theorem exists_consumed_of_read {fault : Error}
    (hread : read operation words = (.error fault, rest)) :
    ∃ consumed ≤ argumentsOf operation, consumed ≤ words.length ∧ rest = words.drop consumed ∧
      ∀ token, fault = .literal token → (Mnemonic.ofWord? operation).isSome = true →
        ∃ front word, words.take consumed = front ++ [word] ∧
          Literal.parse (word.take argumentLimit) = none ∧
          token = String.ofList (word.take argumentLimit) := by
  cases hname : Mnemonic.ofWord? operation with
  | none =>
    simp only [read, argumentsOf, hname] at hread ⊢
    refine ⟨0, Nat.le_refl _, Nat.zero_le _, ?_, fun token hfault hnamed => by cases hnamed⟩
    split at hread
    · cases hread
    · exact (Prod.mk.inj hread).2.symm
  | some mnemonic =>
    simp only [read, argumentsOf, hname] at hread ⊢
    split at hread
    · next values tail hvalues =>
      obtain ⟨hfault, rfl⟩ := Prod.mk.inj hread
      obtain ⟨hlength, hrest⟩ := length_of_readLiterals hvalues
      refine ⟨mnemonic.argumentCount, Nat.le_refl _, hlength, hrest, ?_⟩
      rintro token rfl
      obtain ⟨value, hrange | hrange⟩ := exists_range_of_ofArguments hfault <;> cases hrange
    · next fault' tail hliterals =>
      cases hread
      obtain ⟨consumed, hle, hlength, hrest, hcause⟩ := exists_consumed_of_readLiterals hliterals
      refine ⟨consumed, hle, hlength, hrest, ?_⟩
      rintro token rfl -
      rcases hcause with hmissing | ⟨front, word, htake, hparse, hword⟩
      · cases hmissing
      · exact ⟨front, word, htake, hparse, Error.literal.inj hword⟩

theorem length_encode (instr : Instr) : 1 ≤ instr.encode.length ∧ instr.encode.length ≤ 6 := by
  cases instr with
  | rawByte value => exact ⟨Nat.le_refl 1, Nat.le_of_ble_eq_true rfl⟩
  | note pitch => exact ⟨Nat.le_refl 1, Nat.le_of_ble_eq_true rfl⟩
  | delay ticks =>
    by_cases hshort : ticks.count ≤ 64
    · simp [encode, Ticks.encode_of_le hshort]
    · have hle := Varint.length_encode_le (UInt32.ofNat (ticks.count - 65))
      simp only [encode, Ticks.encode_of_lt (Nat.lt_of_not_le hshort), List.length_cons]
      omega
  | control op operands =>
    have harity : op.arity ≤ 4 := by cases op <;> decide
    simp only [encode, List.length_cons, Vector.length_toList]
    omega

end Instr

/-! ### All of an instruction or none -/

/-- The cursor behind so many arguments. -/
def pastArguments (count : Nat) (text : List Char) : List Char :=
  cursorAfter text (List.replicate count argumentLimit)

theorem words_pastArguments (count : Nat) (text : List Char) :
    words (pastArguments count text) = (words text).drop count := by
  rw [pastArguments, words_cursorAfter, List.length_replicate]

/-- The operation, with the arguments at the cursor, is emitted as `bytes`. They come from its words
alone: any buffer gets them, and so does any other cursor with the same arguments. -/
structure Appends (operation : Word) (text : List Char) (bytes : List UInt8) : Prop where
  one_le_length : 1 ≤ bytes.length
  length_le : bytes.length ≤ 6
  argumentsOf_le : argumentsOf operation ≤ (words text).length
  emit_eq : ∀ (buffer : ByteBuffer) (other : List Char),
    (words other).take (argumentsOf operation) = (words text).take (argumentsOf operation) →
    buffer.emit operation (words other) =
      ⟨none, buffer.extend bytes, words (pastArguments (argumentsOf operation) other)⟩
  toList_data : ∀ buffer : ByteBuffer,
    (buffer.emit operation (words text)).data.toList = buffer.toList ++ bytes

/-- The operation is not emitted at the cursor, whatever the buffer, which stays as it is. So many
words behind the operation are consumed. -/
structure Refuses (operation : Word) (text : List Char) (fault : Error) (consumed : Nat) : Prop where
  emit_eq : ∀ buffer : ByteBuffer,
    buffer.emit operation (words text) = ⟨some fault, buffer, words (pastArguments consumed text)⟩
  cause : (∃ cause, fault = .grammar cause) ∨ (∃ cause, fault = .range cause) ∨
    ∃ token, fault = .literal token
  consumed_le : consumed ≤ argumentsOf operation
  consumed_le_length : consumed ≤ (words text).length
  offending : ∀ token, fault = .literal token → (Mnemonic.ofWord? operation).isSome = true →
    ∃ front word, (words text).take consumed = front ++ [word] ∧
      Literal.parse (word.take 31) = none ∧ token = String.ofList (word.take 31)

theorem Appends.of_read {operation : Word} {text : List Char} {instr : Instr} {rest : List Word}
    (hread : Instr.read operation (words text) = (.ok instr, rest)) :
    Appends operation text instr.encode where
  one_le_length := instr.length_encode.1
  length_le := instr.length_encode.2
  argumentsOf_le := Instr.argumentsOf_le_of_read hread
  emit_eq := by
    intro buffer other hother
    rw [ByteBuffer.emit_eq_read, Instr.read_of_take hread hother, words_pastArguments]
  toList_data := by
    intro buffer
    rw [ByteBuffer.emit_eq_read, hread]
    exact Buffer.toList_extend buffer instr.encode

theorem Error.cause_of_isOfText {fault : Error} (hfault : fault.isOfText = true) :
    (∃ cause, fault = .grammar cause) ∨ (∃ cause, fault = .range cause) ∨
      ∃ token, fault = .literal token := by
  cases fault with
  | grammar cause => exact Or.inl ⟨cause, rfl⟩
  | range cause => exact Or.inr (Or.inl ⟨cause, rfl⟩)
  | literal token => exact Or.inr (Or.inr ⟨token, rfl⟩)
  | tooLarge | emptyInput | outOfMemory | input => cases hfault

theorem Refuses.of_read {operation : Word} {text : List Char} {fault : Error} {rest : List Word}
    (hread : Instr.read operation (words text) = (.error fault, rest)) :
    ∃ consumed, Refuses operation text fault consumed := by
  obtain ⟨consumed, hle, hlength, hrest, hoffending⟩ := Instr.exists_consumed_of_read hread
  refine ⟨consumed, ?_, Error.cause_of_isOfText (Instr.isOfText_of_read hread), hle, hlength,
    hoffending⟩
  intro buffer
  rw [ByteBuffer.emit_eq_read, hread, words_pastArguments, hrest]

/-- At every cursor an operation either appends its bytes, one to six of them that no buffer has a
part in, and consumes just its arguments; or it appends nothing, consumes no more than its arguments,
and if one of them is no literal, nothing behind that one. -/
theorem ByteBuffer.emit_appends_or_refuses (operation : Word) (text : List Char) :
    (∃ bytes, Appends operation text bytes) ∨
      ∃ fault consumed, Refuses operation text fault consumed := by
  cases hread : Instr.read operation (words text) with
  | mk result rest =>
    cases result with
    | ok instr => exact Or.inl ⟨instr.encode, Appends.of_read hread⟩
    | error fault => exact Or.inr ⟨fault, Refuses.of_read hread⟩

-- The second of four arguments is no literal: it is consumed, and those behind it are not.
example : ByteBuffer.emit .empty "GOTO_ADVANCED".toList
      ["1".toList, "two".toList, "3".toList, "4".toList] =
    ⟨some (.literal "two"), .empty, ["3".toList, "4".toList]⟩ := by decide +kernel

end Chiptune
