import Chiptune.Proofs.Score.Reading
import Chiptune.Proofs.Text.Utf8
import Chiptune.Song.Load

/-!
# Loaded songs

A song that is loaded from a feed or from a file is the song that its text compiles to, and nothing
is compiled that was cut off (`Song.compile_loaded`). The feed is read one byte past the limit, so
an input that is too large is told from one that just fits, and its size is checked before its bytes
are taken for text: a cut in the middle of a character is never seen. Only the size reported
differs, since a feed is not read to its end.

The limit is below the greatest 64-bit number, so that one more than it is a number still. Loading
then always comes to a song or a fault (`Song.compileFeed?_eq`).
-/

namespace Chiptune

open Text

namespace Song

variable {maxTextSize : UInt64} {bytes : List UInt8}

theorem checkSize_of_fits (hne : bytes ≠ []) (hfits : bytes.length ≤ maxTextSize.toNat) :
    checkSize maxTextSize bytes.length = .ok () := by
  have hpos : bytes.length ≠ 0 := mt List.eq_nil_of_length_eq_zero hne
  rw [checkSize, if_neg hpos, if_neg (Nat.not_lt.2 hfits)]

theorem checkSize_of_long {size : Nat} (hlong : maxTextSize.toNat < size) :
    checkSize maxTextSize size = .error (.tooLarge size maxTextSize.toNat) := by
  rw [checkSize, if_neg (by omega), if_pos hlong]

section

variable (hlimit : maxTextSize.toNat < UInt64.size - 1)
include hlimit

theorem toNat_succ_limit : (maxTextSize + 1).toNat = maxTextSize.toNat + 1 := by
  rw [UInt64.toNat_add, UInt64.toNat_one]
  apply Nat.mod_eq_of_lt
  exact Nat.lt_sub_iff_add_lt.1 hlimit

theorem compileFeed?_eq (feed : Feed) : compileFeed? maxTextSize feed =
    some ((feed.take (maxTextSize.toNat + 1)).bind fun taken =>
      (checkSize maxTextSize taken.length).bind fun _ => compileBytes taken) := by
  have hread : readLimit? maxTextSize = some (maxTextSize + 1) :=
    if_pos (Nat.lt_sub_iff_add_lt.1 hlimit)
  rw [compileFeed?, hread, Option.map_some, compileRead, toNat_succ_limit hlimit]
  rfl

/-- Whether a feed fails behind its bytes does not matter if there are too many of them. -/
theorem compileFeed?_of_long {feed : Feed} (hlong : maxTextSize.toNat < feed.bytes.length) :
    compileFeed? maxTextSize feed =
      some (.error (.tooLarge (maxTextSize.toNat + 1) maxTextSize.toNat)) := by
  have htake : feed.take (maxTextSize.toNat + 1) =
      .ok (feed.bytes.take (maxTextSize.toNat + 1)) := by
    unfold Feed.take
    split
    · rw [if_neg (Nat.not_lt.2 hlong)]
    · rfl
  -- The one byte past the limit is what shows that there are too many.
  have hlength : (feed.bytes.take (maxTextSize.toNat + 1)).length = maxTextSize.toNat + 1 :=
    List.length_take_of_le hlong
  have hsize := checkSize_of_long (Nat.lt_succ_self maxTextSize.toNat)
  simp only [compileFeed?_eq hlimit, htake, hlength, hsize, Except.bind]

theorem compileFeed?_nil : compileFeed? maxTextSize ⟨[], none⟩ = some (.error .emptyInput) := by
  rw [compileFeed?_eq hlimit, Feed.take, List.take_nil]
  rfl

theorem compileFeed?_of_fits (hne : bytes ≠ []) (hfits : bytes.length ≤ maxTextSize.toNat) :
    compileFeed? maxTextSize ⟨bytes, none⟩ = some (compileBytes bytes) := by
  have htake : Feed.take ⟨bytes, none⟩ (maxTextSize.toNat + 1) = .ok bytes :=
    congrArg Except.ok (List.take_of_length_le (Nat.le_succ_of_le hfits))
  simp only [compileFeed?_eq hlimit, htake, checkSize_of_fits hne hfits, Except.bind]

theorem compileFeed?_of_failing (hfits : bytes.length ≤ maxTextSize.toNat) (reason : String) :
    compileFeed? maxTextSize ⟨bytes, some reason⟩ =
      some (.error (.input (.readFailed reason))) := by
  have htake : Feed.take ⟨bytes, some reason⟩ (maxTextSize.toNat + 1) =
      .error (.input (.readFailed reason)) :=
    if_pos (Nat.lt_succ_of_le hfits)
  simp only [compileFeed?_eq hlimit, htake, Except.bind]

end

theorem compileFileBytes?_of_long (hlong : maxTextSize.toNat < bytes.length) :
    compileFileBytes? maxTextSize bytes =
      some (.error (.tooLarge bytes.length maxTextSize.toNat)) := by
  rw [compileFileBytes?, checkSize_of_long hlong]

theorem compileFileBytes?_of_fits (hne : bytes ≠ []) (hfits : bytes.length ≤ maxTextSize.toNat) :
    compileFileBytes? maxTextSize bytes = compileFeed? maxTextSize ⟨bytes, none⟩ := by
  rw [compileFileBytes?, checkSize_of_fits hne hfits]

theorem compileFile?_of_lookUp {directory : Directory} {path : String}
    (hfile : directory.lookUp path = .ok (.file bytes)) :
    compileFile? maxTextSize directory path = compileFileBytes? maxTextSize bytes := by
  rw [compileFile?, hfile]

theorem compileBytes_encode (text : List Char) :
    compileBytes (Utf8.encode text) = compile text := by
  rw [compileBytes, Utf8.decode_eq_ok_iff.2 rfl]

theorem exists_fault_of_compileBytes (hbytes : ∀ text, Utf8.encode text ≠ bytes) :
    ∃ fault, compileBytes bytes = .error (.input (.notText bytes fault)) := by
  unfold compileBytes
  split
  · next text hdecode => exact absurd (Utf8.decode_eq_ok_iff.1 hdecode) (hbytes text)
  · next fault _ => exact ⟨fault, rfl⟩

/-- A file and a feed with the same bytes hold the same song, or none either of them. -/
theorem loadFile_cases {directory : Directory} {path : String}
    (hfile : directory.lookUp path = .ok (.file bytes)) :
    (∃ song, loadFile directory path = .ok song ∧ loadFeed ⟨bytes, none⟩ = .ok song) ∨
    ∃ fault fault', loadFile directory path = .error fault ∧
      loadFeed ⟨bytes, none⟩ = .error fault' := by
  have hlimit : defaultMaxTextSize.toNat < UInt64.size - 1 := by decide
  simp only [loadFile_eq_iff, loadFeed_eq_iff, compileFile?_of_lookUp hfile]
  by_cases hlong : defaultMaxTextSize.toNat < bytes.length
  · exact .inr ⟨_, _, compileFileBytes?_of_long hlong, compileFeed?_of_long hlimit hlong⟩
  · by_cases hempty : bytes = []
    · subst hempty
      exact .inr ⟨.emptyInput, .emptyInput, rfl, compileFeed?_nil hlimit⟩
    · rw [compileFileBytes?_of_fits hempty (Nat.not_lt.1 hlong),
        compileFeed?_of_fits hlimit hempty (Nat.not_lt.1 hlong)]
      cases compileBytes bytes with
      | ok song => exact .inl ⟨song, rfl, rfl⟩
      | error fault => exact .inr ⟨fault, fault, rfl, rfl⟩

/-- A feed and a file with the same bytes load alike. Bytes that are not text, and a feed that
fails, are only reported if the input is not too large. -/
theorem compile_loaded {maxTextSize : UInt64} (hlimit : maxTextSize.toNat < UInt64.size - 1)
    (bytes : List UInt8) {directory : Directory} {path : String}
    (hfile : directory.lookUp path = .ok (.file bytes)) :
    (bytes = [] → compileFeed? maxTextSize ⟨bytes, none⟩ = some (.error .emptyInput) ∧
      compileFile? maxTextSize directory path = some (.error .emptyInput)) ∧
    (maxTextSize.toNat < bytes.length →
      compileFeed? maxTextSize ⟨bytes, none⟩ =
        some (.error (.tooLarge (maxTextSize.toNat + 1) maxTextSize.toNat)) ∧
      compileFile? maxTextSize directory path =
        some (.error (.tooLarge bytes.length maxTextSize.toNat))) ∧
    (bytes ≠ [] → bytes.length ≤ maxTextSize.toNat → (∀ text, Utf8.encode text ≠ bytes) →
      ∃ fault,
        compileFeed? maxTextSize ⟨bytes, none⟩ = some (.error (.input (.notText bytes fault))) ∧
        compileFile? maxTextSize directory path = some (.error (.input (.notText bytes fault)))) ∧
    (∀ text, bytes ≠ [] → bytes.length ≤ maxTextSize.toNat → Utf8.encode text = bytes →
      compileFeed? maxTextSize ⟨bytes, none⟩ = some (compile text) ∧
        compileFile? maxTextSize directory path = some (compile text)) ∧
    ∀ reason, compileFeed? maxTextSize ⟨bytes, some reason⟩ = some (
      if bytes.length ≤ maxTextSize.toNat then .error (.input (.readFailed reason))
      else .error (.tooLarge (maxTextSize.toNat + 1) maxTextSize.toNat)) := by
  rw [compileFile?_of_lookUp hfile]
  refine ⟨?_, ?_, ?_, ?_, ?_⟩
  · rintro rfl
    exact ⟨compileFeed?_nil hlimit, rfl⟩
  · intro hlong
    exact ⟨compileFeed?_of_long hlimit hlong, compileFileBytes?_of_long hlong⟩
  · intro hne hfits hbytes
    obtain ⟨fault, hfault⟩ := exists_fault_of_compileBytes hbytes
    rw [compileFileBytes?_of_fits hne hfits, compileFeed?_of_fits hlimit hne hfits, hfault]
    exact ⟨fault, rfl, rfl⟩
  · rintro text hne hfits rfl
    rw [compileFileBytes?_of_fits hne hfits, compileFeed?_of_fits hlimit hne hfits,
      compileBytes_encode]
    exact ⟨rfl, rfl⟩
  · intro reason
    split
    · next hfits => exact compileFeed?_of_failing hlimit hfits reason
    · next hlong => exact compileFeed?_of_long hlimit (Nat.lt_of_not_le hlong)

/-- A text with a remark behind its end mark, whose last character takes two bytes. -/
def remarkText : List Char := "ATM1 ENTRY 1 2 3 4 TRACK NOTE 5 ENDTRACK END Ü".toList

/-- A directory with that text in a file. -/
def remarkDirectory : Directory := ⟨[("remark.atm", Utf8.encode remarkText)]⟩

/-- Up to the limit the remark is read with the song. Below it the song is refused, although all of
it lies in front of the cut, which goes through the last character. -/
theorem compile_loaded_remarkText :
    compileFeed? 47 ⟨Utf8.encode remarkText, none⟩ =
      some (.ok ⟨none, #v[1, 2, 3, 4], [0], [5]⟩) ∧
    compileFile? 47 remarkDirectory "./remark.atm" =
      some (.ok ⟨none, #v[1, 2, 3, 4], [0], [5]⟩) ∧
    compileFeed? 45 ⟨Utf8.encode remarkText, none⟩ = some (.error (.tooLarge 46 45)) ∧
    compileFile? 45 remarkDirectory "./remark.atm" = some (.error (.tooLarge 47 45)) := by
  have hfile : remarkDirectory.lookUp "./remark.atm" = .ok (.file (Utf8.encode remarkText)) := by
    decide +kernel
  have hlength : (Utf8.encode remarkText).length = 47 := by decide +kernel
  have hne : Utf8.encode remarkText ≠ [] := List.ne_nil_of_length_eq_add_one hlength
  have hcompile : compile remarkText = .ok ⟨none, #v[1, 2, 3, 4], [0], [5]⟩ := by decide +kernel
  have hwide : (47 : UInt64).toNat < UInt64.size - 1 := by decide
  have hnarrow : (45 : UInt64).toNat < UInt64.size - 1 := by decide
  obtain ⟨-, -, -, hloaded, -⟩ := compile_loaded hwide _ hfile
  obtain ⟨hfeed, hread⟩ := hloaded remarkText hne (Nat.le_of_eq hlength) rfl
  obtain ⟨-, hlong, -⟩ := compile_loaded hnarrow _ hfile
  obtain ⟨hcut, hmeasured⟩ := hlong (by rw [hlength]; decide)
  rw [hcompile] at hfeed hread
  rw [hlength] at hmeasured
  exact ⟨hfeed, hread, hcut, hmeasured⟩

end Song

end Chiptune
