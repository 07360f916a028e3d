import Chiptune.Proofs.Song.Loading

/-!
# Raising the limit

The limit on the size of a text decides only what is too large. Raised, it lets through what it let
through before, and nothing else about the outcome changes (`Song.compileFeed?_of_le`): not the
song, and no fault but that of its size.

The greatest 64-bit number is no such limit. One more than it is no 64-bit number, and the sum is
taken before anything is read, so that loading breaks off whatever the feed holds
(`Song.compileFeed?_eq_none_iff`). Whoever asks for no limit in this way gets no song, and no fault
either.
-/

namespace Chiptune.Song

open Text

theorem compileFeed?_eq_none_iff {maxTextSize : UInt64} {feed : Feed} :
    compileFeed? maxTextSize feed = none ↔ maxTextSize = 18446744073709551615 := by
  constructor
  · intro hnone
    apply UInt64.toNat_inj.1
    by_contra hne
    have hlt : maxTextSize.toNat < UInt64.size := maxTextSize.toNat_lt_size
    have hlimit : maxTextSize.toNat < UInt64.size - 1 :=
      Nat.lt_of_le_of_ne (Nat.le_sub_one_of_lt hlt) hne
    rw [compileFeed?_eq hlimit] at hnone
    cases hnone
  · rintro rfl
    rfl

/-- A higher limit changes nothing about a feed that was not too large. -/
theorem compileFeed?_of_le {lower upper : UInt64} (hle : lower ≤ upper)
    (hupper : upper.toNat < UInt64.size - 1) {feed : Feed}
    (hadmitted : ∀ size max, compileFeed? lower feed ≠ some (.error (.tooLarge size max))) :
    compileFeed? upper feed = compileFeed? lower feed := by
  have hle' := UInt64.le_iff_toNat_le.1 hle
  have hlower := Nat.lt_of_le_of_lt hle' hupper
  have hfits : feed.bytes.length ≤ lower.toNat := by
    apply Nat.le_of_not_lt
    intro hlong
    exact hadmitted _ _ (compileFeed?_of_long hlower hlong)
  have hfits' := Nat.le_trans hfits hle'
  obtain ⟨bytes, failure⟩ := feed
  cases failure with
  | some reason =>
    rw [compileFeed?_of_failing hlower hfits, compileFeed?_of_failing hupper hfits']
  | none =>
    by_cases hempty : bytes = []
    · subst hempty
      rw [compileFeed?_nil hlower, compileFeed?_nil hupper]
    · rw [compileFeed?_of_fits hlower hempty hfits, compileFeed?_of_fits hupper hempty hfits']

/-- Up to the last limit but one, raising it keeps every song, every fault of a song and every fault
of bytes that are no text. Under the last one, and no other, loading breaks off on every feed. -/
theorem compileFeed?_raised {lower upper : UInt64} (hle : lower ≤ upper)
    (hupper : upper.toNat < UInt64.size - 1) (feed : Feed) :
    (∀ song, compileFeed? lower feed = some (.ok song) →
      compileFeed? upper feed = some (.ok song)) ∧
    (∀ fault, (fault.isCompileError = true ∨ ∃ bytes place, fault = .input (.notText bytes place)) →
      compileFeed? lower feed = some (.error fault) →
      compileFeed? upper feed = some (.error fault)) ∧
    ∀ maxTextSize, compileFeed? maxTextSize feed = none ↔ maxTextSize = 18446744073709551615 := by
  refine ⟨?_, ?_, fun maxTextSize => compileFeed?_eq_none_iff⟩
  · intro song hsong
    rw [← hsong]
    apply compileFeed?_of_le hle hupper
    intro size max hlarge
    rw [hsong] at hlarge
    cases hlarge
  · intro fault hkind hfault
    rw [← hfault]
    apply compileFeed?_of_le hle hupper
    intro size max hlarge
    rw [hfault] at hlarge
    cases hlarge
    obtain hkind | ⟨bytes, place, hkind⟩ := hkind
    · cases hkind
    · cases hkind

/-- The bytes of a song that just fits a limit of 42. -/
def shortBytes : List UInt8 := Utf8.encode "ATM1 ENTRY 0,0,0,0 TRACK STOP ENDTRACK END".toList

/-- The limit is raised as far as it can be. -/
theorem compileFeed?_raised_shortBytes :
    compileFeed? 42 ⟨shortBytes, none⟩ = some (.ok ⟨none, #v[0, 0, 0, 0], [0], [159]⟩) ∧
    compileFeed? 18446744073709551614 ⟨shortBytes, none⟩ =
      some (.ok ⟨none, #v[0, 0, 0, 0], [0], [159]⟩) := by
  have hsong : compileFeed? 42 ⟨shortBytes, none⟩ =
      some (.ok ⟨none, #v[0, 0, 0, 0], [0], [159]⟩) := by
    decide +kernel
  have hraised := compileFeed?_raised (by decide : (42 : UInt64) ≤ 18446744073709551614)
    (by decide) ⟨shortBytes, none⟩
  exact ⟨hsong, hraised.1 _ hsong⟩

/-- One step further, nothing comes of the song. -/
theorem compileFeed?_greatest_shortBytes :
    compileFeed? 42 ⟨shortBytes, none⟩ = some (.ok ⟨none, #v[0, 0, 0, 0], [0], [159]⟩) ∧
    compileFeed? 18446744073709551615 ⟨shortBytes, none⟩ = none :=
  ⟨by decide +kernel, compileFeed?_eq_none_iff.2 rfl⟩

end Chiptune.Song
