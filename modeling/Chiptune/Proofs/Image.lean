import Chiptune.Image
import Mathlib.Logic.ExistsUnique

/-!
# Reading images back

An offset is written as two bytes, and the number of offsets stands in front of them, so `read?`
finds the parts that `write` put together (`read?_of_write`). It finds parts in every byte string
that is long enough for the number it starts with, and those parts are written as that string
(`write_of_read?`), so such strings are exactly the images, each of one song.
-/

namespace Chiptune.Image

/-- The two bytes of an offset make the offset. -/
theorem ofBytes_offsetBytes (offset : UInt16) :
    (offset >>> 8).toUInt8.toUInt16 <<< 8 ||| offset.toUInt8.toUInt16 = offset := by
  apply UInt16.toNat_inj.1
  have hlt := offset.toNat_lt
  have hhigh : ((offset >>> 8).toUInt8.toUInt16 <<< 8).toNat = 2 ^ 8 * (offset.toNat / 256) := by
    simp only [UInt16.toNat_shiftLeft, UInt8.toNat_toUInt16, UInt16.toNat_toUInt8,
      UInt16.toNat_shiftRight]
    simp [Nat.shiftRight_eq_div_pow, Nat.shiftLeft_eq]
    omega
  have hlow : offset.toUInt8.toUInt16.toNat = offset.toNat % 256 := by simp
  rw [UInt16.toNat_or, hhigh, hlow, ← Nat.two_pow_add_eq_or_of_lt (by omega)]
  omega

theorem takeOffsets?_flatMap (offsets : List UInt16) (rest : List UInt8) :
    takeOffsets? offsets.length (offsets.flatMap offsetBytes ++ rest) = some (offsets, rest) := by
  induction offsets with
  | nil => rfl
  | cons offset offsets ih =>
    simp only [List.length_cons, List.flatMap_cons, offsetBytes, List.cons_append, List.nil_append,
      takeOffsets?, ih, Option.map_some, ofBytes_offsetBytes]

theorem length_offsetBytes (offsets : List UInt16) :
    (offsets.flatMap offsetBytes).length = 2 * offsets.length := by
  induction offsets with
  | nil => rfl
  | cons offset offsets ih =>
    rw [List.flatMap_cons, List.length_append, ih, List.length_cons]
    simp only [offsetBytes, List.length_cons, List.length_nil]
    omega

theorem exists_eq_of_entry (entry : Entry) : ∃ a b c d, entry = #v[a, b, c, d] := by
  refine ⟨entry[0], entry[1], entry[2], entry[3], ?_⟩
  ext index hindex
  match index with
  | 0 | 1 | 2 | 3 => rfl

/-- The parts of an image are those it was written from. -/
theorem read?_of_write {offsets : List UInt16} {entry : Entry} {data image : List UInt8}
    (hwrite : write offsets entry data = .ok image) :
    read? image = some (offsets, entry, data) := by
  unfold write at hwrite
  split at hwrite
  · cases hwrite
  · next hcount =>
    cases hwrite
    have hmax : offsets.length ≤ 255 := by
      unfold maxTracks at hcount
      omega
    have hnat : (UInt8.ofNat offsets.length).toNat = offsets.length :=
      UInt8.toNat_ofNat_of_lt (Nat.lt_succ_of_le hmax)
    have hne : UInt8.ofNat offsets.length ≠ 0 := by
      intro hzero
      rw [hzero] at hnat
      exact hcount (Or.inl hnat.symm)
    obtain ⟨a, b, c, d, rfl⟩ := exists_eq_of_entry entry
    rw [read?, if_neg hne, hnat, takeOffsets?_flatMap]
    rfl

theorem exists_write {offsets : List UInt16} (hone : 1 ≤ offsets.length)
    (hmax : offsets.length ≤ maxTracks) (entry : Entry) (data : List UInt8) :
    ∃ image, write offsets entry data = .ok image ∧
      image.length = length offsets.length data.length := by
  have hcount : ¬ (offsets.length = 0 ∨ maxTracks < offsets.length) := by omega
  refine ⟨_, if_neg hcount, ?_⟩
  simp only [List.length_cons, List.length_append, length_offsetBytes, Vector.length_toList, length]
  omega

/-! ### Every long enough string is an image -/

/-- Two bytes are those of the offset that they make. -/
theorem offsetBytes_ofBytes (low high : UInt8) :
    offsetBytes (high.toUInt16 <<< 8 ||| low.toUInt16) = [low, high] := by
  have hlow := low.toNat_lt
  have hhigh := high.toNat_lt
  have hword : (high.toUInt16 <<< 8 ||| low.toUInt16).toNat = 256 * high.toNat + low.toNat := by
    have hshift : (high.toUInt16 <<< 8).toNat = 2 ^ 8 * high.toNat := by
      simp [Nat.shiftLeft_eq]
      omega
    rw [UInt16.toNat_or, hshift, UInt8.toNat_toUInt16, ← Nat.two_pow_add_eq_or_of_lt (by omega)]
  rw [offsetBytes]
  congr 1
  · apply UInt8.toNat_inj.1
    rw [UInt16.toNat_toUInt8, hword]
    omega
  · congr 1
    apply UInt8.toNat_inj.1
    simp [hword, Nat.shiftRight_eq_div_pow]
    omega

theorem eq_of_takeOffsets? {count : Nat} {bytes rest : List UInt8} {offsets : List UInt16}
    (htake : takeOffsets? count bytes = some (offsets, rest)) :
    offsets.length = count ∧ bytes = offsets.flatMap offsetBytes ++ rest := by
  fun_induction takeOffsets? count bytes generalizing offsets rest with
  | case1 bytes =>
    cases htake
    exact ⟨rfl, rfl⟩
  | case2 count low high bytes ih =>
    obtain ⟨⟨others, rest'⟩, hothers, heq⟩ := Option.map_eq_some_iff.1 htake
    cases heq
    obtain ⟨hlength, hbytes⟩ := ih hothers
    refine ⟨by rw [List.length_cons, hlength], ?_⟩
    rw [List.flatMap_cons, offsetBytes_ofBytes, hbytes]
    rfl
  | case3 => cases htake

theorem exists_takeOffsets? {count : Nat} {bytes : List UInt8} (hlength : 2 * count ≤ bytes.length) :
    ∃ offsets rest, takeOffsets? count bytes = some (offsets, rest) := by
  fun_induction takeOffsets? count bytes with
  | case1 bytes => exact ⟨[], bytes, rfl⟩
  | case2 count low high bytes ih =>
    simp only [List.length_cons] at hlength
    obtain ⟨offsets, rest, htake⟩ := ih (by omega)
    exact ⟨_, _, by rw [htake]; rfl⟩
  | case3 count bytes hshort =>
    rcases bytes with _ | ⟨low, _ | ⟨high, bytes⟩⟩
    · simp only [List.length_nil] at hlength
      omega
    · simp only [List.length_cons, List.length_nil] at hlength
      omega
    · exact absurd rfl (hshort low high bytes)

/-- What is found in a byte string is written as that string. -/
theorem write_of_read? {offsets : List UInt16} {entry : Entry} {data image : List UInt8}
    (hread : read? image = some (offsets, entry, data)) : write offsets entry data = .ok image := by
  unfold read? at hread
  split at hread
  · cases hread
  · next count bytes =>
    split at hread
    · cases hread
    · next hzero =>
      split at hread
      · next found a b c d rest htake =>
        cases hread
        obtain ⟨hlength, rfl⟩ := eq_of_takeOffsets? htake
        have hpos : count.toNat ≠ 0 := fun heq => hzero (UInt8.toNat_inj.1 heq)
        have hlt := count.toNat_lt
        have hcount : ¬ (offsets.length = 0 ∨ maxTracks < offsets.length) := by
          unfold maxTracks
          omega
        rw [write, if_neg hcount, hlength, UInt8.ofNat_toNat]
        rfl
      · cases hread

theorem exists_read? {count : UInt8} {bytes : List UInt8} (hone : 1 ≤ count.toNat)
    (hlength : 5 + 2 * count.toNat ≤ (count :: bytes).length) :
    ∃ parts, read? (count :: bytes) = some parts := by
  have hne : count ≠ 0 := by
    rintro rfl
    exact absurd hone (by decide)
  rw [List.length_cons] at hlength
  obtain ⟨offsets, rest, htake⟩ :=
    exists_takeOffsets? (show 2 * count.toNat ≤ bytes.length by omega)
  obtain ⟨hcount, hbytes⟩ := eq_of_takeOffsets? htake
  have hrest : 4 ≤ rest.length := by
    have hsum := congrArg List.length hbytes
    rw [List.length_append, length_offsetBytes] at hsum
    omega
  rw [read?, if_neg hne, htake]
  rcases rest with _ | ⟨a, _ | ⟨b, _ | ⟨c, _ | ⟨d, data⟩⟩⟩⟩
  case cons.cons.cons.cons => exact ⟨_, rfl⟩
  all_goals exact absurd hrest (by simp)

theorem write_eq_error_iff {offsets : List UInt16} {entry : Entry} {data : List UInt8}
    {fault : Error} : write offsets entry data = .error fault ↔
      (offsets.length = 0 ∨ maxTracks < offsets.length) ∧
        fault = .range (.trackCount offsets.length) := by
  unfold write
  split
  · next hcount =>
    rw [Except.error.injEq, eq_comm]
    exact ⟨fun heq => ⟨hcount, heq⟩, And.right⟩
  · next hcount => exact ⟨nofun, fun herror => absurd herror.1 hcount⟩

/-- Writing images can be undone, and is undone by reading them. Between one and 255 offsets of any
values, any entry and any data make an image, from which they are read back; and a byte string is the
image of just one song if it is long enough for the number of offsets that it starts with. -/
theorem write_invertible (offsets : List UInt16) (entry : Entry) (data : List UInt8) :
    ((∃ fault, write offsets entry data = .error fault) ↔
      offsets.length = 0 ∨ 255 < offsets.length) ∧
    (∀ fault, write offsets entry data = .error fault →
      fault = .range (.trackCount offsets.length)) ∧
    (1 ≤ offsets.length → offsets.length ≤ 255 → ∃ image, write offsets entry data = .ok image ∧
      image.length = length offsets.length data.length ∧
      read? image = some (offsets, entry, data)) ∧
    ∀ (count : UInt8) (bytes : List UInt8), 1 ≤ count.toNat →
      5 + 2 * count.toNat ≤ (count :: bytes).length →
      ∃! parts : List UInt16 × Entry × List UInt8,
        write parts.1 parts.2.1 parts.2.2 = .ok (count :: bytes) := by
  refine ⟨?_, ?_, ?_, ?_⟩
  · simp only [write_eq_error_iff, exists_and_left, exists_eq, and_true]
    rfl
  · intro fault hwrite
    exact (write_eq_error_iff.1 hwrite).2
  · intro hone hmax
    obtain ⟨image, hwrite, hlength⟩ := exists_write hone hmax entry data
    exact ⟨image, hwrite, hlength, read?_of_write hwrite⟩
  · intro count bytes hone hlength
    obtain ⟨parts, hread⟩ := exists_read? hone hlength
    refine ⟨parts, write_of_read? hread, ?_⟩
    intro parts' hwrite'
    exact Option.some.inj ((read?_of_write hwrite').symm.trans hread)

/-- Offsets out of order and past the data. -/
theorem write_invertible_strayOffsets :
    (∃ image, write [513, 2] #v[1, 2, 3, 4] [159] = .ok image ∧ image.length = length 2 1 ∧
      read? image = some ([513, 2], #v[1, 2, 3, 4], [159])) ∧
    ∃! parts : List UInt16 × Entry × List UInt8,
      write parts.1 parts.2.1 parts.2.2 = .ok [1, 255, 0, 9, 8, 7, 6] := by
  obtain ⟨-, -, hwrite, hread⟩ := write_invertible [513, 2] #v[1, 2, 3, 4] [159]
  exact ⟨hwrite (by decide) (by decide), hread 1 [255, 0, 9, 8, 7, 6] (by decide) (by decide)⟩

end Chiptune.Image
