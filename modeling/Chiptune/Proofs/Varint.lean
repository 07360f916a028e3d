import Chiptune.Varint
import Mathlib.Algebra.Order.Floor.Div
import Mathlib.Data.Nat.Size

/-!
# The form of a variable-length number

The groups of a number are collected from the last one backwards and read from the first one
forwards. `leadingGroups` is the form in between: a recursion on the number itself, which
`encode_eq_leadingGroups` shows to be what is written, and which the reader undoes step by step
(`decodeFrom_leadingGroups`).

A number of 32 bits takes one to five groups, so collecting them never ends for want of room. How many
there are follows from one fact, `length_encode_le_iff`: as few groups as hold the number are enough.
`encode_canonical` puts together what makes this the one form of the number.
-/

namespace Chiptune.Varint

/-! ### Groups as numbers -/

theorem toNat_group (value : UInt32) : ((value &&& 0x7F).toUInt8).toNat = value.toNat % 128 := by
  have hmask : value.toNat &&& 127 = value.toNat % 128 := Nat.and_two_pow_sub_one_eq_mod value.toNat 7
  have hgroup : (value &&& 0x7F).toNat = value.toNat % 128 := hmask
  rw [UInt32.toNat_toUInt8, hgroup]
  omega

theorem group_eq (value : UInt32) : (value &&& 0x7F).toUInt8 = UInt8.ofNat (value.toNat % 128) := by
  rw [← toNat_group, UInt8.ofNat_toNat]

theorem toNat_shift (value : UInt32) : (value >>> 7).toNat = value.toNat / 128 := by
  rw [UInt32.toNat_shiftRight]
  exact Nat.shiftRight_eq_div_pow value.toNat 7

theorem toNat_or_flag {group : UInt8} (hgroup : group.toNat < 128) :
    (group ||| 0x80).toNat = group.toNat + 128 := by
  have hor : 2 ^ 7 * 1 + group.toNat = 2 ^ 7 * 1 ||| group.toNat :=
    Nat.two_pow_add_eq_or_of_lt hgroup 1
  rw [UInt8.toNat_or, Nat.or_comm, Nat.add_comm]
  exact hor.symm

theorem shift_eq_zero_iff (value : UInt32) : value >>> 7 = 0 ↔ value.toNat / 128 = 0 := by
  rw [← UInt32.toNat_inj, toNat_shift, UInt32.toNat_zero]

theorem toNat_lt_of_mem_groups {room : Nat} {value : UInt32} {group : UInt8}
    (hgroup : group ∈ groups room value) : group.toNat < 128 := by
  induction room generalizing value with
  | zero => cases hgroup
  | succ room ih =>
    rw [groups, List.mem_cons] at hgroup
    obtain rfl | hmore := hgroup
    · rw [toNat_group]
      omega
    · split at hmore
      · cases hmore
      · exact ih hmore

/-- A number that fits the room needs no more of it. -/
theorem groups_eq_of_lt {room : Nat} {value : UInt32} (hvalue : value.toNat < 128 ^ (room + 1))
    (extra : Nat) : groups (room + 1 + extra) value = groups (room + 1) value := by
  induction room generalizing value with
  | zero =>
    have hzero : value >>> 7 = 0 := (shift_eq_zero_iff value).2 (by omega)
    rw [Nat.add_right_comm, groups, groups, if_pos hzero, if_pos hzero]
  | succ room ih =>
    rw [Nat.pow_succ] at hvalue
    rw [Nat.add_right_comm, groups, groups.eq_2 _ (room + 1),
      ih (show (value >>> 7).toNat < 128 ^ (room + 1) by rw [toNat_shift]; omega)]

/-! ### What is written -/

theorem flagged_concat (leading : List UInt8) (last : UInt8) :
    flagged (leading ++ [last]) = leading.map (· ||| 0x80) ++ [last] := by
  apply List.ext_getElem
  · simp [flagged]
  · intro index _ _
    simp only [flagged, List.getElem_mapIdx, List.getElem_append, List.length_append,
      List.length_singleton, List.length_map]
    by_cases hindex : index < leading.length
    · rw [if_pos (by omega), dif_pos hindex, dif_pos hindex, List.getElem_map]
    · rw [if_neg (by omega), dif_neg hindex, dif_neg hindex]

/-- The bytes of the groups above the last, which all carry the continuation bit, in front of
`tail`. -/
def leadingGroups (value : Nat) (tail : List UInt8) : List UInt8 :=
  if value = 0 then tail
  else leadingGroups (value / 128) (UInt8.ofNat (value % 128 + 128) :: tail)
termination_by value
decreasing_by omega

theorem leadingGroups_append (value : Nat) (tail rest : List UInt8) :
    leadingGroups value tail ++ rest = leadingGroups value (tail ++ rest) := by
  induction value using Nat.strongRecOn generalizing tail with
  | ind value ih =>
    rw [leadingGroups, leadingGroups.eq_1 value (tail ++ rest)]
    by_cases hzero : value = 0
    · rw [if_pos hzero, if_pos hzero]
    · rw [if_neg hzero, if_neg hzero, ih _ (by omega), List.cons_append]

theorem group_or_flag (value : UInt32) :
    (value &&& 0x7F).toUInt8 ||| 0x80 = UInt8.ofNat (value.toNat % 128 + 128) := by
  rw [← toNat_group, ← toNat_or_flag (by rw [toNat_group]; omega), UInt8.ofNat_toNat]

/-- Where there is room for all of a number, flagging its groups gives its leading groups. -/
theorem map_groups_append {room : Nat} {value : UInt32} (hvalue : value.toNat < 128 ^ room)
    (hnonzero : value.toNat ≠ 0) (tail : List UInt8) :
    (groups room value).reverse.map (· ||| 0x80) ++ tail = leadingGroups value.toNat tail := by
  induction room generalizing value tail with
  | zero =>
    rw [Nat.pow_zero] at hvalue
    omega
  | succ room ih =>
    rw [Nat.pow_succ] at hvalue
    rw [groups, leadingGroups, if_neg hnonzero, List.reverse_cons, List.map_append,
      List.append_assoc, List.map_singleton, group_or_flag, List.singleton_append]
    split
    · next hlast =>
      rw [(shift_eq_zero_iff value).1 hlast, leadingGroups, if_pos rfl]
      rfl
    · next hmore =>
      rw [shift_eq_zero_iff] at hmore
      rw [← toNat_shift] at hmore ⊢
      exact ih (by rw [toNat_shift]; omega) hmore _

theorem encode_eq_leadingGroups (value : UInt32) :
    encode value = leadingGroups (value.toNat / 128) [UInt8.ofNat (value.toNat % 128)] := by
  have hlt := value.toNat_lt
  rw [encode, maxGroups, groups, List.reverse_cons, flagged_concat, group_eq]
  split
  · next hlast =>
    rw [(shift_eq_zero_iff value).1 hlast, leadingGroups, if_pos rfl]
    rfl
  · next hmore =>
    rw [shift_eq_zero_iff, ← toNat_shift] at hmore
    rw [← toNat_shift]
    exact map_groups_append (by rw [toNat_shift]; omega) hmore _

/-- The continuation bit is on every byte but the last. -/
theorem flag_iff (value : UInt32) (index : Nat) (hindex : index < (encode value).length) :
    128 ≤ (encode value)[index].toNat ↔ index + 1 < (encode value).length := by
  have hlength : (encode value).length = (groups maxGroups value).reverse.length := List.length_mapIdx
  have hgroup : (groups maxGroups value).reverse[index].toNat < 128 :=
    toNat_lt_of_mem_groups (List.mem_reverse.1 (List.getElem_mem _))
  simp only [encode, flagged, List.getElem_mapIdx, List.length_mapIdx]
  split
  · next hmore =>
    rw [toNat_or_flag hgroup]
    omega
  · omega

/-! ### What is read -/

/-- Past its leading groups the reader holds the value that they stand for. -/
theorem decodeFrom_leadingGroups (value : Nat) (tail : List UInt8) :
    decodeFrom 0 (leadingGroups value tail) = decodeFrom value tail := by
  induction value using Nat.strongRecOn generalizing tail with
  | ind value ih =>
    rw [leadingGroups]
    by_cases hzero : value = 0
    · rw [if_pos hzero, hzero]
    · have hbyte : (UInt8.ofNat (value % 128 + 128)).toNat = value % 128 + 128 :=
        UInt8.toNat_ofNat_of_lt (show value % 128 + 128 < 256 by omega)
      have htotal : 128 * (value / 128) + (value % 128 + 128 - 128) = value := by omega
      rw [if_neg hzero, ih _ (by omega), decodeFrom, hbyte, if_neg (by omega), htotal]

/-- A number in front of any bytes is read back, and the bytes are left. -/
theorem decode?_encode (value : UInt32) (rest : List UInt8) :
    decode? (encode value ++ rest) = some (value.toNat, rest) := by
  have hbyte : (UInt8.ofNat (value.toNat % 128)).toNat = value.toNat % 128 :=
    UInt8.toNat_ofNat_of_lt (show value.toNat % 128 < 256 by omega)
  rw [decode?, encode_eq_leadingGroups, leadingGroups_append, decodeFrom_leadingGroups,
    List.singleton_append, decodeFrom, hbyte, if_pos (by omega), Nat.div_add_mod]

/-- No encoding begins another one. -/
theorem eq_of_isPrefix_encode {value other : UInt32} (hbegins : encode value <+: encode other) :
    value = other := by
  obtain ⟨rest, hrest⟩ := hbegins
  have hvalue := decode?_encode value rest
  have hother := decode?_encode other []
  rw [List.append_nil, ← hrest, hvalue, Option.some.injEq, Prod.mk.injEq] at hother
  exact UInt32.toNat_inj.1 hother.1

/-- A number is below the power of 128 that its groups can count. -/
theorem lt_of_decodeFrom {total value : Nat} {bytes rest : List UInt8}
    (hdecode : decodeFrom total bytes = some (value, rest)) :
    value < (total + 1) * 128 ^ (bytes.length - rest.length) := by
  induction bytes generalizing total with
  | nil => cases hdecode
  | cons byte tail ih =>
    have hbyte := byte.toNat_lt
    rw [decodeFrom] at hdecode
    split at hdecode
    · cases hdecode
      rw [List.length_cons, Nat.add_sub_cancel_left]
      omega
    · have hshorter := length_lt_of_decodeFrom hdecode
      have hcount : (byte :: tail).length - rest.length = tail.length - rest.length + 1 := by
        rw [List.length_cons]
        omega
      calc value < (128 * total + (byte.toNat - 128) + 1) * 128 ^ (tail.length - rest.length) :=
            ih hdecode
        _ ≤ ((total + 1) * 128) * 128 ^ (tail.length - rest.length) :=
            Nat.mul_le_mul_right _ (by omega)
        _ = (total + 1) * 128 ^ ((byte :: tail).length - rest.length) := by
            rw [hcount, Nat.mul_assoc, Nat.pow_succ']

/-- Bytes that are read are the groups of the number, if they do not begin with an empty group. -/
theorem leadingGroups_of_decodeFrom {total value : Nat} {bytes rest : List UInt8}
    (hdecode : decodeFrom total bytes = some (value, rest))
    (hfirst : total ≠ 0 ∨ bytes.head? ≠ some 0x80) :
    leadingGroups total bytes = leadingGroups (value / 128) (UInt8.ofNat (value % 128) :: rest) := by
  induction bytes generalizing total with
  | nil => cases hdecode
  | cons byte tail ih =>
    have hbyte := byte.toNat_lt
    rw [decodeFrom] at hdecode
    split at hdecode
    · cases hdecode
      have hlast : (128 * total + byte.toNat) % 128 = byte.toNat := by omega
      rw [hlast, UInt8.ofNat_toNat, show (128 * total + byte.toNat) / 128 = total by omega]
    · next hflag =>
      have hnext : 128 * total + (byte.toNat - 128) ≠ 0 := by
        intro hzero
        obtain htotal | hhead := hfirst
        · omega
        · exact hhead (congrArg some (UInt8.toNat_inj.1 (show byte.toNat = 128 by omega)))
      have hgroup : (128 * total + (byte.toNat - 128)) % 128 + 128 = byte.toNat := by omega
      rw [← ih hdecode (.inl hnext), leadingGroups.eq_1 (128 * total + _), if_neg hnext, hgroup,
        UInt8.ofNat_toNat, show (128 * total + (byte.toNat - 128)) / 128 = total by omega]

/-- There is no other way to write a number without an empty group in front. -/
theorem eq_encode_of_decode? {value : UInt32} {bytes rest : List UInt8}
    (hhead : bytes.head? ≠ some 0x80)
    (hdecode : decode? (bytes ++ rest) = some (value.toNat, rest)) : bytes = encode value := by
  have hne : bytes ≠ [] := by
    rintro rfl
    exact Nat.lt_irrefl _ (length_lt_of_decodeFrom hdecode)
  have hfirst : (bytes ++ rest).head? ≠ some 0x80 := by
    rwa [List.head?_append_of_ne_nil _ hne]
  have hgroups := leadingGroups_of_decodeFrom hdecode (.inr hfirst)
  rw [leadingGroups, if_pos rfl, ← List.singleton_append, ← leadingGroups_append,
    ← encode_eq_leadingGroups] at hgroups
  exact List.append_cancel_right hgroups

/-! ### How many groups there are -/

theorem length_le_length_leadingGroups (value : Nat) (tail : List UInt8) :
    tail.length ≤ (leadingGroups value tail).length := by
  induction value using Nat.strongRecOn generalizing tail with
  | ind value ih =>
    rw [leadingGroups]
    split
    · exact Nat.le_refl _
    · exact Nat.le_of_succ_le (ih _ (by omega) (_ :: tail))

theorem length_leadingGroups_le_iff (count value : Nat) (tail : List UInt8) :
    (leadingGroups value tail).length ≤ count + tail.length ↔ value < 128 ^ count := by
  induction count generalizing value tail with
  | zero =>
    rw [leadingGroups, Nat.pow_zero]
    split
    · omega
    · have hle := length_le_length_leadingGroups (value / 128)
        (UInt8.ofNat (value % 128 + 128) :: tail)
      rw [List.length_cons] at hle
      omega
  | succ count ih =>
    rw [leadingGroups, Nat.pow_succ]
    split
    · have hpos := Nat.pow_pos (n := count) (show 0 < 128 by omega)
      omega
    · have hrest := ih (value / 128) (UInt8.ofNat (value % 128 + 128) :: tail)
      rw [List.length_cons] at hrest
      omega

/-- So many groups are enough for a number exactly if they can count up to it. -/
theorem length_encode_le_iff (value : UInt32) (count : Nat) :
    (encode value).length ≤ count + 1 ↔ value.toNat < 128 ^ (count + 1) := by
  rw [encode_eq_leadingGroups, Nat.pow_succ]
  refine (length_leadingGroups_le_iff count _ _).trans ?_
  omega

theorem length_encode_pos (value : UInt32) : 0 < (encode value).length := by
  rw [encode_eq_leadingGroups]
  exact length_le_length_leadingGroups _ [_]

theorem length_encode_le (value : UInt32) : (encode value).length ≤ 5 := by
  have hlt := value.toNat_lt
  exact (length_encode_le_iff value 4).2 (by omega)

theorem length_encode_eq (value : UInt32) :
    (encode value).length = max 1 (value.toNat.size ⌈/⌉ 7) := by
  apply eq_of_forall_ge_iff
  intro count
  cases count with
  | zero =>
    have hpos := length_encode_pos value
    omega
  | succ count =>
    have hpow : 2 ^ (7 * (count + 1)) = 128 ^ (count + 1) := Nat.pow_mul 2 7 (count + 1)
    rw [length_encode_le_iff, max_le_iff, ceilDiv_le_iff_le_mul (by decide), Nat.size_le, hpow]
    omega

theorem length_encode_mono {value other : UInt32} (hle : value ≤ other) :
    (encode value).length ≤ (encode other).length := by
  have hle' : value.toNat ≤ other.toNat := UInt32.le_iff_toNat_le.1 hle
  obtain ⟨count, hcount⟩ := Nat.exists_eq_succ_of_ne_zero (length_encode_pos other).ne'
  have hother := (length_encode_le_iff other count).1 hcount.le
  rw [hcount]
  exact (length_encode_le_iff value count).2 (by omega)

/-- Bytes that are read as a number are at least as many as its own. -/
theorem length_encode_le_of_decode? {value : UInt32} {bytes rest : List UInt8}
    (hdecode : decode? (bytes ++ rest) = some (value.toNat, rest)) :
    (encode value).length ≤ bytes.length := by
  have hbound := lt_of_decodeFrom hdecode
  rw [List.length_append, Nat.add_sub_cancel, Nat.zero_add, Nat.one_mul] at hbound
  cases hcount : bytes.length with
  | zero =>
    rw [List.length_eq_zero_iff.1 hcount] at hdecode
    exact absurd (length_lt_of_decodeFrom hdecode) (Nat.lt_irrefl _)
  | succ count =>
    rw [hcount] at hbound
    exact (length_encode_le_iff value count).2 hbound

/-- An empty group in front could be left out, and the rest would be shorter. -/
theorem head?_encode_ne (value : UInt32) : (encode value).head? ≠ some 0x80 := by
  intro hhead
  obtain ⟨tail, htail⟩ := List.head?_eq_some_iff.1 hhead
  have hdecode : decode? (tail ++ []) = some (value.toNat, []) := by
    have hwhole := decode?_encode value []
    rw [htail] at hwhole
    exact hwhole
  have hle := length_encode_le_of_decode? hdecode
  rw [htail, List.length_cons] at hle
  omega

/-- The form of a number: what is read back in front of any bytes, ends where its continuation bits
say, and has no empty group in front, which makes it the shortest one and the only one. -/
structure IsFormOf (value : Nat) (bytes : List UInt8) : Prop where
  decode?_append : ∀ rest, decode? (bytes ++ rest) = some (value, rest)
  length_eq : bytes.length = max 1 (value.size ⌈/⌉ 7)
  length_le : ∀ other rest, decode? (other ++ rest) = some (value, rest) →
    bytes.length ≤ other.length
  flag_iff : ∀ index (hindex : index < bytes.length),
    128 ≤ bytes[index].toNat ↔ index + 1 < bytes.length
  head?_ne : bytes.head? ≠ some 0x80
  unique : ∀ other rest, other.head? ≠ some 0x80 →
    decode? (other ++ rest) = some (value, rest) → other = bytes

/-- Numbers of 32 bits have a form each, of one to five groups, so that with more room no more groups
would be collected. No form begins another one, and greater numbers do not have shorter forms. -/
theorem encode_canonical (value : UInt32) :
    IsFormOf value.toNat (encode value) ∧
    1 ≤ (encode value).length ∧ (encode value).length ≤ 5 ∧
    (∀ extra, groups (maxGroups + extra) value = groups maxGroups value) ∧
    (∀ other, encode value <+: encode other → value = other) ∧
    ∀ other, value ≤ other → (encode value).length ≤ (encode other).length := by
  have hlt := value.toNat_lt
  refine ⟨?_, length_encode_pos value, length_encode_le value, ?_, ?_, ?_⟩
  · exact {
      decode?_append := decode?_encode value
      length_eq := length_encode_eq value
      length_le := fun _ _ => length_encode_le_of_decode?
      flag_iff := flag_iff value
      head?_ne := head?_encode_ne value
      unique := fun _ _ => eq_encode_of_decode? }
  · exact groups_eq_of_lt (by omega)
  · intro other
    exact eq_of_isPrefix_encode
  · intro other
    exact length_encode_mono

/-- The greatest number fills five groups, and a group is added between 127 and 128. -/
theorem encode_canonical_bounds :
    decode? (encode 4294967295 ++ [1]) = some (4294967295, [1]) ∧ (encode 4294967295).length = 5 ∧
    (encode 127).length ≤ (encode 128).length := by
  obtain ⟨hform, -⟩ := encode_canonical 4294967295
  obtain ⟨-, -, -, -, -, hmono⟩ := encode_canonical 127
  refine ⟨hform.decode?_append [1], ?_, hmono 128 (by decide)⟩
  rw [hform.length_eq]
  decide +kernel

end Chiptune.Varint
