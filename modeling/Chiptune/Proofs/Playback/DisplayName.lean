import Chiptune.Proofs.Playback.FileName
import Chiptune.Proofs.Text.Casing
import Chiptune.Proofs.Text.Lossy
import Chiptune.Proofs.Text.Tokens

/-!
# What is shown of a path

The extension is looked for in the last four bytes of a text, but the name came as bytes that may be
no text at all. The two meet at the end of the name: the letters of an extension are never
replacements, so the text ends in one only if the bytes do (`dropExtension_decodeLossy`), and what
stands in front of it is decoded as if it stood alone (`displayName_of_stem`).

`displayName_strips` tells of every path what is shown of it. Directories are dropped and at most
one extension, which is never all of the name; a path without a last name is shown as it is.
-/

namespace Chiptune.Text

/-! ### Cuts between characters -/

theorem isBoundary_append (front rest : List Char) :
    isBoundary (front ++ rest) (Utf8.encode front).length = true := by
  have hbyte : (Utf8.encode (front ++ rest))[(Utf8.encode front).length]? =
      (Utf8.encode rest).head? := by
    rw [Utf8.encode, List.flatMap_append, ← Utf8.encode, ← Utf8.encode,
      List.getElem?_append_right (Nat.le_refl _), Nat.sub_self, List.head?_eq_getElem?]
  unfold isBoundary
  rw [hbyte, Utf8.length_encode_append]
  cases hhead : (Utf8.encode rest).head? with
  | some byte =>
    simp only [Utf8.startsCharacter_encode rest byte hhead, Bool.not_false]
  | none =>
    rw [List.head?_eq_none_iff] at hhead
    simp [hhead]

theorem eq_append_of_cutAfter? {passed text front rest : List Char} {size : Nat}
    (hcut : cutAfter? passed size text = some (front, rest)) :
    ∃ more, front = passed.reverse ++ more ∧ text = more ++ rest ∧
      (Utf8.encode more).length = size := by
  fun_induction cutAfter? passed size text with
  | case1 passed text =>
    cases hcut
    exact ⟨[], (List.append_nil _).symm, rfl, rfl⟩
  | case2 => cases hcut
  | case3 passed size c text hle ih =>
    obtain ⟨more, rfl, rfl, hmore⟩ := ih hcut
    refine ⟨c :: more, by simp, rfl, ?_⟩
    rw [Utf8.length_encode_cons]
    omega
  | case4 => cases hcut

/-- A text is cut in two wherever there is a boundary. -/
theorem exists_cut_of_isBoundary {text : List Char} {offset : Nat}
    (hboundary : isBoundary text offset = true) :
    ∃ front rest, cutAfter? [] offset text = some (front, rest) ∧ text = front ++ rest ∧
      (Utf8.encode front).length = offset := by
  obtain ⟨⟨front, rest⟩, hcut⟩ :=
    Option.isSome_iff_exists.1 (isSome_cutAfter?_of_isBoundary [] hboundary)
  obtain ⟨more, hfront, htext, hsize⟩ := eq_append_of_cutAfter? hcut
  rw [List.reverse_nil, List.nil_append] at hfront
  subst hfront
  exact ⟨front, rest, hcut, htext, hsize⟩

/-- Every small letter is the small form of itself and of its capital letter only. -/
theorem eq_or_eq_of_toLower {c : Char} {index : Nat} (hindex : index < 26)
    (hlower : c.toLower = Char.ofNat (97 + index)) :
    c = Char.ofNat (97 + index) ∨ c = Char.ofNat (65 + index) := by
  revert index
  apply toLower_induction (P := fun c => ∀ {index : Nat}, index < 26 →
    c.toLower = Char.ofNat (97 + index) →
    c = Char.ofNat (97 + index) ∨ c = Char.ofNat (65 + index))
  · decide +kernel
  · intro c hsame index _ hlower
    rw [← hlower, hsame]
    exact Or.inl rfl

end Chiptune.Text

namespace Chiptune.Playback

open Text

/-! ### The extension -/

/-- The extension of song files in letters of any case. -/
def spellings : List (List Char) :=
  [".atm".toList, ".atM".toList, ".aTm".toList, ".aTM".toList,
    ".Atm".toList, ".AtM".toList, ".ATm".toList, ".ATM".toList]

def IsExtension (ending : List Char) : Prop := ending ∈ spellings

instance (ending : List Char) : Decidable (IsExtension ending) :=
  inferInstanceAs (Decidable (ending ∈ spellings))

theorem IsExtension.length_encode {ending : List Char} (hending : IsExtension ending) :
    (Utf8.encode ending).length = 4 := by
  have hall : ∀ spelling ∈ spellings, (Utf8.encode spelling).length = 4 := by decide
  exact hall ending hending

theorem IsExtension.replacement_not_mem {ending : List Char} (hending : IsExtension ending) :
    Utf8.replacement ∉ ending := by
  have hall : ∀ spelling ∈ spellings, Utf8.replacement ∉ spelling := by decide
  exact hall ending hending

theorem IsExtension.slash_not_mem {ending : List Char} (hending : IsExtension ending) :
    slash ∉ Utf8.encode ending := by
  have hall : ∀ spelling ∈ spellings, slash ∉ Utf8.encode spelling := by decide
  exact hall ending hending

theorem sameLetters_extension_iff {ending : List Char} :
    sameLetters ending extension = true ↔ IsExtension ending := by
  constructor
  · intro hsame
    have hlower : ending.map Char.toLower = ['.', 'a', 't', 'm'] := sameLetters_iff.1 hsame
    simp only [List.map_eq_cons_iff, List.map_eq_nil_iff] at hlower
    obtain ⟨d, _, rfl, hd, a, _, rfl, ha, t, _, rfl, ht, m, _, rfl, hm, rfl⟩ := hlower
    rw [toLower_eq_iff (by decide)] at hd
    subst hd
    obtain rfl | rfl := eq_or_eq_of_toLower (by decide : 0 < 26) ha <;>
      obtain rfl | rfl := eq_or_eq_of_toLower (by decide : 19 < 26) ht <;>
      obtain rfl | rfl := eq_or_eq_of_toLower (by decide : 12 < 26) hm <;>
      decide
  · intro hending
    have hall : ∀ spelling ∈ spellings, sameLetters spelling extension = true := by decide
    exact hall ending hending

/-! ### Texts without their extension -/

theorem dropExtension_of_cut {name stem ending : List Char} (hsize : 4 < (Utf8.encode name).length)
    (hboundary : isBoundary name ((Utf8.encode name).length - 4) = true)
    (hcut : cutAfter? [] ((Utf8.encode name).length - 4) name = some (stem, ending)) :
    dropExtension name = if sameLetters ending extension then stem else name := by
  unfold dropExtension
  rw [dif_pos ⟨hsize, hboundary⟩]
  simp only [hcut, Option.get_some]

theorem dropExtension_append {stem ending : List Char} (hstem : stem ≠ [])
    (hending : IsExtension ending) : dropExtension (stem ++ ending) = stem := by
  have hsize : (Utf8.encode (stem ++ ending)).length = (Utf8.encode stem).length + 4 := by
    rw [Utf8.length_encode_append, hending.length_encode]
  have hoffset : (Utf8.encode (stem ++ ending)).length - 4 = (Utf8.encode stem).length := by omega
  have hpos := length_encode_pos hstem
  have hcut : cutAfter? [] ((Utf8.encode (stem ++ ending)).length - 4) (stem ++ ending) =
      some (stem, ending) := by
    rw [hoffset, cutAfter?_append]
    rfl
  rw [dropExtension_of_cut (by omega) (by rw [hoffset, isBoundary_append]) hcut,
    if_pos (sameLetters_extension_iff.2 hending)]

theorem dropExtension_eq_self {name : List Char}
    (hplain : ∀ stem ending, stem ≠ [] → IsExtension ending → name ≠ stem ++ ending) :
    dropExtension name = name := by
  by_cases hguard : 4 < (Utf8.encode name).length ∧
      isBoundary name ((Utf8.encode name).length - 4) = true
  · obtain ⟨stem, ending, hcut, hname, hoffset⟩ := exists_cut_of_isBoundary hguard.2
    have hstem : stem ≠ [] := by
      rintro rfl
      have hempty : (Utf8.encode []).length = 0 := rfl
      omega
    rw [dropExtension_of_cut hguard.1 hguard.2 hcut, if_neg]
    intro hsame
    exact hplain stem ending hstem (sameLetters_extension_iff.1 hsame) hname
  · exact dif_neg hguard

theorem dropExtension_ne_nil {name : List Char} (hname : name ≠ []) : dropExtension name ≠ [] := by
  by_cases hextension : ∃ stem ending, stem ≠ [] ∧ IsExtension ending ∧ name = stem ++ ending
  · obtain ⟨stem, ending, hstem, hending, rfl⟩ := hextension
    rwa [dropExtension_append hstem hending]
  · rwa [dropExtension_eq_self fun stem ending hstem hending heq =>
      hextension ⟨stem, ending, hstem, hending, heq⟩]

/-! ### Bytes without their extension -/

/-- Whether the bytes of a name end in an extension with something in front of it. -/
def HasExtension (name : List UInt8) : Prop :=
  ∃ stem ending, stem ≠ [] ∧ IsExtension ending ∧ name = stem ++ Utf8.encode ending

/-- The text of bytes without an extension has none. -/
theorem dropExtension_decodeLossy {name : List UInt8} (hplain : ¬ HasExtension name) :
    dropExtension (Utf8.decodeLossy name) = Utf8.decodeLossy name := by
  apply dropExtension_eq_self
  intro stem ending hstem hending hname
  obtain ⟨start, hstart, hdecode⟩ :=
    Utf8.exists_encode_of_decodeLossy hending.replacement_not_mem hname
  refine hplain ⟨start, ending, ?_, hending, hstart⟩
  rintro rfl
  rw [Utf8.decodeLossy_nil] at hdecode
  exact hstem hdecode.symm

/-! ### Paths -/

/-- Whatever a path has in front of an extension up to the last slash is part of its last name. -/
theorem isLastName_extension {directory stem trailing : List UInt8} {ending : List Char}
    (hdirectory : IsDirectory directory) (hstem : slash ∉ stem) (hending : IsExtension ending)
    (htrailing : IsTrailing trailing) :
    IsLastName (directory ++ (stem ++ Utf8.encode ending) ++ trailing)
      (stem ++ Utf8.encode ending) := by
  have hne (short : List UInt8) (hshort : short.length < 4) :
      stem ++ Utf8.encode ending ≠ short := by
    intro heq
    have hlength := congrArg List.length heq
    rw [List.length_append, hending.length_encode] at hlength
    omega
  refine ⟨hne [] (by decide), hne [dot] (by decide), hne [dot, dot] (by decide), ?_,
    directory, trailing, hdirectory, htrailing, rfl⟩
  rw [List.mem_append, not_or]
  exact ⟨hstem, hending.slash_not_mem⟩

theorem displayName_of_isLastName {path name : List UInt8} (hlast : IsLastName path name) :
    displayName path = String.ofList (dropExtension (Utf8.decodeLossy name)) := by
  rw [displayName, fileName?_eq_some_iff.2 hlast]
  rfl

/-- What stands in front of the extension is shown as if it stood alone, faulty or not. -/
theorem displayName_of_stem {path stem : List UInt8} {ending : List Char}
    (hlast : IsLastName path (stem ++ Utf8.encode ending)) (hstem : stem ≠ [])
    (hending : IsExtension ending) : displayName path = String.ofList (Utf8.decodeLossy stem) := by
  have htext : Utf8.decodeLossy stem ≠ [] := mt Utf8.eq_nil_of_decodeLossy hstem
  rw [displayName_of_isLastName hlast, Utf8.decodeLossy_append_encode,
    dropExtension_append htext hending]

/-- A path without a last name does not end in an extension, so all of it is shown. -/
theorem displayName_of_nameless {path : List UInt8} (hnone : ∀ name, ¬ IsLastName path name) :
    displayName path = String.ofList (Utf8.decodeLossy path) := by
  have hfile : fileName? path = none := by
    rw [Option.eq_none_iff_forall_ne_some]
    intro name hname
    exact hnone name (fileName?_eq_some_iff.1 hname)
  have hplain : ¬ HasExtension path := by
    rintro ⟨start, ending, -, hending, rfl⟩
    obtain ⟨directory, piece, hdirectory, hpiece, rfl⟩ := exists_last_piece start
    have hlast := isLastName_extension hdirectory hpiece hending isTrailing_nil
    rw [List.append_nil, ← List.append_assoc] at hlast
    exact hnone _ hlast
  rw [displayName, hfile, Option.getD_none, dropExtension_decodeLossy hplain]

theorem displayName_ne_empty {path : List UInt8} (hpath : path ≠ []) : displayName path ≠ "" := by
  intro hempty
  have htext := congrArg String.toList hempty
  rw [displayName, String.toList_ofList] at htext
  refine dropExtension_ne_nil (mt Utf8.eq_nil_of_decodeLossy ?_) htext
  cases hfile : fileName? path with
  | none => exact hpath
  | some name => exact (fileName?_eq_some_iff.1 hfile).ne_nil

/-- Of a path whose last name is a stem with an extension, the stem is shown, without what stands in
front of the name and behind it. A last name that is too short to have an extension or has none is
shown whole, and so is a path without a last name. Something is shown of every path but the empty
one. And where a text may be cut in front of its last four bytes, this cuts no character in two. -/
theorem displayName_strips :
    (∀ (directory trailing : List UInt8) (stem ending : List Char), IsDirectory directory →
      IsTrailing trailing → stem ≠ [] → '/' ∉ stem → IsExtension ending →
      displayName (directory ++ Utf8.encode (stem ++ ending) ++ trailing) = String.ofList stem) ∧
    (∀ path name, IsLastName path name →
      (name.length ≤ 4 ∨ ∀ start ending, IsExtension ending → name ≠ start ++ Utf8.encode ending) →
      displayName path = String.ofList (Utf8.decodeLossy name)) ∧
    (∀ path, (∀ name, ¬ IsLastName path name) →
      displayName path = String.ofList (Utf8.decodeLossy path)) ∧
    (∀ path, path ≠ [] → displayName path ≠ "") ∧
    ∀ name : List Char, isBoundary name ((Utf8.encode name).length - 4) = true →
      ∃ stem ending, cutAfter? [] ((Utf8.encode name).length - 4) name = some (stem, ending) ∧
        name = stem ++ ending ∧ (Utf8.encode stem).length = (Utf8.encode name).length - 4 := by
  refine ⟨?_, ?_, fun path => displayName_of_nameless, fun path => displayName_ne_empty,
    fun name => exists_cut_of_isBoundary⟩
  · intro directory trailing stem ending hdirectory htrailing hstem hslash hending
    have hslash' : slash ∉ Utf8.encode stem := fun hmem =>
      hslash (Utf8.mem_of_mem_encode hmem (by decide))
    have hstem' : Utf8.encode stem ≠ [] := List.length_pos_iff.1 (length_encode_pos hstem)
    have hlast := isLastName_extension hdirectory hslash' hending htrailing
    have hname : Utf8.encode (stem ++ ending) = Utf8.encode stem ++ Utf8.encode ending :=
      List.flatMap_append
    rw [hname, displayName_of_stem hlast hstem' hending, Utf8.decodeLossy_encode]
  · intro path name hlast hshort
    rw [displayName_of_isLastName hlast, dropExtension_decodeLossy]
    rintro ⟨start, ending, hstart, hending, rfl⟩
    rcases hshort with hlength | hplain
    · have hpos := List.length_pos_iff.2 hstart
      rw [List.length_append, hending.length_encode] at hlength
      omega
    · exact hplain start ending hending rfl

-- A stem that breaks off inside a character.
example : displayName (0xE2 :: 0x82 :: Utf8.encode ".atm".toList) = "\uFFFD" := by decide +kernel

/-- One of two extensions is dropped, one without a stem is kept, and the parent directory names no
file. -/
theorem displayName_strips_doubledExtension :
    displayName (Utf8.encode "/é/../x.atm€.atm.aTM/.//".toList) = "x.atm€.atm" ∧
    displayName (Utf8.encode "é/.ATM".toList) = ".ATM" ∧
    displayName (Utf8.encode "é/..".toList) = "é/.." := by
  obtain ⟨hstem, hname, hnameless, -, -⟩ := displayName_strips
  refine ⟨?_, ?_, ?_⟩
  · have hpath : Utf8.encode "/é/../x.atm€.atm.aTM/.//".toList = Utf8.encode "/é/../".toList ++
        Utf8.encode ("x.atm€.atm".toList ++ ".aTM".toList) ++ [slash, dot, slash, slash] := by
      decide +kernel
    rw [hpath, hstem, String.ofList_toList]
    · exact Or.inr ⟨Utf8.encode "/é/..".toList, by decide +kernel⟩
    · exact ⟨[[slash, dot], [slash], [slash]], by decide, rfl⟩
    · decide
    · decide
    · decide
  · have hlast : IsLastName (Utf8.encode "é/.ATM".toList) (Utf8.encode ".ATM".toList) :=
      fileName?_eq_some_iff.1 (by decide +kernel)
    rw [hname _ _ hlast (Or.inl (by decide)), Utf8.decodeLossy_encode, String.ofList_toList]
  · have hnone : ∀ name, ¬ IsLastName (Utf8.encode "é/..".toList) name := by
      intro name hlast
      have hfile : fileName? (Utf8.encode "é/..".toList) = none := by decide +kernel
      rw [fileName?_eq_some_iff.2 hlast] at hfile
      cases hfile
    rw [hnameless _ hnone, Utf8.decodeLossy_encode, String.ofList_toList]

end Chiptune.Playback
