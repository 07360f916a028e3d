import Chiptune.Text.Line

/-!
# Display names

How a song file is called on screen: the last name of its path, without the extension of song files.
A path is a byte string; bytes that are no UTF-8 are shown as replacement characters.

The extension is looked for four bytes before the end of the name, and the name is cut there. A name
may have a character that lies across this place; `isSome_cutAfter?_of_isBoundary` says that where
no character does, there is a cut.
-/

namespace Chiptune.Text

/-- Whether a text can be cut after so many bytes: at its end, or in front of a byte that continues
no character. -/
def isBoundary (text : List Char) (offset : Nat) : Bool :=
  match (Utf8.encode text)[offset]? with
  | some byte => !Utf8.isContinuation byte
  | none => offset == (Utf8.encode text).length

theorem isContinuation_of_mem_tail {c : Char} {byte : UInt8}
    (hmem : byte ∈ (String.utf8EncodeChar c).tail) : Utf8.isContinuation byte = true := by
  have hpayload (value : Nat) : Utf8.isContinuation (UInt8.ofNat (value % 64 + 128)) = true := by
    simp only [Utf8.isContinuation, UInt8.le_iff_toNat_le, UInt8.toNat_ofNat', UInt8.reduceToNat,
      Bool.and_eq_true, decide_eq_true_eq]
    omega
  unfold String.utf8EncodeChar at hmem
  dsimp only at hmem
  split at hmem
  · cases hmem
  · split at hmem
    · simp only [List.tail_cons, List.mem_singleton] at hmem
      exact hmem ▸ hpayload _
    · split at hmem
      · simp only [List.tail_cons, List.mem_cons, List.not_mem_nil, or_false] at hmem
        rcases hmem with rfl | rfl <;> exact hpayload _
      · simp only [List.tail_cons, List.mem_cons, List.not_mem_nil, or_false] at hmem
        rcases hmem with rfl | rfl | rfl <;> exact hpayload _

theorem isBoundary_cons {c : Char} {offset : Nat} (hle : c.utf8Size ≤ offset) (text : List Char) :
    isBoundary (c :: text) offset = isBoundary text (offset - c.utf8Size) := by
  have hsize := String.length_utf8EncodeChar c
  have hbytes : (Utf8.encode (c :: text))[offset]? =
      (Utf8.encode text)[offset - c.utf8Size]? := by
    rw [Utf8.encode, List.flatMap_cons, List.getElem?_append_right (by omega), hsize]
    rfl
  unfold isBoundary
  rw [hbytes, Utf8.length_encode_cons]
  split
  · rfl
  · rw [Bool.eq_iff_iff, beq_iff_eq, beq_iff_eq]
    omega

/-- Inside a character there is no boundary. -/
theorem isBoundary_eq_false {c : Char} {offset : Nat} (hpos : 0 < offset)
    (hlt : offset < c.utf8Size) (text : List Char) : isBoundary (c :: text) offset = false := by
  have hsize := String.length_utf8EncodeChar c
  obtain ⟨lead, others, hbytes⟩ := List.exists_cons_of_ne_nil (@String.utf8EncodeChar_ne_nil c)
  obtain ⟨index, rfl⟩ : ∃ index, offset = index + 1 := ⟨offset - 1, by omega⟩
  have hlength : index < others.length := by
    rw [hbytes, List.length_cons] at hsize
    omega
  have hcontinues : Utf8.isContinuation others[index] = true := by
    apply isContinuation_of_mem_tail (c := c)
    rw [hbytes]
    exact List.getElem_mem hlength
  have hbyte : (Utf8.encode (c :: text))[index + 1]? = some others[index] := by
    rw [Utf8.encode, List.flatMap_cons, hbytes, List.cons_append, List.getElem?_cons_succ,
      List.getElem?_append_left hlength, List.getElem?_eq_getElem hlength]
  simp only [isBoundary, hbyte, hcontinues, Bool.not_true]

/-- Between two characters there is a cut. -/
theorem isSome_cutAfter?_of_isBoundary (passed : List Char) {text : List Char} {offset : Nat}
    (hboundary : isBoundary text offset = true) : (cutAfter? passed offset text).isSome = true := by
  induction text generalizing passed offset with
  | nil =>
    cases offset with
    | zero => rfl
    | succ offset => cases hboundary
  | cons c text ih =>
    cases offset with
    | zero => rfl
    | succ offset =>
      rw [cutAfter?]
      by_cases hle : c.utf8Size ≤ offset + 1
      · rw [if_pos hle]
        rw [isBoundary_cons hle] at hboundary
        exact ih _ hboundary
      · rw [isBoundary_eq_false (Nat.succ_pos offset) (Nat.lt_of_not_le hle)] at hboundary
        cases hboundary

end Chiptune.Text

namespace Chiptune.Playback

open Text

/-- The byte between the names of a path. -/
def slash : UInt8 := 47

/-- The byte that a name of one dot, for the directory itself, is made of. -/
def dot : UInt8 := 46

/-- The names between slashes, without empty ones and single dots. `piece` is the name being read
and `found` are those before it, both latest first. -/
def pathNames (found : List (List UInt8)) (piece : List UInt8) : List UInt8 → List (List UInt8)
  | [] => (close found piece).reverse
  | byte :: rest =>
    if byte = slash then pathNames (close found piece) [] rest
    else pathNames found (byte :: piece) rest
where
  /-- The names read once the piece has ended. -/
  close (found : List (List UInt8)) (piece : List UInt8) : List (List UInt8) :=
    if piece = [] ∨ piece = [dot] then found else piece.reverse :: found

/-- The last name of a path; none if there is no name or the path ends in the parent directory. -/
def fileName? (path : List UInt8) : Option (List UInt8) :=
  match (pathNames [] [] path).getLast? with
  | none => none
  | some name => if name = [dot, dot] then none else some name

/-- The extension of song files. -/
def extension : List Char := ['.', 'a', 't', 'm']

/-- Drops the extension, in letters of any case, unless nothing stands in front of it. -/
def dropExtension (name : List Char) : List Char :=
  let offset := (Utf8.encode name).length - 4
  if hcut : 4 < (Utf8.encode name).length ∧ isBoundary name offset = true then
    let (stem, ending) :=
      (cutAfter? [] offset name).get (isSome_cutAfter?_of_isBoundary [] hcut.2)
    if sameLetters ending extension then stem else name
  else name

def displayName (path : List UInt8) : String :=
  String.ofList (dropExtension (Utf8.decodeLossy ((fileName? path).getD path)))

end Chiptune.Playback
