import Chiptune.Proofs.Image
import Chiptune.Proofs.Instr.Decoding
import Chiptune.Proofs.Song.Shape

/-!
# Recovering scores from images

An image keeps everything of a score but the title, as long as no raw byte is in it. `ofImage?`
takes the image apart in the order in which it was put together: the parts of the image, the stretch
of each track, and the instructions of each stretch. `Song.ofImage?_of_assemble` states this for
texts: the score of the sheet behind a text is found from the image alone, whatever the text looks
like.
-/

namespace Chiptune

open Text

/-- A phrase with a mnemonic, other than the one for raw bytes. -/
def Phrase.IsMusical : Phrase → Prop
  | .lone _ _ => False
  | .operation _ mnemonic _ _ _ => mnemonic ≠ .rawByte

instance : (phrase : Phrase) → Decidable phrase.IsMusical
  | .lone _ _ => inferInstanceAs (Decidable False)
  | .operation _ mnemonic _ _ _ => inferInstanceAs (Decidable (mnemonic ≠ .rawByte))

namespace Sheet

def IsMusical (sheet : Sheet) : Prop :=
  ∀ block ∈ sheet.blocks, ∀ phrase ∈ block.phrases, phrase.IsMusical

instance (sheet : Sheet) : Decidable sheet.IsMusical :=
  inferInstanceAs (Decidable (∀ block ∈ sheet.blocks, ∀ phrase ∈ block.phrases, phrase.IsMusical))

/-- The words of a text are the format mark and, past a title if there is one, those of the
sheet. -/
def Divides (sheet : Sheet) (text : List Char) : Prop :=
  ∃ (mark : Word) (body : List Char), nextWord text = some (mark, body) ∧
    Directive.formatMark.isSpelledBy mark = true ∧
    splitWords (Score.pastTitle body) = sheet.words

theorem Divides.unique {sheet sheet' : Sheet} {text : List Char} (hdivides : sheet.Divides text)
    (hdivides' : sheet'.Divides text) : sheet = sheet' := by
  obtain ⟨mark, body, hnext, -, hwords⟩ := hdivides
  obtain ⟨mark', body', hnext', -, hwords'⟩ := hdivides'
  rw [hnext] at hnext'
  cases hnext'
  exact words_injective (hwords.symm.trans hwords')

end Sheet

/-! ### Scores -/

theorem Phrase.isMusical_instr {phrase : Phrase} (hmusical : phrase.IsMusical) :
    phrase.instr.IsMusical := by
  intro value heq
  cases phrase with
  | lone numeral plain => exact hmusical
  | operation name mnemonic arguments spelled allowed =>
    cases mnemonic with
    | rawByte => exact hmusical rfl
    | note => cases heq
    | delay => cases heq
    | control op => cases heq

theorem Sheet.isMusical_score {sheet : Sheet} (hmusical : sheet.IsMusical) (title : Option String) :
    ∀ track ∈ (sheet.score title).tracks, ∀ instr ∈ track, instr.IsMusical := by
  intro track htrack instr hinstr
  obtain ⟨block, hblock, rfl⟩ := List.mem_map.1 htrack
  obtain ⟨phrase, hphrase, rfl⟩ := List.mem_map.1 hinstr
  exact Phrase.isMusical_instr (hmusical block hblock phrase hphrase)

/-- A score without title and raw bytes is recovered from the image of its song. -/
theorem Score.ofImage?_of_toImage {score : Score} {image : List UInt8} (hfits : score.Fits)
    (htitle : score.title = none)
    (hmusical : ∀ track ∈ score.tracks, ∀ instr ∈ track, instr.IsMusical)
    (himage : score.toSong.toImage = .ok image) : ofImage? image = some score := by
  have hparts : Image.read? image = some (score.toSong.offsets, score.entry, score.toSong.data) :=
    Image.read?_of_write himage
  have hsong : (⟨none, score.entry, score.toSong.offsets, score.toSong.data⟩ : Song) =
      score.toSong := by
    rw [← htitle]
    rfl
  have htracks : (List.range score.toSong.offsets.length).mapM (fun index => do
      let span ← score.toSong.trackSpan? index
      let bytes ← span.slice? score.toSong.data
      Track.decode? bytes) = some score.tracks := by
    rw [← Song.trackCount, trackCount_toSong]
    apply mapM_range_eq_some
    intro index hindex
    have hdecode := Track.decode?_encode (hmusical _ (List.getElem_mem hindex))
    simp only [trackSpan?_toSong hfits hindex, bind, Option.bind_some, slice?_toSong hindex,
      hdecode]
  rw [ofImage?, hparts]
  simp only [bind, Option.bind_some, hsong] at htracks ⊢
  rw [htracks, Option.bind_some, ← htitle]
  rfl

/-! ### Texts -/

/-- Behind a text that is assembled there is a sheet, which also gives the image. -/
theorem Sheet.exists_divides_of_assemble {text : List Char} {image : List UInt8}
    (hassemble : Song.assemble text = .ok image) : ∃ sheet : Sheet, sheet.Divides text ∧
      (sheet.score none).toSong.toImage = .ok image := by
  obtain ⟨song, hcompile, himage⟩ := bind_eq_ok_iff.1 hassemble
  obtain ⟨mark, body, sheet, hnext, hmark, hwords, rfl⟩ := Song.compile_eq_ok_iff.1 hcompile
  refine ⟨sheet, ⟨mark, body, hnext, hmark, hwords⟩, ?_⟩
  rw [Sheet.toSong_score]
  exact himage

theorem Sheet.Divides.ofImage?_eq {sheet : Sheet} {text : List Char} {image : List UInt8}
    (hdivides : sheet.Divides text) (hmusical : sheet.IsMusical)
    (hassemble : Song.assemble text = .ok image) :
    Score.ofImage? image = some (sheet.score none) := by
  obtain ⟨found, hfound, himage⟩ := Sheet.exists_divides_of_assemble hassemble
  rw [hfound.unique hdivides] at himage
  exact Score.ofImage?_of_toImage (sheet.fits_score none) rfl (sheet.isMusical_score hmusical none)
    himage

/-- A text that is assembled has one sheet behind it. If the sheet has no raw bytes, its entry values
and its instructions are recovered from the image, and every other text with that image and without
raw bytes has the same ones. -/
theorem Song.ofImage?_of_assemble {text : List Char} {image : List UInt8}
    (hassemble : Song.assemble text = .ok image) :
    ∃ sheet : Sheet, sheet.Divides text ∧ (∀ sheet' : Sheet, sheet'.Divides text → sheet' = sheet) ∧
      (sheet.IsMusical → Score.ofImage? image = some (sheet.score none) ∧
        ∀ (text' : List Char) (sheet' : Sheet), Song.assemble text' = .ok image →
          sheet'.Divides text' → sheet'.IsMusical → sheet'.score none = sheet.score none) := by
  obtain ⟨sheet, hdivides, -⟩ := Sheet.exists_divides_of_assemble hassemble
  refine ⟨sheet, hdivides, fun sheet' hdivides' => hdivides'.unique hdivides, ?_⟩
  intro hmusical
  have hrecovered := hdivides.ofImage?_eq hmusical hassemble
  refine ⟨hrecovered, ?_⟩
  intro text' sheet' hassemble' hdivides' hmusical'
  have hrecovered' := hdivides'.ofImage?_eq hmusical' hassemble'
  exact Option.some.inj (hrecovered'.symm.trans hrecovered)

/-- A text with the longest delay and with operands that are no bytes. -/
def longDelayText : List Char :=
  "ATM1 NAME Long\nENTRY 1 2 3 260 TRACK NOTE 63 DELAY 2147483647 REPEAT 258 -1 ENDTRACK END".toList

def longDelaySheet : Sheet where
  entryMark := "ENTRY".toList
  entry := #v[⟨"1".toList, 1, by decide⟩, ⟨"2".toList, 2, by decide⟩, ⟨"3".toList, 3, by decide⟩,
    ⟨"260".toList, 260, by decide⟩]
  blocks := [{
    opening := "TRACK".toList
    phrases := [
      .operation "NOTE".toList .note #v[⟨"63".toList, 63, by decide⟩] (by decide)
        (by decide +kernel),
      .operation "DELAY".toList .delay
        #v[⟨"2147483647".toList, 2147483647, by decide +kernel⟩] (by decide) (by decide +kernel),
      .operation "REPEAT".toList (.control .loop)
        #v[⟨"258".toList, 258, by decide⟩, ⟨"-1".toList, -1, by decide⟩] (by decide) trivial]
    closing := "ENDTRACK".toList
    opens := by decide
    closes := by decide }]
  endMark := "END".toList
  remarks := []
  opens := by decide
  closes := by decide
  one_le_length := by decide
  length_le := by decide
  fits := by decide +kernel

theorem longDelaySheet_divides : longDelaySheet.Divides longDelayText :=
  ⟨_, _, rfl, by decide, by decide +kernel⟩

theorem Song.ofImage?_longDelayText :
    Song.assemble longDelayText =
      .ok [1, 0, 0, 1, 2, 3, 4, 63, 224, 135, 255, 255, 255, 62, 253, 2, 255] ∧
    Score.ofImage? [1, 0, 0, 1, 2, 3, 4, 63, 224, 135, 255, 255, 255, 62, 253, 2, 255] =
      some ⟨none, #v[1, 2, 3, 4], [[.note 63, .delay ⟨2147483647, by decide, by decide⟩,
        .control .loop #v[2, 255]]]⟩ := by
  have hassemble : Song.assemble longDelayText =
      .ok [1, 0, 0, 1, 2, 3, 4, 63, 224, 135, 255, 255, 255, 62, 253, 2, 255] := by
    decide +kernel
  obtain ⟨sheet, -, hunique, hrecovered⟩ := Song.ofImage?_of_assemble hassemble
  have hsheet := hunique _ longDelaySheet_divides
  subst hsheet
  have hscore : longDelaySheet.score none = ⟨none, #v[1, 2, 3, 4], [[.note 63,
      .delay ⟨2147483647, by decide, by decide⟩, .control .loop #v[2, 255]]]⟩ := by
    decide +kernel
  refine ⟨hassemble, ?_⟩
  rw [← hscore]
  exact (hrecovered (by decide)).1

end Chiptune
