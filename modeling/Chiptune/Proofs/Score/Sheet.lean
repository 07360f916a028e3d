import Chiptune.Proofs.Text.Keyword
import Chiptune.Score.Reader
import Mathlib.Algebra.GroupWithZero.Nat

/-!
# Sheets

The grammar of song texts as a type of trees. A sheet is a division of the words of a text, from the
directive in front of the entry values on, into the entry values, the blocks of the tracks with their
phrases, the end mark, and whatever follows it. Each part carries the proof that it is what its place
asks for, so every sheet is grammatical, and a list of words is grammatical if it is `Sheet.words` of
some sheet.

What a sheet stands for is said here without the readers: `Phrase.bytes` gives the bytes of a phrase
from its argument values, and `Sheet.song` lays the blocks out.

Words can be divided in one way only: `Sheet.words_injective`. A phrase says by its first word how
many more it takes, no phrase starts with the word that closes a block, and no block starts with the
word that ends the song.
-/

namespace Chiptune

open Text

/-- A word of which `limit` characters are read as a number, with its value. -/
structure Numeral (limit : Nat) where
  word : Word
  value : Int
  parse_eq : Literal.parse (word.take limit) = some value

instance : NeZero Mnemonic.rawByte.argumentCount := ⟨Nat.one_ne_zero⟩

instance : NeZero Mnemonic.note.argumentCount := ⟨Nat.one_ne_zero⟩

instance : NeZero Mnemonic.delay.argumentCount := ⟨Nat.one_ne_zero⟩

def Mnemonic.Allows : (mnemonic : Mnemonic) → Vector Int mnemonic.argumentCount → Prop
  | .rawByte, _ => True
  | .note, values => (0 : Int) ≤ values.head ∧ values.head ≤ 63
  | .delay, values => (1 : Int) ≤ values.head
  | .control _, _ => True

instance : (mnemonic : Mnemonic) → (values : Vector Int mnemonic.argumentCount) →
    Decidable (mnemonic.Allows values)
  | .rawByte, _ => inferInstanceAs (Decidable True)
  | .note, values => inferInstanceAs (Decidable ((0 : Int) ≤ values.head ∧ values.head ≤ 63))
  | .delay, values => inferInstanceAs (Decidable ((1 : Int) ≤ values.head))
  | .control _, _ => inferInstanceAs (Decidable True)

def Mnemonic.bytes : (mnemonic : Mnemonic) → Vector Int mnemonic.argumentCount → List UInt8
  | .rawByte, values => [UInt8.ofInt values.head]
  | .note, values => [UInt8.ofInt values.head]
  | .delay, values =>
    if values.head ≤ 64 then [UInt8.ofInt ((159 : Int) + values.head)]
    else 224 :: Varint.encode (UInt32.ofInt (values.head - 65))
  | .control op, values => op.opcode :: (values.map UInt8.ofInt).toList

inductive Phrase where
  | lone (numeral : Numeral directiveLimit) (plain : Mnemonic.ofWord? numeral.word = none)
  | operation (name : Word) (mnemonic : Mnemonic)
      (arguments : Vector (Numeral argumentLimit) mnemonic.argumentCount)
      (spelled : Mnemonic.ofWord? name = some mnemonic)
      (allowed : mnemonic.Allows (arguments.map Numeral.value))

/-- A track as it is written, with the words that open and close it. -/
structure Block where
  opening : Word
  phrases : List Phrase
  closing : Word
  opens : Directive.track.isSpelledBy opening = true
  closes : Directive.endTrack.isSpelledBy closing = true

namespace Phrase

def first : Phrase → Word
  | lone numeral _ => numeral.word
  | operation name _ _ _ _ => name

def others : Phrase → List Word
  | lone _ _ => []
  | operation _ _ arguments _ _ => arguments.toList.map Numeral.word

def words (phrase : Phrase) : List Word := phrase.first :: phrase.others

def bytes : Phrase → List UInt8
  | lone numeral _ => [UInt8.ofInt numeral.value]
  | operation _ mnemonic arguments _ _ => mnemonic.bytes (arguments.map Numeral.value)

end Phrase

namespace Block

def words (block : Block) : List Word :=
  block.opening :: (block.phrases.flatMap Phrase.words ++ [block.closing])

def bytes (block : Block) : List UInt8 := block.phrases.flatMap Phrase.bytes

/-- How many bytes the blocks in front of the one at `index` come to. -/
def bytesBefore (blocks : List Block) (index : Nat) : Nat :=
  ((blocks.take index).flatMap bytes).length

theorem bytesBefore_succ (block : Block) (blocks : List Block) (index : Nat) :
    bytesBefore (block :: blocks) (index + 1) = block.bytes.length + bytesBefore blocks index := by
  simp [bytesBefore]

end Block

/-- A grammatical division of words into the parts of a song. -/
structure Sheet where
  entryMark : Word
  entry : Vector (Numeral argumentLimit) 4
  blocks : List Block
  endMark : Word
  /-- The words after the end mark, which mean nothing. -/
  remarks : List Word
  opens : Directive.entry.isSpelledBy entryMark = true
  closes : Directive.endSong.isSpelledBy endMark = true
  one_le_length : 1 ≤ blocks.length
  length_le : blocks.length ≤ maxTracks
  fits : ∀ index < blocks.length, Block.bytesBefore blocks index ≤ maxOffset

namespace Sheet

def words (sheet : Sheet) : List Word :=
  sheet.entryMark :: (sheet.entry.toList.map Numeral.word ++
    (sheet.blocks.flatMap Block.words ++ sheet.endMark :: sheet.remarks))

/-- The song of a sheet: the low eight bits of the entry values, and the bytes of the blocks one
after the other, each starting at the number of bytes in front of it. -/
def song (sheet : Sheet) : Song where
  title := none
  entry := sheet.entry.map fun numeral => UInt8.ofInt numeral.value
  offsets := (List.range sheet.blocks.length).map fun index =>
    UInt16.ofNat (Block.bytesBefore sheet.blocks index)
  data := sheet.blocks.flatMap Block.bytes

end Sheet

/-! ### The instructions of a sheet -/

/-- A literal is held within the range of signed 32-bit integers. -/
theorem Literal.le_greatest_of_parse {token : List Char} {value : Int}
    (hparse : Literal.parse token = some value) : value ≤ Literal.greatest := by
  simp only [Literal.parse] at hparse
  split at hparse
  · cases hparse
  · obtain ⟨magnitude, _, rfl⟩ := Option.map_eq_some_iff.1 hparse
    simp only [Literal.clamp, Literal.least, Literal.greatest]
    omega

theorem Numeral.value_le {limit : Nat} (numeral : Numeral limit) : numeral.value ≤ 2147483647 :=
  Literal.le_greatest_of_parse numeral.parse_eq

/-- The instruction of a phrase: a note or a delay of just the number that is written, and the low
eight bits of every other number. -/
def Phrase.instr : Phrase → Instr
  | .lone numeral _ => .rawByte (UInt8.ofInt numeral.value)
  | .operation _ .rawByte arguments _ _ => .rawByte (UInt8.ofInt arguments.head.value)
  | .operation _ .note arguments _ allowed =>
    .note ⟨arguments.head.value.toNat, by
      simp only [Mnemonic.Allows, Vector.head, Vector.getElem_map] at allowed ⊢
      omega⟩
  | .operation _ .delay arguments _ allowed =>
    .delay ⟨arguments.head.value.toNat, by
        simp only [Mnemonic.Allows, Vector.head, Vector.getElem_map] at allowed ⊢
        omega, by
        have hle := arguments.head.value_le
        unfold maxTicks
        omega⟩
  | .operation _ (.control op) arguments _ _ =>
    .control op (arguments.map fun numeral => UInt8.ofInt numeral.value)

def Block.track (block : Block) : Track := block.phrases.map Phrase.instr

def Sheet.score (title : Option String) (sheet : Sheet) : Score where
  title := title
  entry := sheet.entry.map fun numeral => UInt8.ofInt numeral.value
  tracks := sheet.blocks.map Block.track

/-! ### Words can be divided in one way only -/

theorem Numeral.eq_of_word_eq {limit : Nat} (left right : Numeral limit)
    (hword : left.word = right.word) : left = right := by
  cases left with
  | mk word value hparse =>
    cases right with
    | mk word' value' hparse' =>
      subst hword
      have hvalue : value = value' := Option.some.inj (hparse.symm.trans hparse')
      subst hvalue
      rfl

theorem Numeral.vector_eq_of_words_eq {limit count : Nat} {left right : Vector (Numeral limit) count}
    (hwords : left.toList.map Numeral.word = right.toList.map Numeral.word) : left = right :=
  Vector.toList_inj.1 ((List.map_inj_right Numeral.eq_of_word_eq).1 hwords)

/-- Items written one after the other up to a closing word are known by their words, if each item at
the front is and none of them starts with a closing word. -/
theorem flatMap_append_cons_inj {α : Type} {spell : α → List Word} {closes : Word → Bool}
    (hinj : ∀ left right rest rest', spell left ++ rest = spell right ++ rest' →
      left = right ∧ rest = rest')
    (hopen : ∀ item, ∃ first others, spell item = first :: others ∧ closes first = false)
    {left right : List α} {closing closing' : Word} {rest rest' : List Word}
    (hclosing : closes closing = true) (hclosing' : closes closing' = true)
    (hwords : left.flatMap spell ++ closing :: rest = right.flatMap spell ++ closing' :: rest') :
    left = right ∧ closing = closing' ∧ rest = rest' := by
  induction left generalizing right with
  | nil =>
    cases right with
    | nil => simpa using hwords
    | cons item items =>
      obtain ⟨first, others, hspell, hfirst⟩ := hopen item
      simp only [List.flatMap_nil, List.nil_append, List.flatMap_cons, hspell, List.cons_append,
        List.cons.injEq] at hwords
      rw [hwords.1, hfirst] at hclosing
      cases hclosing
  | cons item items ih =>
    cases right with
    | nil =>
      obtain ⟨first, others, hspell, hfirst⟩ := hopen item
      simp only [List.flatMap_nil, List.nil_append, List.flatMap_cons, hspell, List.cons_append,
        List.cons.injEq] at hwords
      rw [← hwords.1, hfirst] at hclosing'
      cases hclosing'
    | cons item' items' =>
      rw [List.flatMap_cons, List.flatMap_cons, List.append_assoc, List.append_assoc] at hwords
      obtain ⟨rfl, hrest⟩ := hinj _ _ _ _ hwords
      obtain ⟨rfl, hclose, htail⟩ := ih hrest
      exact ⟨rfl, hclose, htail⟩

namespace Phrase

/-- No phrase starts with a directive. -/
theorem isSpelledBy_first (phrase : Phrase) (directive : Directive) :
    directive.isSpelledBy phrase.first = false := by
  cases phrase with
  | lone numeral plain =>
    rw [Bool.eq_false_iff]
    intro hspelled
    rw [first, ← Directive.isSpelledBy_take] at hspelled
    have hnone := Directive.parse_eq_none_of_isSpelledBy hspelled
    rw [numeral.parse_eq] at hnone
    cases hnone
  | operation name mnemonic arguments spelled allowed =>
    exact Mnemonic.isSpelledBy_eq_false_of_ofWord? spelled directive

theorem words_append_inj {left right : Phrase} {rest rest' : List Word}
    (hwords : left.words ++ rest = right.words ++ rest') : left = right ∧ rest = rest' := by
  simp only [words, List.cons_append, List.cons.injEq] at hwords
  obtain ⟨hfirst, hothers⟩ := hwords
  cases left with
  | lone numeral plain =>
    cases right with
    | lone numeral' plain' =>
      have hnumeral := Numeral.eq_of_word_eq numeral numeral' hfirst
      subst hnumeral
      exact ⟨rfl, hothers⟩
    | operation name mnemonic arguments spelled allowed =>
      rw [← show numeral.word = name from hfirst, plain] at spelled
      cases spelled
  | operation name mnemonic arguments spelled allowed =>
    cases right with
    | lone numeral plain =>
      rw [← show name = numeral.word from hfirst, spelled] at plain
      cases plain
    | operation name' mnemonic' arguments' spelled' allowed' =>
      have hname : name = name' := hfirst
      subst hname
      -- The first word settles the mnemonic, and so how many arguments are on either side.
      have hmnemonic : mnemonic = mnemonic' := Option.some.inj (spelled.symm.trans spelled')
      subst hmnemonic
      obtain ⟨harguments, hrest⟩ := List.append_inj hothers (by simp [others])
      have heq := Numeral.vector_eq_of_words_eq harguments
      subst heq
      exact ⟨rfl, hrest⟩

theorem flatMap_words_inj {left right : List Phrase} {closing closing' : Word}
    {rest rest' : List Word} (hclosing : Directive.endTrack.isSpelledBy closing = true)
    (hclosing' : Directive.endTrack.isSpelledBy closing' = true)
    (hwords : left.flatMap words ++ closing :: rest = right.flatMap words ++ closing' :: rest') :
    left = right ∧ closing = closing' ∧ rest = rest' := by
  refine flatMap_append_cons_inj (fun _ _ _ _ => words_append_inj) ?_ hclosing hclosing' hwords
  intro phrase
  exact ⟨phrase.first, phrase.others, rfl, phrase.isSpelledBy_first _⟩

end Phrase

namespace Block

theorem words_append_inj {left right : Block} {rest rest' : List Word}
    (hwords : left.words ++ rest = right.words ++ rest') : left = right ∧ rest = rest' := by
  cases left with
  | mk opening phrases closing opens closes =>
    cases right with
    | mk opening' phrases' closing' opens' closes' =>
      simp only [words, List.cons_append, List.append_assoc, List.cons.injEq] at hwords
      obtain ⟨rfl, hphrases⟩ := hwords
      obtain ⟨rfl, rfl, hrest⟩ := Phrase.flatMap_words_inj closes closes' hphrases
      exact ⟨rfl, hrest⟩

theorem endSong_isSpelledBy_opening (block : Block) :
    Directive.endSong.isSpelledBy block.opening = false := by
  rw [Bool.eq_false_iff]
  intro hend
  cases Directive.eq_of_isSpelledBy block.opens hend

theorem flatMap_words_inj {left right : List Block} {endMark endMark' : Word}
    {rest rest' : List Word} (hend : Directive.endSong.isSpelledBy endMark = true)
    (hend' : Directive.endSong.isSpelledBy endMark' = true)
    (hwords : left.flatMap words ++ endMark :: rest = right.flatMap words ++ endMark' :: rest') :
    left = right ∧ endMark = endMark' ∧ rest = rest' := by
  refine flatMap_append_cons_inj (fun _ _ _ _ => words_append_inj) ?_ hend hend' hwords
  intro block
  exact ⟨block.opening, _, rfl, block.endSong_isSpelledBy_opening⟩

end Block

/-- A sheet is known by its words. -/
theorem Sheet.words_injective {left right : Sheet} (hwords : left.words = right.words) :
    left = right := by
  cases left with
  | mk entryMark entry blocks endMark remarks opens closes one_le length_le fits =>
    cases right with
    | mk entryMark' entry' blocks' endMark' remarks' opens' closes' one_le' length_le' fits' =>
      simp only [words, List.cons.injEq] at hwords
      obtain ⟨rfl, hrest⟩ := hwords
      obtain ⟨hentry, hblocks⟩ := List.append_inj hrest (by simp)
      have hvector := Numeral.vector_eq_of_words_eq hentry
      subst hvector
      obtain ⟨rfl, rfl, rfl⟩ := Block.flatMap_words_inj closes closes' hblocks
      rfl

end Chiptune
