import Chiptune.Instr

/-!
# Reading instructions

An instruction is a mnemonic with its arguments, or a lone literal, which is a raw byte. Readers
take the words that are left and give back those after the ones they consumed, also when they
fail. All arguments of an operation are read before any is checked against its range.
-/

namespace Chiptune

open Text

/-- Reads `count` literals; `missing` is the fault if the words run out. -/
def readLiterals (missing : Error) : (count : Nat) → List Word →
    Except Error (Vector Int count) × List Word
  | 0, words => (.ok #v[], words)
  | count + 1, words =>
    match readLiterals missing count words with
    | (.error fault, rest) => (.error fault, rest)
    | (.ok _, []) => (.error missing, [])
    | (.ok values, word :: rest) =>
      match Literal.parse (word.take argumentLimit) with
      | some value => (.ok (values.push value), rest)
      | none => (.error (.literal (String.ofList (word.take argumentLimit))), rest)

theorem length_readLiterals_le (missing : Error) (count : Nat) (words : List Word) :
    (readLiterals missing count words).2.length ≤ words.length := by
  induction count with
  | zero => exact Nat.le_refl _
  | succ count ih =>
    rw [readLiterals]
    split
    · next heq => rw [heq] at ih; exact ih
    · exact Nat.zero_le _
    · next heq =>
      rw [heq, List.length_cons] at ih
      split <;> exact Nat.le_of_succ_le ih

namespace Instr

/-- The instruction of a mnemonic with these argument values. -/
def ofArguments : (mnemonic : Mnemonic) → Vector Int mnemonic.argumentCount → Except Error Instr
  | .rawByte, values => .ok (rawByte (UInt8.ofInt values[0]))
  | .note, values =>
    if h : 0 ≤ values[0] ∧ values[0] ≤ 63 then .ok (note ⟨values[0].toNat, by omega⟩)
    else .error (.range (.note values[0]))
  | .delay, values => (Ticks.ofInt values[0]).map delay
  | .control op, values => .ok (control op (values.map UInt8.ofInt))

/-- Reads the instruction that starts with the word `operation`. -/
def read (operation : Word) (words : List Word) : Except Error Instr × List Word :=
  match Mnemonic.ofWord? operation with
  | none =>
    match Literal.parse operation with
    | some value => (.ok (rawByte (UInt8.ofInt value)), words)
    | none => (.error (.literal (String.ofList operation)), words)
  | some mnemonic =>
    match readLiterals (.grammar (.missingArgument mnemonic)) mnemonic.argumentCount words with
    | (.ok values, rest) => (ofArguments mnemonic values, rest)
    | (.error fault, rest) => (.error fault, rest)

theorem length_read_le (operation : Word) (words : List Word) :
    (read operation words).2.length ≤ words.length := by
  unfold read
  split
  · split <;> exact Nat.le_refl _
  · next mnemonic _ =>
    have hle := length_readLiterals_le (.grammar (.missingArgument mnemonic))
      mnemonic.argumentCount words
    split <;> next heq => rw [heq] at hle; exact hle

theorem length_le_of_read {operation : Word} {words rest : List Word} {result : Except Error Instr}
    (hread : read operation words = (result, rest)) : rest.length ≤ words.length := by
  have hle := length_read_le operation words
  rwa [hread] at hle

/-- Reads instructions up to the end of the words or the first fault, each with the word that it
starts with. `found` holds those already read, latest first. -/
def readEachAfter (found : List (Word × Except Error Instr)) :
    List Word → List (Word × Except Error Instr)
  | [] => found.reverse
  | word :: rest =>
    let operation := word.take directiveLimit
    match _hread : read operation rest with
    | (.ok instr, rest') => readEachAfter ((operation, .ok instr) :: found) rest'
    | (.error fault, _) => ((operation, .error fault) :: found).reverse
termination_by words => words.length
decreasing_by exact Nat.lt_succ_of_le (length_le_of_read _hread)

def readEach (words : List Word) : List (Word × Except Error Instr) := readEachAfter [] words

end Instr

end Chiptune
