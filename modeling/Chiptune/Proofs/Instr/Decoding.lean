import Chiptune.Proofs.Varint
import Chiptune.Score

/-!
# Reading instructions back

The first byte of an instruction says what it is: notes lie below 64, short delays from 160 to 223,
the mark of a long delay is 224, and no opcode of a control is among them. From there the length is
known too, since a control has as many operands as its opcode asks for and the number of a long
delay says itself where it ends. A raw byte can be any of these, so it is the one instruction that
is not read back.

`Track.decode?_encode` carries this from one instruction to a track.
-/

namespace Chiptune

/-- The instructions that can be told from their bytes. -/
def Instr.IsMusical (instr : Instr) : Prop := ∀ value, instr ≠ .rawByte value

/-! ### Opcodes -/

namespace Control

theorem ofOpcode?_opcode (op : Control) : ofOpcode? op.opcode = some op := by
  cases op <;> decide

/-- The opcodes lie between the notes and the short delays, and above the mark of a long delay. -/
theorem opcode_range (op : Control) :
    64 ≤ op.opcode.toNat ∧ op.opcode.toNat < 160 ∨ 224 < op.opcode.toNat := by
  cases op <;> decide

end Control

/-! ### Delays -/

namespace Ticks

theorem ofLong?_sub {ticks : Ticks} (hlong : 64 < ticks.count) :
    ofLong? (ticks.count - 65) = some ticks := by
  have hcount : ticks.count - 65 + longBase = ticks.count := by
    unfold longBase
    omega
  rw [ofLong?, dif_pos (hcount ▸ ticks.le_max)]
  congr

theorem toNat_long {ticks : Ticks} :
    (UInt32.ofNat (ticks.count - 65)).toNat = ticks.count - 65 := by
  have hmax : ticks.count ≤ 2147483647 := ticks.le_max
  exact UInt32.toNat_ofNat_of_lt (by simp only [UInt32.size]; omega)

end Ticks

/-! ### One instruction -/

namespace Instr

theorem takeOperands?_append {count : Nat} (operands : Vector UInt8 count) (rest : List UInt8) :
    takeOperands? count (operands.toList ++ rest) = some (operands, rest) := by
  have htake : (operands.toList ++ rest).take count = operands.toList :=
    List.take_left' operands.length_toList
  have hdrop : (operands.toList ++ rest).drop count = rest :=
    List.drop_left' operands.length_toList
  rw [takeOperands?, dif_pos (by rw [htake, operands.length_toList]), hdrop]
  congr

theorem decode?_note (pitch : Fin 64) (rest : List UInt8) :
    decode? (UInt8.ofNat pitch :: rest) = some (note pitch, rest) := by
  have hbyte : (UInt8.ofNat pitch).toNat = pitch :=
    UInt8.toNat_ofNat_of_lt (Nat.lt_trans pitch.isLt (by decide))
  rw [decode?, dif_pos (by rw [hbyte]; exact pitch.isLt)]
  simp only [hbyte, Fin.eta]

theorem decode?_delay (ticks : Ticks) (rest : List UInt8) :
    decode? (ticks.encode ++ rest) = some (delay ticks, rest) := by
  have hpos := ticks.pos
  by_cases hshort : ticks.count ≤ 64
  · have hbyte : (UInt8.ofNat (159 + ticks.count)).toNat = 159 + ticks.count :=
      UInt8.toNat_ofNat_of_lt (by simp only [UInt8.size]; omega)
    rw [Ticks.encode_of_le hshort, List.singleton_append, decode?, dif_neg (by omega),
      dif_pos (by omega)]
    simp only [hbyte, Ticks.shortBase, Nat.add_sub_cancel_left]
  · have hlong : 64 < ticks.count := Nat.lt_of_not_le hshort
    rw [Ticks.encode_of_lt hlong, List.cons_append, decode?, dif_neg (by decide),
      dif_neg (by decide), if_pos (by decide), Varint.decode?_encode, Ticks.toNat_long]
    simp only [bind, Option.bind_some, Ticks.ofLong?_sub hlong]
    rfl

theorem decode?_control (op : Control) (operands : Vector UInt8 op.arity) (rest : List UInt8) :
    decode? (op.opcode :: operands.toList ++ rest) = some (control op operands, rest) := by
  have hrange := op.opcode_range
  have hmark : op.opcode ≠ Ticks.longOpcode := by
    intro heq
    rw [heq] at hrange
    exact absurd hrange (by decide)
  rw [List.cons_append, decode?, dif_neg (by omega), dif_neg (by omega), if_neg hmark]
  simp only [bind, Control.ofOpcode?_opcode, Option.bind_some, takeOperands?_append]
  rfl

/-- An instruction in front of any bytes is read back, and the bytes are left. -/
theorem decode?_encode {instr : Instr} (hmusical : instr.IsMusical) (rest : List UInt8) :
    decode? (instr.encode ++ rest) = some (instr, rest) := by
  cases instr with
  | rawByte value => exact absurd rfl (hmusical value)
  | note pitch => exact decode?_note pitch rest
  | delay ticks => exact decode?_delay ticks rest
  | control op operands => exact decode?_control op operands rest

end Instr

/-! ### Tracks -/

namespace Track

theorem decode?_of_some {bytes rest : List UInt8} {instr : Instr}
    (hdecode : Instr.decode? bytes = some (instr, rest)) :
    decode? bytes = (decode? rest).map (instr :: ·) := by
  cases bytes with
  | nil => cases hdecode
  | cons byte tail =>
    rw [decode?]
    split
    · next hnone =>
      rw [hdecode] at hnone
      cases hnone
    · next instr' rest' hsome =>
      rw [hdecode] at hsome
      cases hsome
      rfl

/-- A track without raw bytes is read back from its bytes. -/
theorem decode?_encode {track : Track} (hmusical : ∀ instr ∈ track, instr.IsMusical) :
    decode? track.encode = some track := by
  induction track with
  | nil => rw [encode, List.flatMap_nil, decode?]
  | cons instr track ih =>
    have hfirst := Instr.decode?_encode (hmusical instr List.mem_cons_self) (encode track)
    have hrest := ih fun instr' hmem => hmusical instr' (List.mem_cons_of_mem instr hmem)
    rw [encode, List.flatMap_cons, ← encode, decode?_of_some hfirst, hrest]
    rfl

end Track

end Chiptune
