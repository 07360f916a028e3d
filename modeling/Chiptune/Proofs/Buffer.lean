import Chiptune.Buffer
import Mathlib.Algebra.Group.Nat.Defs
import Mathlib.Order.Bounds.Basic

/-!
# What a buffer holds and how much room it has

A buffer decides item by item whether to double its room, by whether it is full just then. All the
same, its room tells nothing about the past but how many items there are. Every push keeps it at the
least doubling of the initial room that they fit in (`isRoomFor_grownCapacity`), and of these there
is only one. So it makes no difference in how many calls the items came, and a call that brings
nothing leaves nothing behind, not even in a new buffer (`Buffer.holds_after`).
-/

namespace Chiptune

namespace Buffer

variable {α : Type} {initial size room : Nat}

/-! ### The room for so many items -/

/-- The initial room and what comes of it by doubling. -/
def doublings (initial : Nat) : Set Nat := {room | ∃ count, room = initial * 2 ^ count}

/-- No items ask for no room, and other ones for the least doubling that holds them. -/
def IsRoomFor (initial size room : Nat) : Prop :=
  if size = 0 then room = 0 else IsLeast {room ∈ doublings initial | size ≤ room} room

theorem IsRoomFor.unique {room' : Nat} (hroom : IsRoomFor initial size room)
    (hroom' : IsRoomFor initial size room') : room = room' := by
  unfold IsRoomFor at hroom hroom'
  split at hroom
  · next hsize =>
    rw [if_pos hsize] at hroom'
    rw [hroom, hroom']
  · next hsize =>
    rw [if_neg hsize] at hroom'
    exact hroom.unique hroom'

/-- The first item takes the initial room. -/
theorem isLeast_initial (hinitial : 0 < initial) :
    IsLeast {room ∈ doublings initial | 1 ≤ room} initial := by
  constructor
  · exact ⟨⟨0, (Nat.mul_one initial).symm⟩, hinitial⟩
  · rintro room ⟨⟨count, rfl⟩, -⟩
    exact Nat.le_mul_of_pos_right initial (Nat.two_pow_pos count)

/-- The next room after a full one is twice as large. -/
theorem isLeast_double (hfull : IsLeast {room ∈ doublings initial | size ≤ room} size)
    (hsize : 0 < size) :
    IsLeast {room ∈ doublings initial | size + 1 ≤ room} (size * 2) := by
  obtain ⟨⟨⟨count, hcount⟩, -⟩, -⟩ := hfull
  constructor
  · refine ⟨⟨count + 1, ?_⟩, by omega⟩
    rw [Nat.pow_succ, ← Nat.mul_assoc, ← hcount]
  · rintro room ⟨⟨count', rfl⟩, hlarger⟩
    -- A larger room has been doubled more often, and once more is enough.
    have hlt : initial * 2 ^ count < initial * 2 ^ count' := by omega
    have hcounts : count < count' :=
      (Nat.pow_lt_pow_iff_right (by decide)).1 (Nat.lt_of_mul_lt_mul_left hlt)
    calc size * 2 = initial * 2 ^ (count + 1) := by rw [Nat.pow_succ, ← Nat.mul_assoc, ← hcount]
      _ ≤ initial * 2 ^ count' :=
        Nat.mul_le_mul_left initial (Nat.pow_le_pow_right (by decide) hcounts)

/-- A room with a place left does for one more item. -/
theorem isLeast_of_lt (hroom : IsLeast {room ∈ doublings initial | size ≤ room} room)
    (hlt : size < room) : IsLeast {room ∈ doublings initial | size + 1 ≤ room} room := by
  obtain ⟨⟨hdoubling, -⟩, hleast⟩ := hroom
  refine ⟨⟨hdoubling, hlt⟩, ?_⟩
  rintro room' ⟨hdoubling', hle⟩
  exact hleast ⟨hdoubling', Nat.le_of_succ_le hle⟩

theorem isRoomFor_grownCapacity (hinitial : 0 < initial) {capacity : Nat}
    (hroom : IsRoomFor initial size capacity) :
    IsRoomFor initial (size + 1) (grownCapacity initial size capacity) := by
  rw [IsRoomFor, if_neg (Nat.succ_ne_zero size)]
  unfold IsRoomFor at hroom
  split at hroom
  · next hsize =>
    rw [hsize, hroom]
    exact isLeast_initial hinitial
  · next hsize =>
    by_cases hfull : size = capacity
    · subst hfull
      rw [grownCapacity, if_pos rfl, if_neg hsize]
      exact isLeast_double hroom (Nat.pos_of_ne_zero hsize)
    · rw [grownCapacity, if_neg hfull]
      exact isLeast_of_lt hroom (Nat.lt_of_le_of_ne hroom.1.2 hfull)

/-! ### Buffers and their items -/

/-- The buffer holds these items in this order and has the room that they ask for. -/
structure Holds (buffer : Buffer α initial) (items : List α) : Prop where
  toList_eq : buffer.toList = items
  room : IsRoomFor initial items.length buffer.capacity

theorem holds_empty : Holds (empty : Buffer α initial) [] := ⟨rfl, rfl⟩

variable {buffer : Buffer α initial} {items : List α}

theorem Holds.size_eq (hholds : Holds buffer items) : buffer.size = items.length :=
  congrArg List.length hholds.toList_eq

theorem Holds.push (hinitial : 0 < initial) (hholds : Holds buffer items) (item : α) :
    Holds (buffer.push item) (items ++ [item]) where
  toList_eq := by rw [toList_push, hholds.toList_eq]
  room := by
    have hsize : buffer.items.size = items.length := hholds.size_eq
    rw [List.length_append]
    show IsRoomFor initial (items.length + 1)
      (grownCapacity initial buffer.items.size buffer.capacity)
    rw [hsize]
    exact isRoomFor_grownCapacity hinitial hholds.room

theorem Holds.extend (hinitial : 0 < initial) (hholds : Holds buffer items) (more : List α) :
    Holds (buffer.extend more) (items ++ more) := by
  induction more generalizing buffer items with
  | nil =>
    rw [List.append_nil]
    exact hholds
  | cons item more ih =>
    rw [List.append_cons]
    exact ih (hholds.push hinitial item)

/-- What a buffer holds is all there is to it. -/
theorem Holds.unique {buffer' : Buffer α initial} (hholds : Holds buffer items)
    (hholds' : Holds buffer' items) : buffer = buffer' := by
  obtain ⟨array, capacity⟩ := buffer
  obtain ⟨array', capacity'⟩ := buffer'
  have harray : array = array' := Array.toList_inj.1 (hholds.toList_eq.trans hholds'.toList_eq.symm)
  have hcapacity : capacity = capacity' := hholds.room.unique hholds'.room
  rw [harray, hcapacity]

end Buffer

/-! ### Calls -/

namespace ByteBuffer

/-- A call that appends to the instruction bytes. -/
inductive Call where
  | push (byte : UInt8)
  | pushWrapped (value : Int)
  | extend (bytes : List UInt8)

/-- The bytes that a call gives. A signed value gives its remainder. -/
def Call.given : Call → List UInt8
  | push byte => [byte]
  | pushWrapped value => [UInt8.ofNat (value % 256).toNat]
  | extend bytes => bytes

def perform (buffer : ByteBuffer) : Call → ByteBuffer
  | .push byte => Buffer.push buffer byte
  | .pushWrapped value => buffer.pushWrapped value
  | .extend bytes => Buffer.extend buffer bytes

/-- A new buffer after some calls. -/
def after (calls : List Call) : ByteBuffer := calls.foldl perform .empty

theorem holds_perform {buffer : ByteBuffer} {bytes : List UInt8} (hholds : buffer.Holds bytes)
    (call : Call) : (buffer.perform call).Holds (bytes ++ call.given) := by
  cases call with
  | push byte => exact hholds.push (by decide) byte
  | pushWrapped value => exact hholds.push (by decide) (UInt8.ofInt value)
  | extend more => exact hholds.extend (by decide) more

theorem holds_foldl_perform {buffer : ByteBuffer} {bytes : List UInt8}
    (hholds : buffer.Holds bytes) (calls : List Call) :
    (calls.foldl perform buffer).Holds (bytes ++ calls.flatMap Call.given) := by
  induction calls generalizing buffer bytes with
  | nil =>
    rw [List.flatMap_nil, List.append_nil]
    exact hholds
  | cons call calls ih =>
    rw [List.flatMap_cons, ← List.append_assoc]
    exact ih (holds_perform hholds call)

theorem holds_after_calls (calls : List Call) : (after calls).Holds (calls.flatMap Call.given) :=
  holds_foldl_perform Buffer.holds_empty calls

theorem flatMap_given_push (bytes : List UInt8) :
    (bytes.map Call.push).flatMap Call.given = bytes := by
  rw [List.flatMap_map]
  exact List.flatMap_singleton' bytes

end ByteBuffer

open ByteBuffer

/-- Whatever calls a new buffer of bytes gets, it holds what they give, one after the other, in the
least room for it, and it is the buffer that gets the same bytes one by one. A buffer of offsets,
which are given one by one in any case, holds them in the same way. -/
theorem Buffer.holds_after (calls : List Call) (offsets : List UInt16) :
    ((after calls).toList = calls.flatMap Call.given ∧
      (after calls).size = (calls.flatMap Call.given).length ∧
      IsRoomFor 128 (calls.flatMap Call.given).length (after calls).capacity ∧
      after calls = after ((calls.flatMap Call.given).map Call.push)) ∧
    (offsets.foldl push (empty : OffsetBuffer)).toList = offsets ∧
      (offsets.foldl push (empty : OffsetBuffer)).size = offsets.length ∧
      IsRoomFor 16 offsets.length (offsets.foldl push (empty : OffsetBuffer)).capacity := by
  constructor
  · have hholds := holds_after_calls calls
    have hsingle := holds_after_calls ((calls.flatMap Call.given).map Call.push)
    rw [flatMap_given_push] at hsingle
    exact ⟨hholds.toList_eq, hholds.size_eq, hholds.room, hholds.unique hsingle⟩
  · have hholds : (offsets.foldl push (empty : OffsetBuffer)).Holds offsets :=
      holds_empty.extend (by decide) offsets
    exact ⟨hholds.toList_eq, hholds.size_eq, hholds.room⟩

-- The last byte that fits into a room does not double it, and the next one does.
example : ((Buffer.empty : ByteBuffer).extend (List.replicate 256 0)).capacity = 256 ∧
    ((Buffer.empty : ByteBuffer).extend (List.replicate 257 0)).capacity = 512 := by
  decide +kernel

end Chiptune
