/-!
# Growable buffers

A buffer counts the room it has reserved. It starts with none, takes its initial room when the
first item comes, and doubles the room whenever an item comes to a full buffer.
-/

namespace Chiptune

/-- Items with the room reserved for them, which starts at `initial` items. -/
structure Buffer (α : Type) (initial : Nat) where
  items : Array α
  capacity : Nat
deriving DecidableEq, Repr

namespace Buffer

variable {α : Type} {initial : Nat}

def empty : Buffer α initial := ⟨#[], 0⟩

def size (buffer : Buffer α initial) : Nat := buffer.items.size

def isEmpty (buffer : Buffer α initial) : Bool := buffer.items.isEmpty

def toList (buffer : Buffer α initial) : List α := buffer.items.toList

/-- The room after one more item is asked for. -/
def grownCapacity (initial size capacity : Nat) : Nat :=
  if size = capacity then (if capacity = 0 then initial else capacity * 2) else capacity

def push : Buffer α initial → α → Buffer α initial
  | ⟨items, capacity⟩, item =>
    let capacity := grownCapacity initial items.size capacity
    ⟨items.push item, capacity⟩

theorem toList_push (buffer : Buffer α initial) (item : α) :
    (buffer.push item).toList = buffer.toList ++ [item] := by
  simp [push, toList]

/-- Appends items one by one. -/
def extend (buffer : Buffer α initial) (items : List α) : Buffer α initial :=
  items.foldl push buffer

theorem toList_extend (buffer : Buffer α initial) (items : List α) :
    (buffer.extend items).toList = buffer.toList ++ items := by
  induction items generalizing buffer with
  | nil => simp [extend]
  | cons item items ih =>
    have hrest := ih (buffer.push item)
    rw [toList_push] at hrest
    simpa [extend] using hrest

end Buffer

/-- Instruction bytes. -/
abbrev ByteBuffer := Buffer UInt8 128

/-- Positions of tracks within the instruction bytes. -/
abbrev OffsetBuffer := Buffer UInt16 16

/-- Appends the low eight bits of a signed value. -/
def ByteBuffer.pushWrapped (buffer : ByteBuffer) (value : Int) : ByteBuffer :=
  buffer.push (UInt8.ofInt value)

end Chiptune
