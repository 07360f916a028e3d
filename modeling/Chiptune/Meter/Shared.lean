import Chiptune.Meter.Bank

/-!
# Shared meters

Several handles to one bank. Whoever holds a handle can feed the bank, clear it and look at it, and
all handles show the same.
-/

namespace Chiptune.Meter

/-- A bank and how many handles to it are out. -/
structure Shared where
  bank : Bank
  handles : Nat := 1
deriving DecidableEq, Repr

namespace Shared

/-- What the holder of a handle can do with it. -/
inductive Action where
  | clone
  | tick (samples : List UInt8)
  | reset

/-- The effect of an action through any one of the handles. -/
def perform (shared : Shared) : Action → Shared
  | .clone => { shared with handles := shared.handles + 1 }
  | .tick samples => { shared with bank := shared.bank.tick samples }
  | .reset => { shared with bank := shared.bank.reset }

/-- What each handle shows. -/
def snapshots (shared : Shared) : List Snapshot :=
  List.replicate shared.handles shared.bank.snapshot

end Shared

end Chiptune.Meter
