import DmaStream.Driver.Call

namespace DmaStream

/-- A word read as a signed number of 64 bits. -/
def signed (n : Nat) : Int := Int.bmod n wordSize
where
  wordSize : Nat := 1 <<< 64

/-- Control of one engine; the driver fills in the counters. -/
structure EngineRecord where
  enable : Bool
  hwCount : Int
  swCount : Int
  deriving DecidableEq

namespace EngineRecord

/-- The record that switches an engine; the driver overwrites its counts. -/
def request (enable : Bool) : EngineRecord := ⟨enable, 0, 0⟩

/-- The counters the driver filled in; neither can be negative. -/
def counts (r : EngineRecord) (d : Direction) : Except Error Counts :=
  if r.hwCount < 0 then .error (.violation d (.negativeHwCount r.hwCount))
  else if r.swCount < 0 then .error (.violation d (.negativeSwCount r.swCount))
  else .ok ⟨r.hwCount.toNat, r.swCount.toNat⟩

end EngineRecord

/-- A flag of a record: one byte, set if it is not zero. -/
def flag (b : Bool) : Nat := if b then 1 else 0

/-- Locks asked for, locks given back, and whether the driver granted what was asked for. -/
structure LockRecord where
  readerRequest : Nat
  writerRequest : Nat
  readerRelease : Nat
  writerRelease : Nat
  readerStatus : Nat
  writerStatus : Nat
  deriving DecidableEq

namespace LockRecord

/-- The record that asks for locks. -/
def request (wanted : Directions) : LockRecord :=
  ⟨flag (wanted.has .outbound), flag (wanted.has .inbound), 0, 0, 0, 0⟩

/-- The record that gives locks back. -/
def release (held : Directions) : LockRecord :=
  ⟨0, 0, flag (held.has .outbound), flag (held.has .inbound), 0, 0⟩

/-- What was asked for and not refused. A status alone grants nothing. -/
def granted (r : LockRecord) : Directions :=
  (if r.writerRequest ≠ 0 ∧ r.writerStatus ≠ 0 then .single .inbound else ∅) ∪
    (if r.readerRequest ≠ 0 ∧ r.readerStatus ≠ 0 then .single .outbound else ∅)

end LockRecord

/-- The layout record before the driver fills it in. -/
def Layout.unset : Layout := .both ⟨0, 0, 0⟩

end DmaStream
