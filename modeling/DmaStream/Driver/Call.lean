import DmaStream.Error
import DmaStream.Memory

namespace DmaStream

/-- The two counters the driver keeps for one engine. -/
structure Counts where
  hwCount : Nat
  swCount : Nat
  deriving DecidableEq

/-- Where the driver's ring of one direction lies, and its shape. -/
structure Geometry where
  /-- What to pass to the mapping call. -/
  offset : Nat
  slotSize : Nat
  slotCount : Nat
  deriving DecidableEq

/-- Bytes of a ring of this shape. -/
def Geometry.len (g : Geometry) : Nat := g.slotSize * g.slotCount

/-- The driver's two rings. -/
abbrev Layout := PerDirection Geometry

/-- A ring of the driver mapped into the process. -/
structure Mapping where
  region : RegionId
  len : Nat
  deriving DecidableEq

/-- The outcome of handing a buffer over for an asynchronous transfer. -/
inductive Submission where
  | completed (moved : Nat)
  | pending
  deriving DecidableEq

/-- The calls of a session to its device. -/
inductive Call where
  /-- Ask for the locks of some directions, without waiting. -/
  | requestLock (wanted : Directions)
  | releaseLock (held : Directions)
  | setLoopback (enable : Bool)
  /-- Turn an engine on or off and report its counters. -/
  | enableChannel (d : Direction) (enable : Bool)
  | ringLayout
  | mapRing (d : Direction) (g : Geometry)
  /-- Tell the driver how many slots software has released. -/
  | pushSwCount (d : Direction) (count : Nat)
  /-- Copy delivered bytes into a buffer. -/
  | read (buf : Span)
  /-- Copy bytes out of a buffer. -/
  | write (buf : Span)
  /-- Wait until some direction is ready; the timeout is in microseconds. -/
  | waitReady (interest : Directions) (timeout : Nat)
  /-- Start a transfer that may go on using the buffer after the call. -/
  | submit (d : Direction) (buf : Span)
  | waitAny (pending : Directions) (timeout : Nat)
  | cancelAll
  | unmap (d : Direction) (mapping : Mapping)
  /-- Give the handle up. -/
  | close
  deriving DecidableEq

/-- What a call answers. Giving things back never fails. -/
@[reducible] def Reply : Call → Type
  | .requestLock _ => Except Error Directions
  | .releaseLock _ => Except Error Unit
  | .setLoopback _ => Except Error Unit
  | .enableChannel _ _ => Except Error Counts
  | .ringLayout => Except Error Layout
  | .mapRing _ _ => Except Error Mapping
  | .pushSwCount _ _ => Except Error Unit
  | .read _ => Except Error Nat
  | .write _ => Except Error Nat
  | .waitReady _ _ => Except Error Directions
  | .submit _ _ => Except Error Submission
  | .waitAny _ _ => Except Error (Option (Direction × Nat))
  | .cancelAll => Unit
  | .unmap _ _ => Unit
  | .close => Unit

/-- A wait that came back with nothing. -/
def Call.inVain : (c : Call) → Reply c → Bool
  | .waitReady _ _, .ok ready => ready.isEmpty
  | .waitAny _ _, .ok none => true
  | _, _ => false

end DmaStream
