import DmaStream.Driver.Device

/-!
An emulated board with its driver: two engines, a ring of slots in front of each, and a loopback
path that carries slots from the outbound ring to the inbound ring. Any number of handles may be
open on it.
-/
namespace DmaStream

/-- The dimensions of a board. -/
structure CardShape where
  slotSize : Nat
  slotCount : Nat
  /-- Slots each engine may complete per tick. -/
  batchPerTick : Nat
  deriving DecidableEq

namespace CardShape

/-- 32 slots of 1 KiB, eight of them per tick. -/
def default : CardShape := ⟨1024, 32, 8⟩

/-- Bytes of one ring. -/
def ringLen (s : CardShape) : Nat := s.slotSize * s.slotCount

/-- What the loopback path takes for each slot it can hold, apart from the slot's own bytes. -/
def fifoEntry : Nat := 16

/-- What the loopback path takes before any slot is on it. -/
def fifoLen (s : CardShape) : Nat := fifoEntry * s.slotCount

end CardShape

/-- One engine of a board: whether it is on, its counters, and whose it is. -/
structure Engine where
  enabled : Bool
  hwCount : Nat
  swCount : Nat
  /-- The handle that holds the lock of this engine. -/
  owner : Option Nat
  deriving DecidableEq

namespace Engine

/-- An engine that is off and belongs to nobody. -/
def idle : Engine := ⟨false, 0, 0, none⟩

/-- What the driver reports of an engine. -/
def counts (e : Engine) : Counts := ⟨e.hwCount, e.swCount⟩

/-- The engine is free, or held by this handle already. -/
def grantable (e : Engine) (id : Nat) : Bool :=
  e.owner.isNone || e.owner == some id

/-- Switch the engine; one that was off starts from zero. -/
def switch (e : Engine) (enable : Bool) : Engine :=
  if enable && !e.enabled then { e with enabled := true, hwCount := 0, swCount := 0 }
  else { e with enabled := enable }

end Engine

/-- An open or closed handle, with the buffers it has handed over and not got back. -/
structure Handle where
  isOpen : Bool
  inFlight : PerDirection (Option Span)
  deriving DecidableEq

/-- A board, and what its driver keeps of its clients. -/
structure Card where
  shape : CardShape
  loopback : Bool
  engines : PerDirection Engine
  /-- Where the driver keeps its two rings. -/
  rings : PerDirection RegionId
  /-- Slots on the loopback path, oldest first. -/
  fifo : List ByteArray
  /-- The handles opened so far; the first has id 1. -/
  handles : Array Handle
  /-- Misbehaviour still to come, in order of injection. -/
  mishaps : List Mishap
  deriving DecidableEq

namespace Card

instance : Inhabited Card := ⟨⟨⟨0, 0, 0⟩, false, .both .idle, .both ⟨0⟩, [], #[], []⟩⟩

/-- A board with both engines idle and zeroed rings. -/
def create {σ : Type} (shape : CardShape) : Act σ Card := do
  let inbound ← Act.alloc shape.ringLen
  let outbound ← Act.alloc shape.ringLen
  Act.reserve shape.fifoLen
  return ⟨shape, false, .both .idle, ⟨inbound, outbound⟩, [], #[], []⟩

/-- How many handles are open. -/
def openHandles (c : Card) : Nat :=
  (c.handles.filter (·.isOpen)).size

/-- The counters of the engine of a direction. -/
def counts (c : Card) (d : Direction) : Counts :=
  (c.engines.get d).counts

/-- Replace the engine of a direction. -/
def setEngine (c : Card) (d : Direction) (e : Engine) : Card :=
  { c with engines := c.engines.set d e }

/-- The buffers of one handle that are in flight. -/
def inFlight (c : Card) (id : Nat) : PerDirection (Option Span) :=
  match c.handles[id - 1]? with
  | some h => h.inFlight
  | none => .both none

/-- Replace the buffer that a handle has in flight in a direction. -/
def setInFlight (c : Card) (id : Nat) (d : Direction) (buf : Option Span) : Card :=
  { c with
    handles := c.handles.modify (id - 1) fun h => { h with inFlight := h.inFlight.set d buf } }

/-- Where a slot lies in its ring. Slots are named by the counters of the engine. -/
def slotOffset (c : Card) (index : Nat) : Nat :=
  index % c.shape.slotCount * c.shape.slotSize

/-- The bytes of a slot of a ring of the board. -/
def readSlot (c : Card) (m : Memory) (d : Direction) (index : Nat) : ByteArray :=
  m.read (c.rings.get d) (c.slotOffset index) c.shape.slotSize

/-- Put bytes into a slot of a ring of the board. -/
def writeSlot (c : Card) (m : Memory) (d : Direction) (index : Nat) (data : ByteArray) : Memory :=
  m.write (c.rings.get d) (c.slotOffset index) data

/-- The directions of some interest that have data to read, or room to write. -/
def ready (c : Card) (interest : Directions) : Directions :=
  let inb := c.engines.inbound
  let out := c.engines.outbound
  let filled : Bool := inb.enabled && decide (inb.swCount < inb.hwCount)
  let free : Bool := out.enabled && decide (out.swCount - out.hwCount < c.shape.slotCount)
  (if interest.has .inbound && filled then .single .inbound else ∅) ∪
    (if interest.has .outbound && free then .single .outbound else ∅)

/-- The first mishap of some kind, and the board without it. -/
def takeMishap (c : Card) (kind : Mishap → Bool) : Option (Mishap × Card) := do
  let mishap ← c.mishaps.find? kind
  return (mishap, { c with mishaps := c.mishaps.erase mishap })

end Card

end DmaStream
