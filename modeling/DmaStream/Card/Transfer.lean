import DmaStream.Card.Tick

namespace DmaStream.Card

/-- Slots an inbound transfer into `len` bytes moves. -/
def readable (c : Card) (len : Nat) : Nat :=
  let inb := c.engines.inbound
  min (inb.hwCount - inb.swCount) (len / c.shape.slotSize)

/-- Slots an outbound transfer of `len` bytes moves. -/
def writable (c : Card) (len : Nat) : Nat :=
  let out := c.engines.outbound
  min (c.shape.slotCount - (out.swCount - out.hwCount)) (len / c.shape.slotSize)

/-- Account for slots moved between ring and buffer. -/
def release (c : Card) (d : Direction) (slots : Nat) : Card :=
  let e := c.engines.get d
  c.setEngine d { e with swCount := e.swCount + slots }

/-- Copy the first filled slots into a buffer. -/
def copyOut (c : Card) (buf : Span) (slots : Nat) (m : Memory) : Memory :=
  (List.range slots).foldl
    (fun m i => m.write buf.region (i * c.shape.slotSize)
      (c.readSlot m .inbound (c.engines.inbound.swCount + i))) m

/-- Copy the start of a buffer into the first free slots. -/
def copyIn (c : Card) (buf : Span) (slots : Nat) (m : Memory) : Memory :=
  (List.range slots).foldl
    (fun m i => c.writeSlot m .outbound (c.engines.outbound.swCount + i)
      (m.read buf.region (i * c.shape.slotSize) c.shape.slotSize)) m

/-- Move slots between a buffer and the ring of a direction; the answer is how many. -/
def moveSlots (d : Direction) (buf : Span) : Act Card Nat :=
  modifyGet fun w =>
    let c := w.machine
    match d with
    | .inbound =>
      let n := c.readable buf.len
      (n, { w with machine := c.release d n, memory := c.copyOut buf n w.memory })
    | .outbound =>
      let n := c.writable buf.len
      (n, { w with machine := c.release d n, memory := c.copyIn buf n w.memory })

/-- Let the next mishap of some kind happen, if there is one. -/
def strike (kind : Mishap → Bool) : Act Card (Option Mishap) := do
  match (← get).machine.takeMishap kind with
  | none => return none
  | some (mishap, card) =>
    modify fun w => { w with machine := card }
    return some mishap

/-- One copy transfer; the answer is in bytes. -/
def transfer (d : Direction) (buf : Span) : Act Card Nat := do
  if let some (.shortCompletion _ bytes) ← strike fun
      | .shortCompletion e _ => e == d
      | _ => false then
    return bytes
  tick
  let c := (← get).machine
  if (c.engines.get d).enabled = false then
    return 0
  if c.shape.slotSize = 0 then
    Act.fault .divisionByZero
  let slots ← moveSlots d buf
  if d = .outbound then
    tick
  return slots * c.shape.slotSize

end DmaStream.Card
