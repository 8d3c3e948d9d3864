import DmaStream.Card

/-!
Progress of the board. In a tick the outbound engine consumes released slots, then the inbound
engine fills slots from the loopback path; each moves as many slots as it can, and at most one
batch.
-/
namespace DmaStream.Card

/-- Consumed slots go to the loopback path, and not nowhere. -/
def forwards (c : Card) : Bool :=
  c.loopback && c.engines.inbound.enabled

/-- Slots the outbound engine consumes in one tick; the loopback path holds one ring of them. -/
def consumable (c : Card) : Nat :=
  let out := c.engines.outbound
  if out.enabled then
    let released := min c.shape.batchPerTick (out.swCount - out.hwCount)
    if c.forwards then min released (c.shape.slotCount - c.fifo.length) else released
  else 0

/-- The outbound engine takes released slots, whose bytes go to the loopback path if it is open. -/
def consume (c : Card) (m : Memory) : Card :=
  let out := c.engines.outbound
  let n := c.consumable
  { c with
    engines := c.engines.set .outbound { out with hwCount := out.hwCount + n }
    fifo :=
      if c.forwards then
        c.fifo ++ (List.range n).map fun i => c.readSlot m .outbound (out.hwCount + i)
      else c.fifo }

/-- Slots the inbound engine fills in one tick; it stops a ring's length ahead of software. -/
def deliverable (c : Card) : Nat :=
  let inb := c.engines.inbound
  if inb.enabled then
    min (min c.shape.batchPerTick (c.shape.slotCount + inb.swCount - inb.hwCount)) c.fifo.length
  else 0

/-- Write slots one after the other into a ring. -/
def fill (c : Card) (d : Direction) (start : Nat) (slots : List ByteArray) (m : Memory) : Memory :=
  (slots.zipIdx start).foldl (fun m (data, index) => c.writeSlot m d index data) m

/-- The inbound engine fills the next slots of its ring from the loopback path. -/
def deliver (c : Card) (m : Memory) : Card × Memory :=
  let inb := c.engines.inbound
  let n := c.deliverable
  ({ c with
      engines := c.engines.set .inbound { inb with hwCount := inb.hwCount + n }
      fifo := c.fifo.drop n },
    c.fill .inbound inb.hwCount (c.fifo.take n) m)

/-- Both engines go on by as much as a tick allows, outbound first. -/
def advance (c : Card) (m : Memory) : Card × Memory :=
  (c.consume m).deliver m

/-- One tick. A board with empty slots cannot forward any. -/
def tick : Act Card Unit := do
  let c := (← get).machine
  if c.shape.slotSize = 0 ∧ c.forwards = true ∧ 0 < c.consumable then
    Act.fault .divisionByZero
  modify fun w =>
    let (card, memory) := w.machine.advance w.memory
    { w with machine := card, memory }

end DmaStream.Card
