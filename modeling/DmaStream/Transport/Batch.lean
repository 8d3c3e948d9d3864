import DmaStream.Transport.Basic

namespace DmaStream.Exchange
open Attempt

variable {σ : Type}

/-- Account for a transfer. It must have moved whole slots, and no more bytes than were asked
for. -/
def finishBatch (d : Direction) (requested moved : Nat) : Exchange σ Unit := do
  let s ← stream d
  let slotSize := s.ring.slotSize
  if requested < moved then
    throw (.violation d (.badTransfer moved requested slotSize))
  if slotSize = 0 then
    lift (Act.fault .divisionByZero)
  if moved % slotSize ≠ 0 then
    throw (.violation d (.badTransfer moved requested slotSize))
  noteUnclaimed s.channel
  setChannel d (s.channel.completeBatch (moved / slotSize))
  note (.batchMoved d (moved / slotSize))

/-- Move one batch and wait for it. -/
def moveBatch (dev : Device σ) (d : Direction) : Exchange σ Unit := do
  retire d
  let s ← stream d
  let buf ← ofFaulty (s.ring.batch s.channel.bound)
  let moved ← synced d (← match d with
    | .inbound => ask dev (.read buf)
    | .outbound => ask dev (.write buf))
  finishBatch d buf.len moved

/-- Hand one batch over. Nothing of it may be claimed until the transfer is accounted for. The
answer says whether it already is. -/
def submitBatch (dev : Device σ) (d : Direction) : Exchange σ Bool := do
  retire d
  let s ← stream d
  let buf : Span := ⟨s.ring.region, s.channel.bound * s.ring.slotSize⟩
  match ← synced d (← ask dev (.submit d buf)) with
  | .completed moved =>
    finishBatch d buf.len moved
    return true
  | .pending =>
    modify fun l => { l with flight := l.flight.launch d buf.len }
    return false

end DmaStream.Exchange
