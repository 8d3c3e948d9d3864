import DmaStream.Transport.Basic

namespace DmaStream.Exchange
open Attempt

variable {σ : Type}

/-- Take a reported hardware count in, unless it contradicts what is known. -/
def observe (d : Direction) (hwCount : Nat) : Exchange σ Unit := do
  let s ← stream d
  if let some v := s.channel.refuse hwCount then
    throw (.violation d v)
  if let some waiting := s.channel.overrun hwCount then
    note (.inboundOverrun waiting s.channel.slotCount)
  setChannel d (s.channel.acceptHwCount hwCount)

/-- Tell the driver what is released, and ask how far hardware is; the answer has to make sense. -/
def syncCounters (dev : Device σ) (d : Direction) : Exchange σ Unit := do
  let s ← stream d
  synced d (← ask dev (.pushSwCount d s.channel.swCount))
  let counts ← synced d (← ask dev (.enableChannel d true))
  observe d counts.hwCount
  let c := (← stream d).channel
  note (.synced d c.hwCount c.swCount c.available)

end DmaStream.Exchange
