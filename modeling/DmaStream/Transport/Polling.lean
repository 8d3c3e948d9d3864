import DmaStream.Mode
import DmaStream.Transport.Batch
import DmaStream.Transport.Counters

namespace DmaStream.Exchange
open Attempt

variable {σ : Type}

/-- Serve one direction: exchange counters, or move a batch. -/
def serveOne (dev : Device σ) : Mode → Direction → Exchange σ Unit
  | .zeroCopy, d => syncCounters dev d
  | .copy, d => moveBatch dev d

/-- The answer holds the directions that were served; none is a timeout. -/
def pollingStep (dev : Device σ) (mode : Mode) (timeout : Nat) : Exchange σ Directions := do
  let active := (← get).streams.active
  let ready ← ofReply (← ask dev (.waitReady active timeout))
  serve ready (serveOne dev mode)
  return ready

end DmaStream.Exchange
