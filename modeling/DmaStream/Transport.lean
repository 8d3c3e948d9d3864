import DmaStream.Transport.Overlapped
import DmaStream.Transport.Polling

namespace DmaStream

/-- How a session waits, and for how long at most. -/
structure Transport where
  method : Method
  /-- Bound on each wait, in microseconds. -/
  timeout : Nat
  deriving DecidableEq

namespace Transport

variable {σ : Type}

/-- One bounded step. The answer holds the directions whose state is fresh; if it is empty, the wait
ended without news. -/
def step (t : Transport) (dev : Device σ) (mode : Mode) : Exchange σ Directions :=
  match t.method with
  | .polling => Exchange.pollingStep dev mode t.timeout
  | .overlapped => Exchange.overlappedStep dev mode t.timeout

/-- Give up every transfer in flight. -/
def abandon (dev : Device σ) (flight : Flight) : Act σ Unit := do
  if flight.pending.isEmpty then
    return
  Act.note (.cancelling flight.pending)
  dev.cancelAll

end Transport

end DmaStream
