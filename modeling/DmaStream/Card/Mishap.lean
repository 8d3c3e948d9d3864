import DmaStream.Direction

namespace DmaStream

/-- Something that goes wrong once, the next time it can. -/
inductive Mishap where
  /-- The next copy transfer claims to have moved `bytes`, and moves nothing. -/
  | shortCompletion (d : Direction) (bytes : Nat)
  /-- The next exchange of counters fails. -/
  | syncFailure (d : Direction)
  /-- The next asynchronous submission fails. -/
  | submitFailure (d : Direction)
  /-- The next report of counters is one too low. -/
  | counterRollback (d : Direction)
  deriving DecidableEq

namespace Mishap

/-- How the log words a mishap. -/
def describe : Mishap → String
  | shortCompletion d bytes =>
    s!"ShortCompletion \x7b direction: {side d}, bytes: {bytes} \x7d"
  | syncFailure d => s!"SyncFailure \x7b direction: {side d} \x7d"
  | submitFailure d => s!"SubmitFailure \x7b direction: {side d} \x7d"
  | counterRollback d => s!"CounterRollback \x7b direction: {side d} \x7d"
where
  side : Direction → String
    | .inbound => "Inbound"
    | .outbound => "Outbound"

end Mishap

end DmaStream
