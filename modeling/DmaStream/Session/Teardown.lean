import DmaStream.Lock
import DmaStream.Session.Basic

/-!
The end of a session: cancel what is in flight, stop the engines, release the lock, give the rings
back and close the handle. A failure on the way is remembered and stops nothing.
-/
namespace DmaStream

variable {σ : Type}

namespace Streams

/-- Give the rings back, inbound first. -/
def discard (dev : Device σ) (streams : Streams) : Act σ Unit :=
  Direction.all.forM fun d =>
    match streams.get d with
    | some stream => stream.ring.discard dev d
    | Option.none => pure ()

@[simp] theorem discard_disable (dev : Device σ) (streams : Streams) :
    streams.disable.discard dev = streams.discard dev := by
  unfold discard
  congr 1
  funext d
  rw [get_disable]
  cases streams.get d <;> rfl

end Streams

namespace Live

/-- Turn one engine off. The answer holds the first failure so far. -/
def stopEngine (dev : Device σ) (d : Direction) (stats : Stats) (failure : Option Error) :
    Act σ (Stats × Option Error) := do
  match ← dev.answer (.enableChannel d false) with
  | .ok counts =>
    Act.note (.channelDisabled d counts)
    return (stats.recordFinal d counts, failure)
  | .error e =>
    Act.note (.disableFailed d e)
    return (stats, failure.or (some e))

/-- Turn the engines off, inbound first. -/
def stopEngines (dev : Device σ) (streams : Streams) (stats : Stats) :
    Act σ (Stats × Option Error) :=
  streams.active.toList.foldlM
    (fun (stats, failure) d => stopEngine dev d stats failure) (stats, none)

/-- Release everything the session holds; the answer holds the first failure. -/
def tearDown (dev : Device σ) (live : Live) (stats : Stats) : Act σ (Stats × Option Error) := do
  Transport.abandon dev live.link.flight
  let (stats, failure) ← stopEngines dev live.link.streams stats
  -- A channel is disabled even if its engine could not be stopped.
  let streams := live.link.streams.disable
  let stats := stats.record streams
  let failure ←
    match ← Lock.release dev live.lock with
    | .ok () => pure failure
    | .error e =>
      Act.note (.releaseFailed e)
      pure (failure.or (some e))
  streams.discard dev
  dev.close
  Act.note (.sessionClosed live.mode (stats.directions.inbound.swCount)
    (stats.directions.outbound.swCount) stats.steps)
  return (stats, failure)

end Live

namespace Session

/-- End a session and answer its final statistics, or the first failure on the way. -/
def cleanup (dev : Device σ) (s : Session) : Act σ (Except Error Stats) := do
  match s.live with
  | none => return .ok s.stats
  | some live =>
    match ← live.tearDown dev s.stats with
    | (stats, none) => return .ok stats
    | (_, some e) => return .error e

/-- End a session in passing: a failure is only logged. -/
def drop (dev : Device σ) (s : Session) : Act σ Unit := do
  if let some live := s.live then
    if let (_, some e) ← live.tearDown dev s.stats then
      Act.note (.teardownFailed e)

end Session

end DmaStream
