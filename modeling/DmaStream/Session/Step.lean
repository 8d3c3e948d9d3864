import DmaStream.Session.Teardown

namespace DmaStream

/-- What the transport did in a step. -/
structure Exchanged where
  /-- The directions it brought up to date, unless it failed. -/
  synced : Option Directions
  /-- Transfers in flight at its end. -/
  pending : Directions
  deriving DecidableEq

/-- What a step tells its caller, and what its transport did. -/
structure StepReport where
  /-- Slots that can be claimed now. -/
  result : Except Error (PerDirection Nat)
  /-- Absent if the session was closed before. -/
  exchanged : Option Exchanged

namespace Session

variable {σ : Type}

/-- The session after a step that succeeded. -/
def conclude (s : Session) (live : Live) (synced : Directions) : Act σ Session := do
  let stats := s.stats.countStep
  let stats ←
    if synced.isEmpty then
      Act.note (.stepTimedOut stats.steps)
      pure stats.countTimeout
    else
      pure stats
  return ⟨some live, stats.record live.link.streams⟩

/-- The session after a step that failed. -/
def recover (dev : Device σ) (s : Session) (live : Live) (e : Error) : Act σ Session := do
  let stats := s.stats.countStep
  if e.isFatal then
    Act.note (.tearingDown e)
    let (stats, failure) ← live.tearDown dev stats
    if let some second := failure then
      Act.note (.teardownAfterFatal second)
    return ⟨none, stats⟩
  else
    return ⟨some live, stats⟩

/-- One synchronization step. A timeout is no error. -/
def step (dev : Device σ) (s : Session) : Act σ (StepReport × Session) := do
  match s.live with
  | none => return (⟨.error .sessionClosed, none⟩, s)
  | some live =>
    let (outcome, link) ← (live.transport.step dev live.mode).run.run live.link
    let live := { live with link }
    match outcome with
    | .ok synced =>
      let s ← s.conclude live synced
      return (⟨.ok s.available, some ⟨some synced, link.flight.pending⟩⟩, s)
    | .error e =>
      let s ← s.recover dev live e
      return (⟨.error e, some ⟨none, link.flight.pending⟩⟩, s)

end Session

end DmaStream
