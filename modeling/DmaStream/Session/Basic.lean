import DmaStream.Session.Stats
import DmaStream.Transport

namespace DmaStream

/-- What an open session holds. -/
structure Live where
  transport : Transport
  mode : Mode
  lock : Directions
  link : Link
  deriving DecidableEq

/-- A session, open or closed, and its statistics. -/
structure Session where
  live : Option Live
  stats : Stats
  deriving DecidableEq

namespace Session

/-- The session has not ended. -/
def isOpen (s : Session) : Bool := s.live.isSome

/-- The mode of an open session. -/
def mode (s : Session) : Option Mode := s.live.map (·.mode)

/-- The directions this session has locked. -/
def locked (s : Session) : Directions :=
  match s.live with
  | some live => live.lock
  | none => ∅

/-- The stream of a direction, while the session is open. -/
def stream (s : Session) (d : Direction) : Option Stream := do
  (← s.live).link.streams.get d

/-- Slots that can be claimed right now. -/
def available (s : Session) : PerDirection Nat :=
  match s.live with
  | some live => .ofFn live.link.streams.available
  | none => .both 0

/-- Claims of one direction that would succeed in a row before the next step. -/
def claimable (s : Session) (d : Direction) : Nat :=
  match s.live with
  | some live => live.link.streams.claimable d
  | none => 0

end Session

end DmaStream
