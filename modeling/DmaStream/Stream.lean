import DmaStream.Channel
import DmaStream.Ring

namespace DmaStream

/-- A direction of a session. -/
structure Stream where
  channel : Channel
  ring : Ring
  deriving DecidableEq

/-- The streams of a session; a direction that is not streamed has none. -/
abbrev Streams := PerDirection (Option Stream)

namespace Streams

/-- No streams. -/
def none : Streams := .both Option.none

/-- The directions with a stream. -/
def active (s : Streams) : Directions :=
  (if s.inbound.isSome then .single .inbound else ∅) ∪
    (if s.outbound.isSome then .single .outbound else ∅)

/-- How far hardware is in each direction. -/
def hwCounts (s : Streams) : PerDirection (Option Nat) :=
  s.map fun stream => stream.map (·.channel.hwCount)

/-- Slots of a direction that can be claimed now; none where there is no stream. -/
def available (s : Streams) (d : Direction) : Nat :=
  match s.get d with
  | some stream => stream.channel.available
  | Option.none => 0

/-- Claims of one direction that would succeed in a row before the next step. -/
def claimable (s : Streams) (d : Direction) : Nat :=
  match s.get d with
  | some stream => stream.channel.claimable
  | Option.none => 0

/-- Replace the channel of one direction. -/
def setChannel (s : Streams) (d : Direction) (c : Channel) : Streams :=
  s.modify d fun stream => stream.map ({ · with channel := c })

/-- Disable all channels. -/
def disable (s : Streams) : Streams :=
  s.map fun stream => stream.map fun a => { a with channel := a.channel.disable }

theorem get_disable (s : Streams) (d : Direction) :
    s.disable.get d = (s.get d).map fun a => { a with channel := a.channel.disable } :=
  PerDirection.get_map _ _ _

@[simp] theorem has_active (s : Streams) (d : Direction) : s.active.has d = (s.get d).isSome := by
  obtain ⟨i, o⟩ := s
  cases d <;> cases i <;> cases o <;> simp [active, PerDirection.get]

end Streams

/-- Asynchronous transfers that were handed over and not yet accounted for. -/
structure Flight where
  pending : Directions
  /-- Bytes asked for by the latest transfer of each direction. -/
  requested : PerDirection Nat
  deriving DecidableEq

namespace Flight

/-- Nothing in flight, and nothing asked for yet. -/
def none : Flight := ⟨∅, .both 0⟩

/-- A transfer of so many bytes has been handed over. -/
def launch (f : Flight) (d : Direction) (bytes : Nat) : Flight :=
  ⟨f.pending.insert d, f.requested.set d bytes⟩

/-- A transfer is not in flight any more. What it asked for is kept. -/
def land (f : Flight) (d : Direction) : Flight :=
  { f with pending := f.pending.erase d }

end Flight

/-- The side of a session that steps change. -/
structure Link where
  streams : Streams
  flight : Flight
  deriving DecidableEq

end DmaStream
