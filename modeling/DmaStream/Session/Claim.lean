import DmaStream.Session.Basic

namespace DmaStream

namespace Live

/-- Put a changed channel in the place of the one of its direction. -/
def setChannel (live : Live) (d : Direction) (c : Channel) : Live :=
  { live with link := { live.link with streams := live.link.streams.setChannel d c } }

end Live

namespace Session

variable {σ : Type}

/-- The slot handed out next, and the session after it. -/
def claim (s : Session) (d : Direction) : Except Fault (Option (Ring × Nat × Session)) := do
  let some live := s.live | return none
  let some stream := live.link.streams.get d | return none
  let some (index, channel) ← stream.channel.claim | return none
  return some (stream.ring, index, { s with live := some (live.setChannel d channel) })

/-- Claim a slot and overwrite it; the answer holds the bytes it had before. -/
def claimSlot (s : Session) (d : Direction) (update : ByteArray → ByteArray) :
    Act σ (Option ByteArray × Session) := do
  match ← Act.ofFaulty (s.claim d) with
  | none => return (none, s)
  | some (ring, index, s) =>
    let bytes ← ring.readSlot index
    ring.writeSlot index (update bytes)
    return (some bytes, s)

end Session

end DmaStream
