import DmaStream.Driver.Attempt
import DmaStream.Stream

namespace DmaStream

/-- Part of a synchronization step. -/
abbrev Exchange (σ : Type) : Type → Type := Attempt σ Link

namespace Exchange
open Attempt

variable {σ : Type}

/-- The reply to a call that must not fail once a session runs. -/
def synced {α : Type} (d : Direction) : Except Error α → Exchange σ α
  | .ok a => pure a
  | .error e => throw (.ofSyncCall d e)

/-- The stream of a direction. A device that names another direction is at fault. -/
def stream (d : Direction) : Exchange σ Stream := do
  match (← get).streams.get d with
  | some s => return s
  | none => throw (.violation d .noStream)

/-- Replace the channel of a direction. -/
def setChannel (d : Direction) (c : Channel) : Exchange σ Unit :=
  modify fun l => { l with streams := l.streams.setChannel d c }

/-- Slots that were delivered and never claimed are given up when their batch is closed. -/
def noteUnclaimed (c : Channel) : Exchange σ Unit := do
  if 0 < c.unclaimed then
    note (.unclaimedDropped c.unclaimed)

/-- Close the current batch of a direction, so that nothing of it can be claimed. -/
def retire (d : Direction) : Exchange σ Unit := do
  let s ← stream d
  noteUnclaimed s.channel
  setChannel d s.channel.retire

/-- Serve some directions in order. -/
def serve (dirs : Directions) (one : Direction → Exchange σ Unit) : Exchange σ Unit :=
  dirs.toList.forM one

end Exchange

end DmaStream
