import DmaStream.Card
import DmaStream.Session.Step

namespace DmaStream

/-- A session, and its board where it was started on one. -/
structure SessionView where
  session : Session
  card : Option Card

/-- What a recorded transport did in a step. -/
structure TransportView where
  /-- The directions brought up to date, unless the transport failed. -/
  synced : Option Directions
  /-- Transfers in flight, where there can be any. -/
  pending : Option Directions
  /-- Transfers in flight after they were given up, where the session ended. -/
  abandoned : Option Directions
  deriving DecidableEq

/-- The counters of a direction after a claim. -/
structure ClaimView where
  hwCount : Nat
  swCount : Nat
  claimed : Nat
  available : Nat
  cursor : Nat
  deriving DecidableEq

/-- What one round of pumping did. -/
structure Round where
  available : PerDirection Nat
  /-- Outbound slots filled. -/
  sent : Nat
  /-- The start of each inbound slot. -/
  received : List ByteArray
  deriving DecidableEq

/-- The answer to a command. -/
inductive Report where
  | done
  | failed (e : Error)
  /-- No object has this name. -/
  | unknown (name : String)
  | card (c : Card)
  | opened (id : Nat) (c : Card)
  | started (view : SessionView)
  | notStarted (e : Error) (c : Option Card)
  | acquired (held : Directions)
  | ring (r : Ring)
  | mapped (r : Ring)
  /-- A ring on a region of its own, and whether that is empty. -/
  | shared (r : Ring) (regionEmpty : Bool)
  | cleaned (outcome : Except Error Stats) (c : Option Card)
  | dropped (c : Option Card)
  | replied (c : Call) (reply : Reply c)
  | transferred (moved : Nat) (data : ByteArray)
  | bytes (data : Option ByteArray)
  | number (n : Nat)
  | directions (dirs : Directions)
  | stepped (view : SessionView) (result : Except Error (PerDirection Nat))
      (transport : Option TransportView)
  | claimed (cursor : Option Nat) (slot : Option ByteArray) (after : Option ClaimView)
  | slots (data : List ByteArray)
  | pumped (rounds : List (Except Error Round)) (view : SessionView)
  | batch (len : Nat) (data : ByteArray)
  | text (s : String)

namespace Report

/-- Show the start of bytes only. -/
def cutBytes (limit : Nat) (b : ByteArray) : ByteArray := Bytes.slice b 0 limit

/-- Show no more than the start of the bytes in an answer. -/
def cut (limit : Nat) : Report → Report
  | transferred moved data => transferred moved (cutBytes limit data)
  | bytes data => bytes (data.map (cutBytes limit))
  | claimed cursor slot after => claimed cursor (slot.map (cutBytes limit)) after
  | slots data => slots (data.map (cutBytes limit))
  | batch len data => batch len (cutBytes limit data)
  | r => r

end Report

end DmaStream
