import DmaStream.Card
import DmaStream.Config
import DmaStream.Mode
import DmaStream.Scripted.Device
import DmaStream.Scripted.Kernel

namespace DmaStream

/-- How a buffer is overwritten: all of it, then its start. -/
structure Overwrite where
  fill : Option UInt8
  write : Option ByteArray

namespace Overwrite

/-- The bytes after an overwrite, as many as before. -/
def apply (o : Overwrite) (b : ByteArray) : ByteArray :=
  let filled :=
    match o.fill with
    | some x => Bytes.replicate b.size x
    | none => b
  match o.write with
  | some src => Bytes.patch filled 0 src
  | none => filled

end Overwrite

/-- Where a session is started. -/
inductive Site where
  /-- A fresh handle of a board. -/
  | card (name : String)
  /-- A named handle, which loses its name unless it is shared. -/
  | device (name : String) (share : Bool)

/-- What has a textual description. -/
inductive Kind where
  | card
  | session
  | lock
  | ring
  | device
  deriving DecidableEq

/-- What a bench is told to do. -/
inductive Command where
  | addCard (name : String) (shape : CardShape)
  | openCard (card name : String)
  | addScripted (name : String) (script : DeviceScript) (layout : Layout) (bare : Bool)
  | openNode (name path : String) (script : KernelScript)
  /-- Start a session; a recorded one reports what its transport does. -/
  | start (name : String) (site : Site) (method : Method) (recorded : Bool) (config : Config)
  | acquire (name device : String) (wanted : Directions)
  | addBuffer (name : String) (len : Nat) (edit : Overwrite)
  | allocateRing (name : String) (d : Direction) (slotSize slotCount : Nat)
  /-- A ring on a region of its own, as if it were mapped. -/
  | shareRing (name : String) (len slotSize slotCount : Nat)
  | close (device : String)
  | release (lock : String)
  | dropLock (lock : String)
  | dropRing (ring : String)
  | cleanup (session : String)
  | dropSession (session : String)
  | showCard (card : String)
  | inject (card : String) (mishap : Mishap)
  | extendScript (device : String) (script : DeviceScript)
  | extendKernel (script : KernelScript)
  | setCounts (device : String) (d : Direction) (counts : Counts)
  /-- Overwrite memory a scripted device has mapped. -/
  | poke (device : String) (d : Direction) (offset : Nat) (edit : Overwrite)
  | peek (device : String) (d : Direction) (offset : Nat)
  /-- A call without a buffer. -/
  | call (device : String) (c : Call)
  | mapRing (name device : String) (d : Direction) (g : Geometry)
  | read (device : String) (len : Nat) (preset : Overwrite)
  | write (device : String) (len : Nat) (data : Overwrite)
  | submit (device : String) (d : Direction) (buffer : String)
  | showBuffer (buffer : String)
  | showLock (lock : String)
  | step (session : String)
  | showSession (session : String)
  /-- Claim one slot. -/
  | next (session : String) (d : Direction) (edit : Overwrite)
  /-- Claim slots until there is none, within reason. -/
  | nextAll (session : String) (d : Direction) (edit : Overwrite)
  /-- Rounds of a step and of claims in both directions. -/
  | pump (session : String) (rounds : Nat) (outMax inMax : Option Nat)
  /-- Look at a slot of a session's ring without claiming it. -/
  | sessionSlot (session : String) (d : Direction) (index : Nat)
  | showRing (ring : String)
  | slotOffset (ring : String) (index : Nat)
  | slot (ring : String) (index : Nat)
  | editSlot (ring : String) (index : Nat) (edit : Overwrite)
  | editBatch (ring : String) (slots : Nat) (edit : Overwrite)
  | describe (kind : Kind) (name : String)

/-- A command, and how many of the bytes it shows are wanted. -/
structure BenchStep where
  command : Command
  shown : Option Nat

end DmaStream
