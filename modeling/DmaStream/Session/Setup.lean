import DmaStream.Lock
import DmaStream.Session.Teardown

/-!
The start of a session: lock, route, make a stream for each direction, turn the engines on. Whatever
a start has acquired when it fails is given back, engines first and the handle last; so it is when a
call to the device stops the program.
-/
namespace DmaStream

/-- What a start has acquired so far. -/
structure Holdings where
  lock : Directions
  streams : Streams
  /-- Engines this start has turned on. -/
  running : Directions
  deriving DecidableEq

namespace Holdings

variable {σ : Type}

/-- A start that has acquired nothing. -/
def none : Holdings := ⟨∅, .none, ∅⟩

/-- Turn an engine off again; a failure is only logged. -/
def stopEngine (dev : Device σ) (d : Direction) : Act σ Unit := do
  if let .error e ← dev.answer (.enableChannel d false) then
    Act.note (.disableFailed d e)

/-- Give back what a start had acquired when it failed. -/
def giveBack (dev : Device σ) (h : Holdings) : Act σ Unit := do
  h.running.toList.forM (stopEngine dev)
  Lock.drop dev h.lock
  h.streams.discard dev
  dev.close

end Holdings

namespace Setup
open Attempt hiding ask

variable {σ : Type}

/-- Something done with the device of a start. If it stops the program, what was acquired before is
given back on the way. -/
def guarded {α : Type} (dev : Device σ) (act : Act σ α) : Attempt σ Holdings α := do
  let held ← get
  lift (act.onFault (held.giveBack dev))

/-- A call to the device of a start. -/
def ask (dev : Device σ) (c : Call) : Attempt σ Holdings (Reply c) :=
  guarded dev (dev.answer c)

/-- Lock all directions wanted, or fail. -/
def takeLock (dev : Device σ) (wanted : Directions) : Attempt σ Holdings Unit := do
  let granted ← ofReply (← guarded dev (Lock.acquire dev wanted))
  modify ({ · with lock := granted })

/-- Map a ring of the driver. A mapping too short for its ring is given back at once. -/
def mapRing (dev : Device σ) (d : Direction) (g : Geometry) : Attempt σ Holdings Ring := do
  if let .error flaw := checkGeometry g.slotSize g.slotCount then
    throw (.invalidConfig flaw)
  let mapping ← ofReply (← ask dev (.mapRing d g))
  match ← ofFaulty (Ring.ofMapping g.slotSize g.slotCount mapping) with
  | .ok ring => return ring
  | .error e =>
    ask dev (.unmap d mapping)
    throw e

/-- The rings of the driver, where they are to be shared. -/
def sharedLayout (dev : Device σ) : Mode → Attempt σ Holdings (Option Layout)
  | .zeroCopy => return some (← ofReply (← ask dev .ringLayout))
  | .copy => return Option.none

/-- The ring of a direction: the one of the driver, or a private one in the configured shape. -/
def makeRing (dev : Device σ) (config : Config) (layout : Option Layout) (d : Direction) :
    Attempt σ Holdings Ring := do
  match layout with
  | some layout => mapRing dev d (layout.get d)
  | Option.none => ofReply (← lift (Ring.allocate d config.slotSize config.slotCount))

/-- The ring and the channel of a direction. The bound is that of the ring, whose shape may be the
driver's. -/
def makeStream (dev : Device σ) (config : Config) (layout : Option Layout) (d : Direction) :
    Attempt σ Holdings Unit := do
  let ring ← makeRing dev config layout d
  match config.capacityBound d ring.slotCount with
  | Option.none => lift (Act.fault .emptyRange)
  | some bound =>
    let channel := Channel.create d ring.slotCount bound config.zeroCopy
    modify fun h => { h with streams := h.streams.set d (some ⟨channel, ring⟩) }

/-- Turn one engine on; from now on a failure has to turn it off. -/
def enable (dev : Device σ) (d : Direction) : Attempt σ Holdings Unit := do
  let counts ← ofReply (← ask dev (.enableChannel d true))
  modify fun h => { h with running := h.running.insert d }
  if let some stream := (← get).streams.get d then
    modify fun h => { h with streams := h.streams.setChannel d stream.channel.enable }
    note (.channelEnabled d counts)

/-- The parts of a start in order. Nothing is turned on before all rings are there. -/
def run (dev : Device σ) (config : Config) : Attempt σ Holdings Unit := do
  takeLock dev config.directions
  ofReply (← ask dev (.setLoopback config.loopback))
  let layout ← sharedLayout dev config.mode
  config.directions.toList.forM (makeStream dev config layout)
  config.directions.toList.forM (enable dev)

end Setup

namespace Session

variable {σ : Type}

/-- Start a session on a fresh handle. A failed start closes the handle. -/
def start (dev : Device σ) (config : Config) (transport : Transport) :
    Act σ (Except Error Session) := do
  if let .error flaw := config.validate then
    dev.close
    return .error (.invalidConfig flaw)
  let (outcome, held) ← (Setup.run dev config).run.run .none
  match outcome with
  | .error e =>
    held.giveBack dev
    return .error e
  | .ok () =>
    Act.note (.sessionStarted config.mode transport.method config.directions)
    return .ok ⟨some ⟨transport, config.mode, held.lock, ⟨held.streams, .none⟩⟩,
      Stats.zero.record held.streams⟩

/-- A session whose steps wait for readiness. -/
def polling (dev : Device σ) (config : Config) : Act σ (Except Error Session) :=
  start dev config ⟨.polling, config.waitTimeout⟩

/-- A session whose steps collect completions. -/
def overlapped (dev : Device σ) (config : Config) : Act σ (Except Error Session) :=
  start dev config ⟨.overlapped, config.waitTimeout⟩

end Session

end DmaStream
