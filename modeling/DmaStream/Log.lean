import DmaStream.Card.Mishap
import DmaStream.Driver.Call
import DmaStream.Error.Message
import DmaStream.Mode

namespace DmaStream

/-- How much an entry of the log matters. -/
inductive Level where
  | error
  | warn
  | info
  | debug
  | trace
  deriving DecidableEq

namespace Level

/-- The name of a level in the log. -/
def name : Level → String
  | error => "error"
  | warn => "warn"
  | info => "info"
  | debug => "debug"
  | trace => "trace"

/-- Higher means more detail. -/
def detail : Level → Nat
  | error => 1
  | warn => 2
  | info => 3
  | debug => 4
  | trace => 5

end Level

/-- What is logged, with the data that its wording needs. -/
inductive LogEvent where
  | inboundOverrun (waiting slotCount : Nat)
  | unclaimedDropped (slots : Nat)
  | synced (d : Direction) (hwCount swCount available : Nat)
  | batchMoved (d : Direction) (slots : Nat)
  | stepTimedOut (steps : Nat)
  | lockAcquired (dirs : Directions)
  | lockDenied (dirs : Directions)
  | lockReleased (dirs : Directions)
  /-- A lock given up in passing could not be released. -/
  | lockNotReleased (dirs : Directions) (e : Error)
  /-- The lock of a session could not be released. -/
  | releaseFailed (e : Error)
  | channelEnabled (d : Direction) (counts : Counts)
  | channelDisabled (d : Direction) (counts : Counts)
  | disableFailed (d : Direction) (e : Error)
  | cancelling (dirs : Directions)
  | sessionStarted (mode : Mode) (method : Method) (dirs : Directions)
  | sessionClosed (mode : Mode) (slotsIn slotsOut steps : Nat)
  | tearingDown (e : Error)
  | teardownAfterFatal (e : Error)
  | teardownFailed (e : Error)
  | deviceOpened (path : String)
  | ringMapped (d : Direction) (bytes : Nat)
  | handleOpened (id : Nat)
  | handleClosed (id : Nat)
  | transferCancelled (d : Direction)
  | mishapInjected (mishap : Mishap)

namespace LogEvent

/-- The level that an event is logged at. -/
def level : LogEvent → Level
  | inboundOverrun _ _ => .warn
  | unclaimedDropped _ => .trace
  | synced _ _ _ _ => .trace
  | batchMoved _ _ => .trace
  | stepTimedOut _ => .trace
  | lockAcquired _ => .debug
  | lockDenied _ => .debug
  | lockReleased _ => .debug
  | lockNotReleased _ _ => .warn
  | releaseFailed _ => .warn
  | channelEnabled _ _ => .debug
  | channelDisabled _ _ => .debug
  | disableFailed _ _ => .warn
  | cancelling _ => .debug
  | sessionStarted _ _ _ => .info
  | sessionClosed _ _ _ _ => .info
  | tearingDown _ => .error
  | teardownAfterFatal _ => .warn
  | teardownFailed _ => .warn
  | deviceOpened _ => .info
  | ringMapped _ _ => .debug
  | handleOpened _ => .debug
  | handleClosed _ => .debug
  | transferCancelled _ => .debug
  | mishapInjected _ => .debug

/-- The wording of an event. -/
def message : LogEvent → String
  | inboundOverrun waiting slotCount =>
    s!"inbound overrun: {waiting} slots pending on a {slotCount}-slot ring"
  | unclaimedDropped slots => s!"inbound: {slots} unclaimed slots dropped"
  | synced d hw sw available => s!"{d.name}: hw {hw} sw {sw} available {available}"
  | batchMoved d slots => s!"{d.name}: batch of {slots} slots"
  | stepTimedOut steps => s!"step {steps}: timeout"
  | lockAcquired dirs => s!"DMA lock acquired for {dirs.describe}"
  | lockDenied dirs => s!"DMA lock denied for {dirs.describe}"
  | lockReleased dirs => s!"DMA lock released for {dirs.describe}"
  | lockNotReleased dirs e => s!"failed to release DMA lock {dirs.describe}: {e.message}"
  | releaseFailed e => s!"failed to release DMA lock: {e.message}"
  | channelEnabled d c =>
    s!"{d.name} channel enabled (driver hw {c.hwCount} sw {c.swCount})"
  | channelDisabled d c =>
    s!"{d.name} channel disabled (driver hw {c.hwCount} sw {c.swCount})"
  | disableFailed d e => s!"failed to disable {d.name} channel: {e.message}"
  | cancelling dirs => s!"cancelling in-flight transfers {dirs.describe}"
  | sessionStarted mode method dirs =>
    s!"DMA session started: {mode.name} mode, {method.name} transport, {dirs.describe}"
  | sessionClosed mode slotsIn slotsOut steps =>
    s!"DMA session closed ({mode.name} mode): " ++
      s!"{slotsIn} slots in, {slotsOut} slots out, {steps} steps"
  | tearingDown e => s!"{e.message}; tearing down DMA session"
  | teardownAfterFatal e => s!"teardown after fatal error: {e.message}"
  | teardownFailed e => s!"DMA session teardown: {e.message}"
  | deviceOpened path => s!"opened LitePCIe device {path}"
  | ringMapped d bytes => s!"mapped {d.name} ring: {bytes} bytes"
  | handleOpened id => s!"soft card: handle {id} opened"
  | handleClosed id => s!"soft card: handle {id} closed"
  | transferCancelled d => s!"soft card: cancelled {d.name} transfer"
  | mishapInjected mishap => s!"soft card: injecting {mishap.describe}"

/-- An entry as the log shows it. -/
def render (e : LogEvent) : String :=
  e.level.name ++ " " ++ e.message

end LogEvent

/-- The events with no more detail than asked for; no level asks for none. -/
def LogEvent.upTo (level : Option Level) (events : List LogEvent) : List LogEvent :=
  match level with
  | none => []
  | some l => events.filter fun e => e.level.detail ≤ l.detail

end DmaStream
