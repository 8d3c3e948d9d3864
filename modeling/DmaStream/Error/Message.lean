import DmaStream.Error
import DmaStream.Error.Errno

namespace DmaStream

/-- A failure of the system is shown with its number. -/
def IoFailure.message : IoFailure → String
  | os errno => s!"{Errno.text errno} (os error {errno})"
  | nulInPath => "file name contained an unexpected NUL byte"
  | reported text => text

/-- What is wrong with the settings, with the value that is. -/
def ConfigFlaw.message : ConfigFlaw → String
  | noDirection => "no DMA direction selected"
  | slotSize bytes => s!"slot size {bytes} must be a non-zero multiple of 8"
  | slotCount slots => s!"slot count {slots} must be a power of two"
  | ringTooLarge => "ring size overflows"
  | noBuffersPerIrq => "buffers_per_irq must be non-zero"
  | bound b n => s!"outbound capacity bound {b} must be within 1..={n}"
  | noTimeout => "wait timeout must be non-zero"
  | reported text => text

/-- Why there is no ring, with both lengths where they do not fit. -/
def MapFailure.message : MapFailure → String
  | short mapped needed => s!"mapped {mapped} bytes, ring needs {needed}"
  | exceedsRing d available requested =>
    s!"{d.name} ring is {available} bytes, {requested} requested"
  | os d errno => s!"{d.name} ring: {(IoFailure.os errno).message}"
  | reported text => text

/-- How the two sides disagree, with the counts of both. -/
def Violation.message : Violation → String
  | countWentBack before after => s!"hardware count went backwards ({before} -> {after})"
  | consumedUnreleased hw sw => s!"hardware consumed unreleased slots (hw {hw} > sw {sw})"
  | badTransfer moved requested slotSize =>
    s!"moved {moved} bytes for a {requested}-byte request with {slotSize}-byte slots"
  | noStream => "no stream for this direction"
  | negativeHwCount n => s!"negative hw_count {n}"
  | negativeSwCount n => s!"negative sw_count {n}"
  | alreadyInFlight => "transfer already in flight"
  | reported text => text

namespace Error

/-- The message of an error. A synchronization call that failed reads like any other violation. -/
def message : Error → String
  | deviceUnavailable path cause => s!"device {path} unavailable: {cause.message}"
  | lockDenied denied => s!"DMA not available: {denied.describe} locked by another session"
  | allocationFailure d bytes => s!"failed to allocate {bytes} bytes for the {d.name} ring"
  | violation d reason => s!"{d.name} protocol violation: {reason.message}"
  | syncFailed d cause =>
    s!"{d.name} protocol violation: synchronization call failed: {cause.message}"
  | zeroCopyUnsupported => "zero-copy DMA not available on this device"
  | mapFailed cause => s!"mmap failed: {cause.message}"
  | invalidConfig flaw => s!"invalid configuration: {flaw.message}"
  | sessionClosed => "DMA session is closed"
  | io cause => s!"I/O error: {cause.message}"
  | pollingUnsupported => "platform not supported: readiness polling"

/-- The text of the failure underneath, where an error wraps one of the system. -/
def source : Error → Option String
  | deviceUnavailable _ cause => some cause.message
  | io cause => some cause.message
  | _ => none

end Error

end DmaStream
