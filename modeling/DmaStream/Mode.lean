import DmaStream.Config

namespace DmaStream

/-- Who owns the rings. -/
inductive Mode where
  /-- The rings belong to the driver; only counters are exchanged. -/
  | zeroCopy
  /-- The rings are private; data is copied in batches. -/
  | copy
  deriving DecidableEq

/-- The name of a mode in the log. -/
def Mode.name : Mode → String
  | zeroCopy => "zero-copy"
  | copy => "copy"

/-- The mode that a session with these settings works in. -/
def Config.mode (c : Config) : Mode :=
  if c.zeroCopy then .zeroCopy else .copy

/-- How a step waits for its device. -/
inductive Method where
  /-- Wait for readiness, then serve the ready directions. -/
  | polling
  /-- Keep one transfer per direction in flight and collect completions. -/
  | overlapped
  deriving DecidableEq

/-- The name of a method in the log. -/
def Method.name : Method → String
  | polling => "polling"
  | overlapped => "overlapped"

end DmaStream
