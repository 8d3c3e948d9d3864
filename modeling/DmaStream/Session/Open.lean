import DmaStream.Kernel.Handle
import DmaStream.Session.Setup

namespace DmaStream.Session

variable {κ : Type}

/-- Open a device node and start a session on it whose steps wait for readiness. -/
def openNode (k : Kernel κ) (path : String) (config : Config) : Act κ (Except Error Session) := do
  match ← Kernel.openNode path with
  | .error e => return .error e
  | .ok () => polling k.device config

/-- A session on a device node with default settings. -/
def init (k : Kernel κ) (path : String) (zeroCopy : Bool) : Act κ (Except Error Session) :=
  openNode k path { Config.default with zeroCopy }

end DmaStream.Session
