import DmaStream.Kernel.Path
import DmaStream.Kernel.Syscall

namespace DmaStream

/-- Data can be read. -/
def pollIn : Nat := 1

/-- Data can be written. -/
def pollOut : Nat := 4

/-- Waiting was interrupted. -/
def interrupted : Nat := 4

/-- The call is not offered. -/
def notSupported : Nat := 95

namespace Directions

/-- The events that tell that some direction of the set is ready. -/
def toEvents (dirs : Directions) : Nat :=
  (if dirs.has .inbound then pollIn else 0) + (if dirs.has .outbound then pollOut else 0)

/-- The directions that some events make ready. -/
def ofEvents (events : Nat) : Directions :=
  (if events &&& pollIn ≠ 0 then .single .inbound else ∅) ∪
    (if events &&& pollOut ≠ 0 then .single .outbound else ∅)

end Directions

namespace Kernel

variable {κ α : Type}

/-- Milliseconds for a wait, from microseconds; the system takes 31 bits of them. -/
def pollTimeout (timeout : Nat) : Nat :=
  min (timeout / 1000) 0x7fffffff

/-- The failure of a system call. -/
def ioError (errno : Nat) : Error := .io (.os errno)

/-- A failed system call is a failure of the call it was made for. -/
def ofReply : Except Nat α → Except Error α :=
  Except.mapError ioError

/-- Switch an engine; the counters come back in the record, and may be nonsense. -/
def enableChannel (k : Kernel κ) (d : Direction) (enable : Bool) : Act κ (Except Error Counts) := do
  match ← k.answer (.engine d (.request enable)) with
  | .ok record => return record.counts d
  | .error errno => return .error (ioError errno)

/-- Map a ring as long as it was asked for. -/
def mapRing (k : Kernel κ) (d : Direction) (g : Geometry) : Act κ (Except Error Mapping) := do
  match ← k.answer (.map g.len (signed g.offset)) with
  | .ok region =>
    Act.note (.ringMapped d g.len)
    return .ok ⟨region, g.len⟩
  | .error errno => return .error (.mapFailed (.os d errno))

/-- An interrupted wait is a wait that ended without news. -/
def waitReady (k : Kernel κ) (interest : Directions) (timeout : Nat) :
    Act κ (Except Error Directions) := do
  match ← k.answer (.poll interest.toEvents (pollTimeout timeout)) with
  | .ok events => return .ok (Directions.ofEvents events ∩ interest)
  | .error errno => return if errno = interrupted then .ok ∅ else .error (ioError errno)

/-- Device nodes offer no asynchronous transfers. -/
def serve (k : Kernel κ) : (call : Call) → Act κ (Reply call)
  | .requestLock wanted => return (ofReply (← k.answer (.lock (.request wanted)))).map (·.granted)
  | .releaseLock held => return (ofReply (← k.answer (.lock (.release held)))).map fun _ => ()
  | .setLoopback enable => return ofReply (← k.answer (.loopback enable))
  | .enableChannel d enable => enableChannel k d enable
  | .ringLayout => return ofReply (← k.answer .layout)
  | .mapRing d g => mapRing k d g
  | .pushSwCount d count => return ofReply (← k.answer (.update d (signed count)))
  | .read buf => return ofReply (← k.answer (.read buf))
  | .write buf => return ofReply (← k.answer (.write buf))
  | .waitReady interest timeout => waitReady k interest timeout
  | .submit _ _ => return .error (ioError notSupported)
  | .waitAny _ _ => return .error (ioError notSupported)
  | .cancelAll => return ()
  | .unmap _ mapping => k.answer (.unmap mapping)
  | .close => k.answer .close

/-- Open a device node. -/
def openNode (path : String) : Act κ (Except Error Unit) := do
  match Path.openFailure path with
  | some cause => return .error (.deviceUnavailable path cause)
  | none =>
    Act.note (.deviceOpened path)
    return .ok ()

/-- An open device node. -/
def device (k : Kernel κ) : Device κ where
  answer := serve k
  backlog _ := 0

end Kernel

end DmaStream
