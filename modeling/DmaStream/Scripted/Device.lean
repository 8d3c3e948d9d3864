import DmaStream.Driver.Device
import DmaStream.Scripted.Cue

namespace DmaStream

/-- The cues for each kind of call. -/
structure DeviceScript where
  requestLock : CueQueue Error Directions
  releaseLock : CueQueue Error Unit
  setLoopback : CueQueue Error Unit
  enableChannel : PerDirection (CueQueue Error Counts)
  ringLayout : CueQueue Error Unit
  /-- Lengths of mapped regions. -/
  mapRing : PerDirection (CueQueue Error Nat)
  pushSwCount : PerDirection (CueQueue Error Unit)
  read : CueQueue Error ScriptedTransfer
  write : CueQueue Error Nat
  waitReady : CueQueue Error Directions
  submit : PerDirection (CueQueue Error ScriptedTransfer)
  waitAny : CueQueue Error (Option (Direction × ScriptedTransfer))

namespace DeviceScript

/-- No cues: every call gets its usual answer. -/
def empty : DeviceScript :=
  ⟨[], [], [], .both [], [], .both [], .both [], [], [], [], .both [], []⟩

/-- More cues behind those that are left. -/
def append (s t : DeviceScript) : DeviceScript where
  requestLock := s.requestLock ++ t.requestLock
  releaseLock := s.releaseLock ++ t.releaseLock
  setLoopback := s.setLoopback ++ t.setLoopback
  enableChannel := CueQueue.appendEach s.enableChannel t.enableChannel
  ringLayout := s.ringLayout ++ t.ringLayout
  mapRing := CueQueue.appendEach s.mapRing t.mapRing
  pushSwCount := CueQueue.appendEach s.pushSwCount t.pushSwCount
  read := s.read ++ t.read
  write := s.write ++ t.write
  waitReady := s.waitReady ++ t.waitReady
  submit := CueQueue.appendEach s.submit t.submit
  waitAny := s.waitAny ++ t.waitAny

end DeviceScript

/-- A device that answers from a script, with what its answers have led to so far. Where the script
has nothing, it grants what is asked for and moves nothing by itself. -/
structure ScriptedDevice where
  script : DeviceScript
  layout : Layout
  /-- A bare device cannot map rings and cannot wait for readiness. -/
  bare : Bool
  counts : PerDirection Counts
  /-- The latest mapping of each ring; its memory outlives it. -/
  mapped : PerDirection (Option Mapping)
  inFlight : PerDirection (Option Span)

namespace ScriptedDevice

/-- A scripted device with both counters at zero and nothing mapped. -/
def create (script : DeviceScript) (layout : Layout) (bare : Bool) : ScriptedDevice :=
  ⟨script, layout, bare, .both ⟨0, 0⟩, .both none, .both none⟩

instance : Inhabited ScriptedDevice := ⟨create .empty (.both ⟨0, 0, 0⟩) false⟩

/-- Change the device and nothing else. -/
def update (f : ScriptedDevice → ScriptedDevice) : Act ScriptedDevice Unit :=
  modify fun w => { w with machine := f w.machine }

/-- Take the next cue of one queue. -/
def draw {α : Type} (queue : DeviceScript → CueQueue Error α)
    (rest : CueQueue Error α → DeviceScript → DeviceScript) : Act ScriptedDevice (Cue Error α) := do
  let cues := queue (← get).machine.script
  update fun s => { s with script := rest cues.tail s.script }
  return cues.next

/-- The cues for one direction out of a pair of queues. -/
def drawFor {α : Type} (d : Direction) (queues : DeviceScript → PerDirection (CueQueue Error α))
    (rest : PerDirection (CueQueue Error α) → DeviceScript → DeviceScript) :
    Act ScriptedDevice (Cue Error α) :=
  draw (fun s => (queues s).get d) fun q s => rest ((queues s).set d q) s

/-- Replace the counters of a direction. -/
def setCounts (s : ScriptedDevice) (d : Direction) (c : Counts) : ScriptedDevice :=
  { s with counts := s.counts.set d c }

/-- The usual answer is the counters as they are; a cue replaces them for good. -/
def enableChannel (d : Direction) : Act ScriptedDevice (Except Error Counts) := do
  let cue ← drawFor d (·.enableChannel) fun q s => { s with enableChannel := q }
  match cue.resolve ((← get).machine.counts.get d) with
  | .error e => return .error e
  | .ok counts =>
    update (·.setCounts d counts)
    return .ok counts

/-- A mapping is new memory of the length asked for, or of the one in the cue. -/
def mapRing (d : Direction) (g : Geometry) : Act ScriptedDevice (Except Error Mapping) := do
  if (← get).machine.bare then
    return .error .zeroCopyUnsupported
  let cue ← drawFor d (·.mapRing) fun q s => { s with mapRing := q }
  match cue.resolve g.len with
  | .error e => return .error e
  | .ok len =>
    let mapping : Mapping := ⟨← Act.alloc len, len⟩
    update fun s => { s with mapped := s.mapped.set d (some mapping) }
    return .ok mapping

/-- Unless the cue is a failure, the software count is taken in. -/
def pushSwCount (d : Direction) (count : Nat) : Act ScriptedDevice (Except Error Unit) := do
  let cue ← drawFor d (·.pushSwCount) fun q s => { s with pushSwCount := q }
  match cue.resolve () with
  | .error e => return .error e
  | .ok () =>
    update fun s => s.setCounts d { s.counts.get d with swCount := count }
    return .ok ()

/-- The cue says how many bytes count as read, and what the buffer is filled with. -/
def read (buf : Span) : Act ScriptedDevice (Except Error Nat) := do
  let cue ← draw (·.read) fun q s => { s with read := q }
  match cue.resolve .nothing with
  | .error e => return .error e
  | .ok t =>
    Act.modifyMemory (t.mark buf)
    return .ok t.moved

/-- All that is waited for is ready, unless a cue says otherwise. -/
def waitReady (interest : Directions) : Act ScriptedDevice (Except Error Directions) := do
  if (← get).machine.bare then
    return .error .pollingUnsupported
  let cue ← draw (·.waitReady) fun q s => { s with waitReady := q }
  return cue.resolve interest

/-- Without a cue a transfer stays in flight; with one it is over at once. -/
def submit (d : Direction) (buf : Span) : Act ScriptedDevice (Except Error Submission) := do
  match ← drawFor d (·.submit) fun q s => { s with submit := q } with
  | .failure e => return .error e
  | .value t =>
    Act.modifyMemory (t.mark buf)
    return .ok (.completed t.moved)
  | .usual =>
    update fun s => { s with inFlight := s.inFlight.set d (some buf) }
    return .ok .pending

/-- A cue reports a transfer, which marks its buffer only if it was in flight. -/
def waitAny : Act ScriptedDevice (Except Error (Option (Direction × Nat))) := do
  let cue ← draw (·.waitAny) fun q s => { s with waitAny := q }
  match cue.resolve none with
  | .error e => return .error e
  | .ok none => return .ok none
  | .ok (some (d, t)) =>
    if let some buf := (← get).machine.inFlight.get d then
      Act.modifyMemory (t.mark buf)
      update fun s => { s with inFlight := s.inFlight.set d none }
    return .ok (some (d, t.moved))

/-- The answer to each call, from its own queue of cues. -/
def answer : (call : Call) → Act ScriptedDevice (Reply call)
  | .requestLock wanted => do
    return (← draw (·.requestLock) fun q s => { s with requestLock := q }).resolve wanted
  | .releaseLock _ => do
    return (← draw (·.releaseLock) fun q s => { s with releaseLock := q }).resolve ()
  | .setLoopback _ => do
    return (← draw (·.setLoopback) fun q s => { s with setLoopback := q }).resolve ()
  | .enableChannel d _ => enableChannel d
  | .ringLayout => do
    let cue ← draw (·.ringLayout) fun q s => { s with ringLayout := q }
    let layout := (← get).machine.layout
    return (cue.resolve ()).map fun _ => layout
  | .mapRing d g => mapRing d g
  | .pushSwCount d count => pushSwCount d count
  | .read buf => read buf
  | .write buf => do
    return (← draw (·.write) fun q s => { s with write := q }).resolve buf.len
  | .waitReady interest _ => waitReady interest
  | .submit d buf => submit d buf
  | .waitAny _ _ => waitAny
  | .cancelAll => update ({ · with inFlight := .both none })
  | .unmap _ _ => return ()
  | .close => return ()

/-- Only cues make the device report completions. -/
def device : Device ScriptedDevice where
  answer := answer
  backlog s := s.script.waitAny.length

end ScriptedDevice

end DmaStream
