import DmaStream.Kernel.Syscall
import DmaStream.Scripted.Cue

namespace DmaStream

/-- The cues for each kind of system call. -/
structure KernelScript where
  loopback : CueQueue Nat Unit
  /-- Hardware and software count of each engine. -/
  engine : PerDirection (CueQueue Nat (Int × Int))
  layout : CueQueue Nat Layout
  /-- Reader and writer status. -/
  lock : CueQueue Nat (Nat × Nat)
  update : PerDirection (CueQueue Nat Unit)
  /-- What a mapping is filled with. -/
  map : CueQueue Nat UInt8
  poll : CueQueue Nat Nat
  read : CueQueue Nat ScriptedTransfer
  write : CueQueue Nat Nat

namespace KernelScript

/-- No cues: every system call gets its usual answer. -/
def empty : KernelScript := ⟨[], .both [], [], [], .both [], [], [], [], []⟩

/-- More cues behind those that are left. -/
def append (s t : KernelScript) : KernelScript where
  loopback := s.loopback ++ t.loopback
  engine := CueQueue.appendEach s.engine t.engine
  layout := s.layout ++ t.layout
  lock := s.lock ++ t.lock
  update := CueQueue.appendEach s.update t.update
  map := s.map ++ t.map
  poll := s.poll ++ t.poll
  read := s.read ++ t.read
  write := s.write ++ t.write

/-- Take the next cue of one queue. -/
def draw {α : Type} (queue : KernelScript → CueQueue Nat α)
    (rest : CueQueue Nat α → KernelScript → KernelScript) : Act KernelScript (Cue Nat α) := do
  let cues := queue (← get).machine
  modify fun w => { w with machine := rest cues.tail w.machine }
  return cues.next

/-- Take the next cue for one direction. -/
def drawFor {α : Type} (d : Direction) (queues : KernelScript → PerDirection (CueQueue Nat α))
    (rest : PerDirection (CueQueue Nat α) → KernelScript → KernelScript) :
    Act KernelScript (Cue Nat α) :=
  draw (fun s => (queues s).get d) fun q s => rest ((queues s).set d q) s

/-- The answer to each system call, from its own queue of cues. -/
def answer : (call : Syscall) → Act KernelScript call.Reply
  | .loopback _ => do
    return (← draw (·.loopback) fun q s => { s with loopback := q }).resolve ()
  | .engine d record => do
    let cue ← drawFor d (·.engine) fun q s => { s with engine := q }
    return (cue.resolve (record.hwCount, record.swCount)).map fun (hw, sw) =>
      { record with hwCount := hw, swCount := sw }
  | .layout => do
    return (← draw (·.layout) fun q s => { s with layout := q }).resolve .unset
  | .lock record => do
    let cue ← draw (·.lock) fun q s => { s with lock := q }
    return (cue.resolve (1, 1)).map fun (reader, writer) =>
      { record with readerStatus := reader, writerStatus := writer }
  | .update d _ => do
    return (← drawFor d (·.update) fun q s => { s with update := q }).resolve ()
  | .map len _ => do
    match (← draw (·.map) fun q s => { s with map := q }).resolve 0 with
    | .error errno => return .error errno
    | .ok fill =>
      return .ok (← Act.allocWith len fun _ => Bytes.replicate len fill)
  | .unmap mapping => Act.free mapping.region
  | .poll events _ => do
    return (← draw (·.poll) fun q s => { s with poll := q }).resolve events
  | .read buf => do
    match (← draw (·.read) fun q s => { s with read := q }).resolve .nothing with
    | .error errno => return .error errno
    | .ok t =>
      Act.modifyMemory (t.mark buf)
      return .ok t.moved
  | .write buf => do
    return (← draw (·.write) fun q s => { s with write := q }).resolve buf.len
  | .close => return ()

/-- A script as a kernel. -/
def kernel : Kernel KernelScript := ⟨answer⟩

end KernelScript

end DmaStream
