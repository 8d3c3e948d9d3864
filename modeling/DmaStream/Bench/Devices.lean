import DmaStream.Bench.Basic
import DmaStream.Bench.Command

namespace DmaStream.BenchWork

def addCard (name : String) (shape : CardShape) : BenchWork Report := do
  let i ← lift (Machine.addCard shape)
  modify fun b => { b with cards := b.cards.insert name i }
  return .card (← card i)

def openCard (i : Nat) (name : String) : BenchWork Report := do
  let (id, h) ← lift (Machine.openCard i)
  let shown ← card i
  nameHandle name h
  return .opened id shown

def addScripted (name : String) (device : ScriptedDevice) : BenchWork Report := do
  let i ← lift (Machine.addScripted device)
  modify fun b => { b with scripted := b.scripted.insert name i }
  nameHandle name (← lift (Machine.openTarget (.scripted i)))
  return .done

/-- Open a device node of the kernel. -/
def openDeviceNode (name path : String) (script : KernelScript) : BenchWork Report := do
  lift (Machine.extendKernel script)
  match ← lift (Kernel.openNode path) with
  | .error e => return .failed e
  | .ok () =>
    nameHandle name (← lift (Machine.openTarget .node))
    return .done

/-- Take a lock through a handle, which the lock keeps open. -/
def acquire (name : String) (h : Nat) (wanted : Directions) : BenchWork Report := do
  match ← lift (Lock.acquire (Machine.device h) wanted) with
  | .error e => return .failed e
  | .ok held =>
    lift (Machine.own h)
    nameLock name ⟨h, held⟩
    return .acquired held

/-- Give a lock up, and its share of the handle. -/
def release (l : BenchLock) : BenchWork Report := do
  let outcome ← lift (Lock.release (Machine.device l.handle) l.held)
  closeHandle l.handle
  match outcome with
  | .ok () => return .done
  | .error e => return .failed e

def addBuffer (name : String) (len : Nat) (edit : Overwrite) : BenchWork Report := do
  let region ← lift (Act.allocWith len edit.apply)
  modify fun b => { b with buffers := b.buffers.insert name ⟨region, len⟩ }
  return .done

/-- Overwrite what follows an offset in the latest mapping of a scripted device. -/
def poke (i : Nat) (d : Direction) (offset : Nat) (edit : Overwrite) : BenchWork Report := do
  let w ← lift get
  match (w.machine.scriptedDevice i).mapped.get d with
  | none => return .bytes none
  | some mapping =>
    let old := w.memory.read mapping.region offset (mapping.len - offset)
    lift (Act.modifyMemory fun m => m.write mapping.region offset (edit.apply old))
    return .done

/-- What follows an offset in the latest mapping of a scripted device. -/
def peek (i : Nat) (d : Direction) (offset : Nat) : BenchWork Report := do
  let w ← lift get
  match (w.machine.scriptedDevice i).mapped.get d with
  | none => return .bytes none
  | some mapping =>
    return .bytes (some (w.memory.read mapping.region offset (mapping.len - offset)))

/-- Map a ring of a device. A mapping too short for its ring is given back at once. -/
def mapRing (name : String) (h : Nat) (d : Direction) (g : Geometry) : BenchWork Report := do
  match ← ask h (.mapRing d g) with
  | .error e => return .failed e
  | .ok mapping =>
    match ← lift (Act.ofFaulty (Ring.ofMapping g.slotSize g.slotCount mapping)) with
    | .error e =>
      ask h (.unmap d mapping)
      return .failed e
    | .ok ring =>
      nameRing name ⟨ring, some ((← lift get).machine.target h, d)⟩
      return .mapped ring

/-- A buffer for one call. -/
def withBuffer {α : Type} (len : Nat) (preset : Overwrite) (use : Span → BenchWork α) :
    BenchWork α := do
  let region ← lift (Act.allocWith len preset.apply)
  let a ← use ⟨region, len⟩
  lift (Act.free region)
  return a

/-- Read into a buffer of its own. -/
def read (h len : Nat) (preset : Overwrite) : BenchWork Report :=
  withBuffer len preset fun buf => do
    match ← ask h (.read buf) with
    | .error e => return .failed e
    | .ok moved => return .transferred moved ((← lift Act.memory).read buf.region 0 len)

/-- Write from a buffer of its own. -/
def write (h len : Nat) (data : Overwrite) : BenchWork Report :=
  withBuffer len data fun buf => do
    match ← ask h (.write buf) with
    | .error e => return .failed e
    | .ok moved => return .number moved

end DmaStream.BenchWork
