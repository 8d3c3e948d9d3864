import DmaStream.Bench.Trace
import DmaStream.Card.Handle
import DmaStream.Kernel.Handle
import DmaStream.Scripted.Device
import DmaStream.Scripted.Kernel

namespace DmaStream

/-- What a handle is open on. -/
inductive Target where
  /-- A handle of a board, by its id there. -/
  | card (index id : Nat)
  | scripted (index : Nat)
  /-- A device node of the kernel. -/
  | node
  deriving DecidableEq

/-- A handle and how many owners it has. -/
structure SharedHandle where
  target : Target
  owners : Nat
  deriving DecidableEq

/-- All that a bench can open a handle on, and the handles. -/
structure Machine where
  cards : Array Card
  scripted : Array ScriptedDevice
  kernel : KernelScript
  handles : Array SharedHandle
  /-- Calls that reached a scripted device or the kernel, and were not reported yet. -/
  trace : Array TraceEntry

namespace Machine

def empty : Machine := ⟨#[], #[], .empty, #[], #[]⟩

def card (m : Machine) (i : Nat) : Card := m.cards.getD i default

def scriptedDevice (m : Machine) (i : Nat) : ScriptedDevice := m.scripted.getD i default

def target (m : Machine) (h : Nat) : Target := (m.handles.getD h ⟨.node, 0⟩).target

def setCard (c : Card) (i : Nat) (m : Machine) : Machine :=
  { m with cards := m.cards.setIfInBounds i c }

def setScripted (s : ScriptedDevice) (i : Nat) (m : Machine) : Machine :=
  { m with scripted := m.scripted.setIfInBounds i s }

/-- Act on one board. -/
def onCard {α : Type} (i : Nat) (act : Act Card α) : Act Machine α :=
  act.onPart (·.card i) (setCard · i)

def modifyScripted (i : Nat) (f : ScriptedDevice → ScriptedDevice) : Act Machine Unit :=
  modify fun w => { w with machine := w.machine.setScripted (f (w.machine.scriptedDevice i)) i }

def pushTrace (e : TraceEntry) : Act Machine Unit :=
  modify fun w => { w with machine := { w.machine with trace := w.machine.trace.push e } }

/-- The start of a buffer that leaves the process. -/
def sentBytes (outgoing : Option Span) : Act Machine ByteArray := do
  match outgoing with
  | none => return ByteArray.empty
  | some buf => return (← Act.memory).read buf.region 0 (min buf.len shownBytes)

/-- A bare device never hears of the calls it does not offer. -/
def reaches (bare : Bool) : Call → Bool
  | .mapRing _ _ => !bare
  | .waitReady _ _ => !bare
  | _ => true

/-- Enter a call to a scripted device, if it is one the device hears of. -/
def traceCall (i : Nat) (c : Call) : Act Machine Unit := do
  if reaches ((← get).machine.scriptedDevice i).bare c then
    pushTrace (.call c (← sentBytes c.outgoing))

/-- Enter a system call. -/
def traceSyscall (c : Syscall) : Act Machine Unit := do
  pushTrace (.syscall c (← sentBytes c.outgoing))

/-- The scripted kernel, with its calls entered ahead of their answers. -/
def tracedKernel : Kernel Machine :=
  (KernelScript.kernel.onPart (·.kernel) fun k m => { m with kernel := k }).ahead traceSyscall

/-- What a handle is open on, as a device; owners are not counted here. -/
def targetDevice : Target → Device Machine
  | .card i id => (Card.device id).onPart (·.card i) (setCard · i)
  | .scripted i =>
    (ScriptedDevice.device.onPart (·.scriptedDevice i) (setScripted · i)).ahead (traceCall i)
  | .node => tracedKernel.device

/-- One owner less; the answer says whether it was the last. -/
def disown (h : Nat) : Act Machine Bool :=
  modifyGet fun w =>
    let handles := w.machine.handles.modify h fun s => { s with owners := s.owners - 1 }
    ((handles.getD h ⟨.node, 0⟩).owners == 0, { w with machine := { w.machine with handles } })

/-- One owner more. -/
def own (h : Nat) : Act Machine Unit :=
  modify fun w =>
    { w with
      machine := { w.machine with
        handles := w.machine.handles.modify h fun s => { s with owners := s.owners + 1 } } }

/-- What a handle is open on, right now. -/
def behind (h : Nat) : Act Machine (Device Machine) := do
  return targetDevice ((← get).machine.target h)

/-- A handle as a device. Closing it takes one owner away. -/
def device (h : Nat) : Device Machine where
  answer
    | .close => do
      if ← disown h then
        (← behind h).close
    | call => do (← behind h).answer call
  backlog m := (targetDevice (m.target h)).backlog m

/-- A new handle with one owner. -/
def openTarget (t : Target) : Act Machine Nat :=
  modifyGet fun w =>
    (w.machine.handles.size,
      { w with machine := { w.machine with handles := w.machine.handles.push ⟨t, 1⟩ } })

def addCard (shape : CardShape) : Act Machine Nat := do
  let fresh ← (Card.create shape : Act Machine Card)
  modifyGet fun w =>
    (w.machine.cards.size,
      { w with machine := { w.machine with cards := w.machine.cards.push fresh } })

/-- Open a handle on a board; the answer is its id there and the handle. -/
def openCard (i : Nat) : Act Machine (Nat × Nat) := do
  let id ← onCard i Card.openHandle
  return (id, ← openTarget (.card i id))

def addScripted (s : ScriptedDevice) : Act Machine Nat :=
  modifyGet fun w =>
    (w.machine.scripted.size,
      { w with machine := { w.machine with scripted := w.machine.scripted.push s } })

def extendKernel (script : KernelScript) : Act Machine Unit :=
  modify fun w =>
    { w with machine := { w.machine with kernel := w.machine.kernel.append script } }

end Machine

end DmaStream
